import EffectGraph.Demo.Page
import EffectGraph.Demo.Pipeline

/-!
# The command line

Without an argument the page is demonstrated, with settings from the environment; the argument
`click_counter` asks for the pipeline. Errors go to the standard error stream.
-/

namespace EffectGraph

/-- Prints a report. -/
def Demo.Report.print (report : Demo.Report) : IO Unit := do
  for line in report.lines do IO.println line
  for line in report.errors do IO.eprintln line

/-- The demonstration that the arguments ask for. -/
def Demo.choose (args : List String) (lookup : String → Option String) : Option Demo.Report :=
  match args with
  | "click_counter" :: _ => Demo.Pipeline.demonstrate
  | _ => Demo.Page.demonstrate lookup

end EffectGraph

open EffectGraph in
/-- Runs a demonstration and exits with its code. -/
def main (args : List String) : IO UInt32 := do
  let limit ← IO.getEnv Settings.stepLimitVariable
  let checks ← IO.getEnv Settings.checkResultsVariable
  let lookup (name : String) : Option String :=
    if name = Settings.stepLimitVariable then limit
    else if name = Settings.checkResultsVariable then checks
    else none
  match Demo.choose args lookup with
  | none => return 1
  | some report =>
    report.print
    return report.code.toUInt32
