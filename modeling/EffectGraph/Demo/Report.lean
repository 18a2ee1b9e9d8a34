import EffectGraph.Script.Routine
import EffectGraph.Session.Settling

/-!
# Demonstrations

A demonstration goes through phases, each of which acts on the same session. The first phase that
fails ends it. What it prints is its journal from the level `info` on: the notes as they are, and
each event on one line.
-/

namespace EffectGraph

namespace Demo

/-- What a demonstration leaves behind. -/
structure Report where
  /-- The lines that it printed. -/
  lines : List String
  /-- The lines that tell why it stopped. -/
  errors : List String
  deriving Repr, DecidableEq

/-- The exit code: zero unless the demonstration stopped early. -/
def Report.code (report : Report) : Nat := if report.errors.isEmpty then 0 else 1

/-- A part of a demonstration. -/
structure Phase where
  /-- What the phase is for, if that is told when it fails. -/
  purpose : Option String := none
  /-- What is done. -/
  act : Routine Value

/-- The lines that tell why a phase failed. -/
def explain (purpose : Option String) (failure : Failure) : List String :=
  match purpose with
  | none => ["Error: " ++ failure.message]
  | some purpose => ["Error: " ++ purpose, "", "Caused by:", "    " ++ failure.message]

/-- How deep handlers nest in a demonstration, and how many changes one batch settles, at most. -/
def depth : Nat := 1000

/-- Goes through phases until one fails, and gives the lines that tell why. There is no result if a
phase does not end. -/
def perform (session : Session) : List Phase → World → Option (List String × World)
  | [], w => some ([], w)
  | phase :: rest, w =>
    match session.execute depth phase.act.script w with
    | none => none
    | some (.ok _, w) => perform session rest w
    | some (.error interrupt, w) => some (explain phase.purpose interrupt.toFailure, w)

/-- The lines of a journal entry that is shown. -/
def linesOf (entry : Entry) : List String :=
  if entry.isShown .info then
    match entry with
    | .note value => [value.display]
    | .event e => e.line.splitOn "\n"
    | .activity _ => []
  else []

/-- Goes through phases from a state on, and reports. -/
def report? (session : Session) (phases : List Phase) (w : World) : Option Report :=
  (perform session phases w).map fun (errors, w) =>
    { lines := w.journal.toList.flatMap linesOf, errors }

/-- A literal text as an operand. -/
def literal (s : String) : Operand := .value (.text s)

/-- One more than a number; what is no number counts as zero. -/
def increment (count _occurrence : Value) : Value := .number (count.number?.getD 0 + 1)

end Demo

end EffectGraph
