import EffectGraph.Text.Blank
import EffectGraph.Text.Quoted
import EffectGraph.Number.Powers

/-!
# Settings

Settings bound the length of a run and turn checks and step traces on and off. They can be read from
environment variables; a variable that cannot be read is reported and otherwise ignored.
-/

namespace EffectGraph

/-- How programs are run. -/
structure Settings where
  /-- A run ends after this many steps. -/
  stepLimit : Option Nat := none
  /-- The results of handlers are checked against the declared shapes. -/
  checkResults : Bool := true
  /-- Every dispatched instruction is traced. -/
  traceSteps : Bool := false
  deriving Repr, DecidableEq

/-- Why a text is not a step limit. -/
inductive LimitError where
  /-- There is no text. -/
  | empty
  /-- A character is no digit. -/
  | invalidDigit
  /-- The number does not fit into 64 bits. -/
  | tooLarge
  deriving Repr, DecidableEq

/-- The text of an error. -/
def LimitError.message : LimitError → String
  | .empty => "cannot parse integer from empty string"
  | .invalidDigit => "invalid digit found in string"
  | .tooLarge => "number too large to fit in target type"

/-- A variable that was ignored. -/
inductive IgnoredSetting where
  /-- The step limit, with the text it had. -/
  | stepLimit (value : String) (error : LimitError)
  /-- The switch for result checks, with the text it had. -/
  | checkResults (value : String)
  deriving Repr, DecidableEq

namespace Settings

/-- The variable that holds the step limit. -/
def stepLimitVariable : String := "WEFT_STEP_LIMIT"

/-- The variable that turns result checks on and off. -/
def checkResultsVariable : String := "WEFT_CHECK_RESULTS"

/-- Reads digits into a number below `2^64`. The first character that is no digit or makes the
number too large decides the error. -/
def readDigits (n : Nat) : List Char → Except LimitError Nat
  | [] => .ok n
  | c :: rest =>
    if !c.isDigit then .error .invalidDigit
    else
      let n := 10 * n + (c.toNat - '0'.toNat)
      if n < Number.powTwo 64 then readDigits n rest else .error .tooLarge

/-- Reads a step limit: digits, after a plus sign or none. -/
def readLimit (s : String) : Except LimitError Nat :=
  match s.toList with
  | [] => .error .empty
  | ['+'] => .error .invalidDigit
  | '+' :: digits => readDigits 0 digits
  | digits => readDigits 0 digits

/-- Reads a switch. -/
def readSwitch? (s : String) : Option Bool :=
  if s ∈ ["1", "true", "yes", "on"] then some true
  else if s ∈ ["0", "false", "no", "off"] then some false
  else none

/-- The settings with the step limit a variable asks for. -/
def withLimitFrom (settings : Settings) : Option String → Settings × List IgnoredSetting
  | none => (settings, [])
  | some raw =>
    match readLimit (Text.strip raw) with
    | .ok limit => ({ settings with stepLimit := some limit }, [])
    | .error e => (settings, [.stepLimit raw e])

/-- The settings with the result checks a variable asks for. -/
def withChecksFrom (settings : Settings) : Option String → Settings × List IgnoredSetting
  | none => (settings, [])
  | some raw =>
    match readSwitch? (Text.strip raw).toLower with
    | some check => ({ settings with checkResults := check }, [])
    | none => (settings, [.checkResults raw])

/-- The default settings, changed as the variables of an environment ask, and what was ignored. -/
def ofEnvironment (lookup : String → Option String) : Settings × List IgnoredSetting :=
  let (settings, ignoredLimit) := withLimitFrom {} (lookup stepLimitVariable)
  let (settings, ignoredChecks) := settings.withChecksFrom (lookup checkResultsVariable)
  (settings, ignoredLimit ++ ignoredChecks)

/-- The name of a truth value. -/
def switchName (b : Bool) : String := if b then "true" else "false"

/-- The fields of the settings, as text. -/
def describedFields (settings : Settings) : List (String × String) :=
  [("step_limit", match settings.stepLimit with
      | none => "None"
      | some limit => s!"Some({limit})"),
   ("check_results", switchName settings.checkResults),
   ("trace_steps", switchName settings.traceSteps)]

/-- The description of the settings. -/
def described (settings : Settings) : String :=
  Text.described "RuntimeConfig" settings.describedFields

end Settings

end EffectGraph
