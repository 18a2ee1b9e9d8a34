import EffectGraph.Value.Basic

/-!
# Signal handles inside values

A value depends on the signals whose handles occur in it, at any depth inside lists and records.
`Value.handles` lists all occurrences from left to right, `Value.collectSignals` adds those that a
list lacks, and `Value.isReactive` asks whether there is any. `Value.resolveWith` replaces each
handle by what a lookup gives for it.
-/

namespace EffectGraph

namespace Value

mutual

/-- The signal handles that occur in a value, in order and with repetitions. -/
def handles : Value → List SignalId
  | .signal id => [id]
  | .list items => handlesOfItems items
  | .record fields => handlesOfFields fields
  | _ => []

/-- The signal handles in the items of a list. -/
def handlesOfItems : List Value → List SignalId
  | [] => []
  | item :: rest => item.handles ++ handlesOfItems rest

/-- The signal handles in the fields of a record. -/
def handlesOfFields : List (String × Value) → List SignalId
  | [] => []
  | (_, value) :: rest => value.handles ++ handlesOfFields rest

end

mutual

/-- The value is a signal handle or contains one. -/
def isReactive : Value → Bool
  | .signal _ => true
  | .list items => isReactiveItems items
  | .record fields => isReactiveFields fields
  | _ => false

/-- Some item of a list is reactive. -/
def isReactiveItems : List Value → Bool
  | [] => false
  | item :: rest => item.isReactive || isReactiveItems rest

/-- Some field of a record is reactive. -/
def isReactiveFields : List (String × Value) → Bool
  | [] => false
  | (_, value) :: rest => value.isReactive || isReactiveFields rest

end

/-- The list with a handle at its end, unless the list has it already. -/
def addHandle (found : List SignalId) (id : SignalId) : List SignalId :=
  if id ∈ found then found else found ++ [id]

/-- The list with the handles of a value that it lacks, once each and in order of first occurrence.
-/
def collectSignals (value : Value) (found : List SignalId) : List SignalId :=
  value.handles.foldl addHandle found

/-- The signals that a list of values depends on. -/
def dependencies (values : List Value) : List SignalId :=
  values.foldl (fun found value => value.collectSignals found) []

mutual

/-- The value with every signal handle replaced by what `lookup` gives for it. What a handle is
replaced by is not looked into. -/
def resolveWith {ε : Type} (lookup : SignalId → Except ε Value) : Value → Except ε Value
  | .signal id => lookup id
  | .list items => (resolveItems lookup items).map .list
  | .record fields => (resolveFields lookup fields).map .record
  | value => .ok value

/-- The items of a list with their signal handles replaced. -/
def resolveItems {ε : Type} (lookup : SignalId → Except ε Value) :
    List Value → Except ε (List Value)
  | [] => .ok []
  | item :: rest =>
    match item.resolveWith lookup with
    | .error e => .error e
    | .ok item => (resolveItems lookup rest).map (item :: ·)

/-- The fields of a record with their signal handles replaced. -/
def resolveFields {ε : Type} (lookup : SignalId → Except ε Value) :
    List (String × Value) → Except ε (List (String × Value))
  | [] => .ok []
  | (key, value) :: rest =>
    match value.resolveWith lookup with
    | .error e => .error e
    | .ok value => (resolveFields lookup rest).map ((key, value) :: ·)

end

end Value

end EffectGraph
