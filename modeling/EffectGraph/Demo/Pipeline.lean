import EffectGraph.Demo.Report
import EffectGraph.Catalog.Standard

/-!
# A counter, node by node

The demonstration counts clicks in a cell and derives a label from it in two steps. After two clicks
it prints what can be told about the cell and the label.
-/

namespace EffectGraph

namespace Demo

open Catalog

namespace Pipeline

/-- Counts the occurrences of a source, and gives the cell and its label. -/
def program (clicks : SourceId) : Program :=
  (Events.fold (.value (.source clicks)) (.value (.number 0)) increment).bind fun count =>
  (Texts.concat (literal "Clicks: ") (.program (Show.«show» (.value count)))).map fun label =>
    .list [count, label]

/-- A node on one line. -/
def line (info : NodeInfo) : String :=
  s!"{info.id.text}: {info.kind} rank={info.rank} value={info.value.described} " ++
    s!"evaluations={info.evaluations}"

/-- Prints what can be told about some nodes. -/
def printAll : List SignalId → Routine Unit
  | [] => pure ()
  | id :: rest => do
    let info ← (Routine.call (.ask (.inspect id)) : Routine NodeInfo)
    Routine.ask (.record (.note (.text (line info))))
    printAll rest

/-- Builds the nodes, clicks twice and prints the nodes. -/
def act (button : ElementId) : Routine Value := do
  let clicks ← Routine.on button "click"
  let handles ← Routine.run (program clicks)
  let _ ← Routine.dispatchEvent button "click" .unit
  let _ ← Routine.dispatchEvent button "click" .unit
  printAll ((handles.items?.getD []).filterMap Value.signal?)
  return .unit

/-- The demonstration. -/
def demonstrate : Option Report :=
  let (button, document) := Document.empty.create "button" "increment"
  let table := standard.install Elements.bundle
  report? (table.session {}) [{ act := act button }]
    { document, journal := (table.events.map Entry.event).toArray }

end Pipeline

end Demo

end EffectGraph
