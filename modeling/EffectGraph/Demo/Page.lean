import EffectGraph.Demo.Report
import EffectGraph.Catalog.Standard

/-!
# Two small applications on a page

A counter shows how often a button was clicked. A list of things to do takes the text of an input
field whenever its button is clicked, and clears the field. The demonstration starts both and then
acts as the user.
-/

namespace EffectGraph

namespace Demo

open Catalog

/-- The counter: every click on `increment` updates `count`. -/
def counter : Program :=
  (Elements.element (literal "increment")).bind fun button =>
  (Elements.element (literal "count")).bind fun display =>
  let clicks := Events.on (literal "click") (.value button)
  let count := Events.fold (.program clicks) (.value (.number 0)) increment
  let label := Texts.concat (literal "Clicks: ") (.program (Show.«show» (.program count)))
  Elements.setProperty (literal "textContent") (.program label) (.value display)

/-- The list of things to do: a click appends the text of the field and clears the field. -/
def todoList : Program :=
  (Elements.element (literal "todo-input")).bind fun field =>
  (Elements.element (literal "todo-button")).bind fun button =>
  (Elements.element (literal "todo-list")).bind fun shown =>
  (Events.on (literal "click") (.value button)).bind fun submit =>
  let todos := Events.foldM (.value submit) (.value (.list [])) fun todos _ =>
    Lists.append (.value todos) (.program (Elements.getProperty (literal "value") (.value field)))
  let line := Lists.join (.program todos) (literal ", ")
  let cleared := Events.constantOn (.value submit) (literal "")
  Program.chain
    [Elements.setProperty (literal "textContent") (.program line) (.value shown),
     Elements.setProperty (literal "value") (.program cleared) (.value field)]

/-- The elements of the page. -/
structure Page where
  /-- The button of the counter. -/
  button : ElementId
  /-- The text of the counter. -/
  count : ElementId
  /-- The input field. -/
  field : ElementId
  /-- The button that submits the field. -/
  submit : ElementId
  /-- The list of things to do. -/
  todos : ElementId

/-- The page and the document that shows it. -/
def Page.create : Page × Document :=
  let (button, document) := Document.empty.create "button" "increment"
  let (count, document) := document.create "span" "count"
  let (field, document) := document.create "input" "todo-input"
  let (submit, document) := document.create "button" "todo-button"
  let (todos, document) := document.create "ul" "todo-list"
  ({ button, count, field, submit, todos }, document)

namespace Page

/-- The text that an element shows. -/
def textOf (id : ElementId) : Routine String := Routine.call (.ask (.textContent id))

/-- Announces something about the page. -/
def announce (message : String) (fields : List (String × String)) : Routine Unit :=
  Routine.report (.announced "weft_demo" message fields)

/-- Announces the text of the counter. -/
def announceCount (page : Page) (message : String) : Routine Unit := do
  announce message [("label", ← textOf page.count)]

/-- Clicks the button of the counter some times. -/
def clickRepeatedly (page : Page) : Nat → Routine Unit
  | 0 => pure ()
  | n + 1 => do
    let _ ← Routine.dispatchEvent page.button "click" .unit
    announceCount page "clicked"
    clickRepeatedly page n

/-- Puts texts into the field and submits them, one after another. -/
def submitAll (page : Page) : List String → Routine Unit
  | [] => pure ()
  | item :: rest => do
    Routine.setProperty page.field "value" (.text item)
    let _ ← Routine.dispatchEvent page.submit "click" .unit
    let todos ← textOf page.todos
    let field ← Routine.property page.field "value"
    announce "submitted" [("todos", todos), ("input", field.display)]
    submitAll page rest

/-- Uses the counter. -/
def useCounter (page : Page) : Routine Value := do
  announceCount page "counter ready"
  clickRepeatedly page 3
  return .unit

/-- Uses the list of things to do. -/
def useTodoList (page : Page) : Routine Value := do
  submitAll page ["milk", "eggs", "bread"]
  let (signals : List SignalId) ← Routine.ask .liveSignals
  announce "demo finished" [("signals", toString signals.length)]
  return .unit

/-- The phases of the demonstration. -/
def phases (page : Page) : List Phase :=
  [{ purpose := some "starting the click counter", act := Routine.run counter },
   { act := page.useCounter },
   { purpose := some "starting the todo list", act := Routine.run todoList },
   { act := page.useTodoList }]

/-- The demonstration, with settings from an environment. -/
def demonstrate (lookup : String → Option String) : Option Report :=
  let (page, document) := Page.create
  let table := standard.install Elements.bundle
  let (settings, ignored) := Settings.ofEnvironment lookup
  let events := table.events ++ ignored.map .settingIgnored
  report? (table.session settings) page.phases
    { document, journal := (events.map Entry.event).toArray }

end Page

end Demo

end EffectGraph
