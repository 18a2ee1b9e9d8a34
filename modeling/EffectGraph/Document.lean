import EffectGraph.Failure

/-!
# Documents

A document is what the host shows: elements that programs find by their id, and whose properties
they read and write. Elements are never removed; of elements with the same id the latest is found.
-/

namespace EffectGraph

/-- An element of a document. -/
structure Element where
  /-- The kind of element. -/
  tagName : String
  /-- The id by which it is found. -/
  domId : String
  /-- Its properties, ascending by name. -/
  properties : List (String × Value) := []

/-- The elements of a host. -/
structure Document where
  /-- The elements in the order of their creation. -/
  elements : Array Element := #[]

namespace Document

/-- A document without elements. -/
def empty : Document := {}

/-- Adds an element. -/
def create (document : Document) (tagName domId : String) : ElementId × Document :=
  (⟨document.elements.size⟩, ⟨document.elements.push { tagName, domId }⟩)

/-- The latest element with an id. -/
def find? (document : Document) (domId : String) : Option ElementId :=
  ((List.range document.elements.size).reverse.find? fun i =>
    document.elements[i]?.any (·.domId = domId)).map ElementId.mk

/-- An element. -/
def get (document : Document) (id : ElementId) : Except Failure Element :=
  match document.elements[id.index]? with
  | some element => .ok element
  | none => .error (.host s!"no {id.text} in document")

/-- A property of an element; a property that was never written is unit. -/
def property (document : Document) (id : ElementId) (name : String) : Except Failure Value :=
  (document.get id).map fun element => (Keyed.get? name element.properties).getD .unit

/-- Writes a property of an element. -/
def setProperty (document : Document) (id : ElementId) (name : String) (value : Value) :
    Except Failure Document :=
  (document.get id).map fun element =>
    ⟨document.elements.setIfInBounds id.index
      { element with properties := Keyed.insert name value element.properties }⟩

/-- The text that an element shows. -/
def textContent (document : Document) (id : ElementId) : Except Failure String :=
  (document.property id "textContent").map fun
    | .unit => ""
    | value => value.display

end Document

end EffectGraph
