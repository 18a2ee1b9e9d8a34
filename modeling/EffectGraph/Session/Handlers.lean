import EffectGraph.Session.World

/-!
# Handler tables

The handlers of a session are put together from bundles. Installing a bundle sets the handler of
each of its tags; a tag that had a handler is reported, and so is every installation.
-/

namespace EffectGraph

/-- Handlers that are installed together. -/
structure Bundle where
  /-- The name under which the installation is reported. -/
  name : String
  /-- The handlers with their tags, in the order in which they are set. -/
  handlers : List (Tag × Handler)

/-- A table of handlers in the making. -/
structure HandlerTable where
  /-- The handlers by tag, ascending. -/
  handlers : List (Tag × Handler) := []
  /-- What was reported so far. -/
  events : List Event := []

namespace HandlerTable

/-- A table without handlers. -/
def empty : HandlerTable := {}

/-- Sets the handler of a tag. -/
def insert (table : HandlerTable) (tag : Tag) (handler : Handler) : HandlerTable where
  handlers := Keyed.insert tag handler table.handlers
  events :=
    if (Keyed.get? tag table.handlers).isSome then table.events ++ [.handlerReplaced tag]
    else table.events

/-- Sets the handlers of a bundle. -/
def install (table : HandlerTable) (bundle : Bundle) : HandlerTable :=
  let installed := bundle.handlers.foldl (fun t h => t.insert h.1 h.2) table
  let added := installed.handlers.length - table.handlers.length
  { installed with events := installed.events ++ [.bundleInstalled bundle.name added] }

/-- The session with the handlers of the table. -/
def session (table : HandlerTable) (settings : Settings) : Session :=
  { handlers := table.handlers, settings }

/-- The description of a list of tags. -/
def describedTags (tags : List Tag) : String :=
  Text.described "Dispatcher"
    [("tags", Text.bracketed (tags.map fun tag => "Tag(" ++ Text.quoted tag ++ ")"))]

end HandlerTable

end EffectGraph
