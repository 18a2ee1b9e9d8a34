import EffectGraph.Proofs.Document
import EffectGraph.Proofs.Graph.Chains
import EffectGraph.Proofs.Session.Dispatching
import EffectGraph.Proofs.Session.Outcomes

/-!
# What the instructions of the catalog give

In a session that offers the catalog a program is evaluated by dispatching its instructions. For the
instructions that look at the document, create sources, cells and derived nodes or follow a signal
there is a lemma each that says what value the program gives that performs it, and what it does to the
session.
-/

namespace EffectGraph

open Exec World

/-! ## Tables -/

namespace HandlerTable

/-- Installing bundles sets their handlers one after another. -/
theorem handlers_foldl_install (bundles : List Bundle) (table : HandlerTable) :
    (bundles.foldl install table).handlers =
      (bundles.flatMap (·.handlers)).foldl (fun sorted entry => Keyed.insert entry.1 entry.2 sorted)
        table.handlers := by
  have hinstall (bundle : Bundle) (table : HandlerTable) : (table.install bundle).handlers =
      bundle.handlers.foldl (fun sorted entry => Keyed.insert entry.1 entry.2 sorted)
        table.handlers :=
    (List.foldl_hom HandlerTable.handlers fun _ _ => rfl).symm
  rw [List.foldl_flatMap]
  exact (List.foldl_hom HandlerTable.handlers fun table bundle => (hinstall bundle table).symm).symm

end HandlerTable

namespace Session

/-- Each instruction of the catalog has its handler. -/
def OffersCatalog (session : Session) : Prop :=
  ∀ entry ∈ Catalog.handlers .default, Keyed.get? entry.1 session.handlers = some entry.2

end Session

namespace Catalog

/-- The table of the standard catalog and the elements offers all of it. -/
theorem offersCatalog_standard (settings : Settings) :
    ((standard.install Elements.bundle).session settings).OffersCatalog := by
  have htable : (standard.install Elements.bundle).handlers = Keyed.ofList (handlers .default) :=
    HandlerTable.handlers_foldl_install (bundles .default) .empty
  intro entry hentry
  have hfound : Keyed.get? entry.1 (Keyed.ofList (handlers .default)) = some entry.2 :=
    Keyed.get?_ofList (handlers_nodup .default) hentry
  rwa [← htable] at hfound

end Catalog

/-! ## Dispatching -/

namespace Session

variable {session : Session} {hooks : Hooks} {w w₁ w' : World} {value : Value}

/-- What the handler of an instruction gives is its result, if the shape is right. -/
theorem ends_dispatch {i : Instruction} {handler : Handler}
    (hhandler : Keyed.get? i.tag session.handlers = some handler)
    (h : ((handler i).exec session hooks).Ends w (.ok value) w')
    (hshape : i.result.admits value.shape ∨
      ∃ found, currentShape w' value = .ok found ∧ i.result.admits found) :
    (dispatch session hooks i).Ends w (.ok value) w' := by
  have hcheck : (checkShape i value).Ends w' (.ok value) w' := by
    unfold checkShape
    split
    · exact ends_pure _ _
    · rename_i hother
      obtain ⟨found, hfound, hadmits⟩ := hshape.resolve_left hother
      refine ends_get_bind fun journal past => ?_
      have hcurrent : currentShape { w' with journal, past } value = currentShape w' value := by
        cases value <;> rfl
      rw [hcurrent, hfound]
      dsimp only
      rw [if_pos hadmits]
      exact ends_pure _ _
  unfold dispatch
  rw [hhandler]
  refine h.bind ?_
  dsimp only
  split
  · exact hcheck
  · exact ends_pure _ _

/-- Evaluated while its only input has some value, a node of the kind gets a value. -/
def Recomputes (session : Session) (hooks : Hooks) (kind : NodeKind) (input : SignalId)
    (v value : Value) (w w' : World) : Prop :=
  ∃ inputs, (∀ graph : Graph, graph.value input = .ok v → graph.inputsOf kind = .ok inputs) ∧
    (computation session hooks kind inputs).Ends w (.ok value) w'

section

variable {front nodes back : List Node} {n i j : Nat} {node input : Node} {rest : List SignalId}
  {failures : List Failure} (hlength : front.length = n)

include hlength

theorem isWatch_within {watches : Bool} (hgraph : w.graph = .ofNodes (front ++ nodes ++ back))
    (hnode : nodes[i]? = some node) (hkind : node.kind.isWatch = watches) :
    isWatch w.graph ⟨n + i⟩ = watches := by
  unfold isWatch
  rw [hgraph, Graph.node?_within hlength back hnode]
  exact hkind

/-- A node in a stretch of nodes is evaluated on its input, and the evaluation goes on with its value
stored. -/
theorem ends_evaluateAll_within (hgraph : w.graph = .ofNodes (front ++ nodes ++ back))
    (hnode : nodes[i]? = some node) (hinput : nodes[j]? = some input)
    (hcell : node.kind.isCell = false)
    (h : Recomputes session hooks node.kind ⟨n + j⟩ input.value value w w₁)
    (hgraph₁ : w₁.graph = w.graph)
    (hrest : (evaluateAll session hooks rest).Ends
      { w₁ with graph := .ofNodes (front ++ nodes.modify i (Graph.settledNode value) ++ back) }
      failures w') :
    (evaluateAll session hooks (⟨n + i⟩ :: rest)).Ends w failures w' := by
  obtain ⟨inputs, hinputs, hcompute⟩ := h
  have hstands : w.graph.node? ⟨n + i⟩ = some node := by
    rw [hgraph]
    exact Graph.node?_within hlength back hnode
  have hvalue : w.graph.value ⟨n + j⟩ = .ok input.value := by
    rw [hgraph]
    exact Graph.value_within hlength back hinput
  have hstore : w₁.graph.settle ⟨n + i⟩ value =
      .ok (.ofNodes (front ++ nodes.modify i (Graph.settledNode value) ++ back)) := by
    rw [hgraph₁, hgraph]
    exact Graph.settle_within hlength back hnode value
  exact ends_evaluateAll_cons (Graph.contains_iff.2 ⟨node, hstands⟩)
    (ends_evaluate hstands hcell (hinputs w.graph hvalue) hcompute hstore) hrest

end

end Session

namespace Catalog

open Session Program

variable {session : Session} {hooks : Hooks} {w w₁ w' : World} {value : Value}

/-- How a binary instruction of a bundle is computed. -/
theorem isComputedBy_concat : Signature.IsComputedBy ⟨"text.concat", ["a", "b"], .text⟩
    (binaryHandler "a" "b" fun tag inputs => (Texts.computeConcat tag inputs).mapError .ofFailure)
    (fun inputs => .done ((Texts.computeConcat "text.concat" inputs).mapError .ofFailure))
    (fun inputs => (Texts.computeConcat "text.concat" inputs).mapError .ofFailure) :=
  isComputedBy_binaryHandler rfl (by decide) fun _ => (covers_concat _ _).mapError _

theorem isComputedBy_append : Signature.IsComputedBy ⟨"list.append", ["list", "item"], .list⟩
    (binaryHandler "list" "item" fun tag inputs => (Lists.computeAppend tag inputs).mapError .ofFailure)
    (fun inputs => .done ((Lists.computeAppend "list.append" inputs).mapError .ofFailure))
    (fun inputs => (Lists.computeAppend "list.append" inputs).mapError .ofFailure) :=
  isComputedBy_binaryHandler rfl (by decide) fun _ => (covers_append _ _).mapError _

theorem isComputedBy_join : Signature.IsComputedBy ⟨"list.join", ["list", "separator"], .text⟩
    (binaryHandler "list" "separator" fun tag inputs =>
      (Lists.computeJoin tag inputs).mapError .ofFailure)
    (fun inputs => .done ((Lists.computeJoin "list.join" inputs).mapError .ofFailure))
    (fun inputs => (Lists.computeJoin "list.join" inputs).mapError .ofFailure) :=
  isComputedBy_binaryHandler rfl (by decide) fun _ => (covers_join _ _).mapError _

/-- The computation of a pure instruction gives its result. -/
theorem ends_of_computes {compute : List Value → Script} {f : List Value → Except Interrupt Value}
    {inputs : List Value} (h : session.Computes compute f) (hresult : f inputs = .ok value) :
    ((compute inputs).exec session hooks).Ends w (.ok value) w := by
  rintro v hv
  obtain ⟨journal, hrun⟩ := h inputs hooks v
  refine ⟨_, hrun.trans (by rw [hresult]), hv.trans ⟨journal, v.past, rfl⟩⟩

/-- What a watch does with a property that follows a signal. -/
def Elements.writing (target : ElementId) (prop : String) (value : Value) : Script :=
  Routine.script do
    Routine.setProperty target prop value
    return .unit

/-- Writing a property changes the document. -/
theorem ends_writing {target : ElementId} {prop : String} {document : Document}
    (hwrite : w.document.setProperty target prop value = .ok document) :
    ((Elements.writing target prop value).exec session hooks).Ends w (.ok .unit)
      { w with document } := by
  refine ends_ask (.setProperty target prop value) (.ok ()) (fun journal past => ?_) (ends_pure _ _)
  dsimp only [answer, World.setProperty]
  rw [hwrite]
  exact ⟨rfl, _, _, rfl⟩

/-- The program of a pure reducer gives its value. -/
theorem ends_runPure (value : Value) (w : World) :
    ((Events.runPure (.pure value)).script.exec session hooks).Ends w (.ok value) w :=
  (ends_runProgram rfl rfl (gives_pure value w)).bind (ends_pure _ _)

variable (hoffers : session.OffersCatalog)

include hoffers

/-- A handler of one of the bundles is found under its tag. -/
private theorem handler_of_bundle {bundle : Bundle} (hbundle : bundle ∈ bundles .default) (k : Nat)
    {entry : Tag × Handler} (hentry : bundle.handlers[k]? = some entry) :
    Keyed.get? entry.1 session.handlers = some entry.2 :=
  hoffers entry (bundle_subset_handlers hbundle (List.mem_of_getElem? hentry))

private theorem elements_handler (k : Nat) {entry : Tag × Handler}
    (hentry : Elements.bundle.handlers[k]? = some entry) :
    Keyed.get? entry.1 session.handlers = some entry.2 :=
  handler_of_bundle hoffers (by simp [bundles]) k hentry

private theorem events_handler (k : Nat) {entry : Tag × Handler}
    (hentry : Events.bundle.handlers[k]? = some entry) :
    Keyed.get? entry.1 session.handlers = some entry.2 :=
  handler_of_bundle hoffers (by simp [bundles]) k hentry

/-! ### The document -/

theorem gives_element {domId : String} {id : ElementId} (hfound : w.document.find? domId = some id) :
    Gives (dispatch session hooks) (Elements.element (.value (.text domId))) w (.element id) w := by
  refine Gives.requireOutcome (gives_perform rfl ?_)
  refine ends_dispatch (elements_handler hoffers 0 rfl) ?_ (.inl rfl)
  exact ends_ask (.elementById domId) (some id) (fun _ _ => ⟨hfound, _, _, rfl⟩) (ends_pure _ _)

theorem gives_getProperty {prop : String} {target : ElementId}
    (hvalue : w.document.property target prop = .ok value) :
    Gives (dispatch session hooks) (Elements.getProperty (.value (.text prop))
      (.value (.element target))) w value w := by
  refine gives_perform rfl (ends_dispatch (elements_handler hoffers 1 rfl) ?_ (.inl rfl))
  exact ends_ask (.property target prop) (.ok value) (fun _ _ => ⟨hvalue, _, _, rfl⟩) (ends_pure _ _)

/-! ### Sources and cells -/

theorem gives_on {event : String} {target : ElementId} :
    Gives (dispatch session hooks) (Events.on (.value (.text event)) (.value (.element target))) w
      (.source (w.hub.on target event).1) { w with hub := (w.hub.on target event).2 } := by
  refine gives_perform rfl (ends_dispatch (events_handler hoffers 0 rfl) ?_ (.inl rfl))
  exact ends_ask (.on target event) (w.hub.on target event).1 (fun _ _ => ⟨rfl, _, _, rfl⟩)
    (ends_pure _ _)

section

variable {nodes : List Node} {n : Nat} {source : SourceId} {initial : Value} {found : Source}
  {hub : Hub} (hlength : nodes.length = n) (hgraph : w.graph = .ofNodes nodes)
  (hplain : initial.isReactive = false)
  (hfound : w.hub.get source = .ok found)

omit hoffers in
include hlength hgraph hfound in
/-- A new cell stands at the end. -/
private theorem ends_attach_last {subscriber : SignalId → Subscriber} {event : SignalId → Event}
    (hsubscribe : w.hub.subscribe source (subscriber ⟨n⟩) = .ok hub) :
    (attach source initial subscriber event).Ends w (.ok ⟨n⟩)
      { w with graph := .ofNodes (nodes ++ [Graph.cellNode initial]), hub } := by
  have hcell : w.graph.insertCell initial =
      (⟨n⟩, .ofNodes (nodes ++ [Graph.cellNode initial])) := by
    rw [hgraph, Graph.insertCell_ofNodes, hlength]
  have hattach : (attach source initial subscriber event).Ends w
      (.ok (w.graph.insertCell initial).1) { w with graph := (w.graph.insertCell initial).2, hub } :=
    ends_attach hfound (by rwa [hcell])
  rwa [hcell] at hattach

include hlength hgraph hplain hfound

theorem gives_fold {reducer : Value → Value → Value}
    (hsubscribe : w.hub.subscribe source (.fold ⟨n⟩ fun current payload =>
      (Events.runPure (.pure (reducer current payload))).script) = .ok hub) :
    Gives (dispatch session hooks) (Events.fold (.value (.source source)) (.value initial) reducer) w
      (.signal ⟨n⟩)
      { w with graph := .ofNodes (nodes ++ [Graph.cellNode initial]), hub } := by
  refine gives_perform rfl (ends_dispatch (events_handler hoffers 2 rfl) ?_ (.inl rfl))
  refine ends_ask (.read initial) (.ok initial)
    (fun _ _ => ⟨Value.resolveWith_of_not_isReactive hplain, _, _, rfl⟩) ?_
  exact (ends_attach_last hlength hgraph hfound hsubscribe).bind (ends_pure _ _)

theorem gives_constantOn
    (hsubscribe : w.hub.subscribe source (.fold ⟨n⟩ fun _ _ => .done (.ok initial)) =
      .ok hub) :
    Gives (dispatch session hooks) (Events.constantOn (.value (.source source)) (.value initial)) w
      (.signal ⟨n⟩)
      { w with graph := .ofNodes (nodes ++ [Graph.cellNode initial]), hub } := by
  refine gives_perform rfl (ends_dispatch (events_handler hoffers 4 rfl) ?_ (.inl rfl))
  refine ends_ask (.read initial) (.ok initial)
    (fun _ _ => ⟨Value.resolveWith_of_not_isReactive hplain, _, _, rfl⟩) ?_
  exact (ends_attach_last hlength hgraph hfound hsubscribe).bind (ends_pure _ _)

/-- The first value goes through a program that does nothing with it. -/
theorem gives_foldM (hsettings : session.settings = {}) {reducer : Value → Value → Program}
    (hsubscribe : w.hub.subscribe source (.foldProgram ⟨n⟩ reducer) = .ok hub) :
    Gives (dispatch session hooks) (Events.foldM (.value (.source source)) (.value initial) reducer) w
      (.signal ⟨n⟩)
      { w with graph := .ofNodes (nodes ++ [Graph.cellNode initial]), hub } := by
  have hread : w.graph.resolve initial = .ok initial := Value.resolveWith_of_not_isReactive hplain
  have hrun : (runProgram session.settings hooks.dispatch (.pure initial)).Ends w (.ok initial) w :=
    ends_runProgram (by rw [hsettings]) (by rw [hsettings]) (gives_pure initial w)
  have hname : (w.hub.get source).map (·.name) = .ok found.name := by
    rw [hfound]
    rfl
  refine gives_perform rfl (ends_dispatch (events_handler hoffers 3 rfl) ?_ (.inl rfl))
  refine ends_ask (.read initial) (.ok initial) (fun _ _ => ⟨hread, _, _, rfl⟩) ?_
  refine ends_ask (.sourceName source) (.ok found.name) (fun _ _ => ⟨hname, _, _, rfl⟩) ?_
  refine ends_react hrun hread (Graph.createdSince_mark w.graph) ?_
  exact (ends_attach_last hlength hgraph hfound hsubscribe).bind (ends_pure _ _)

end

/-! ### Nodes with one input -/

/-- Shows the value of a signal. -/
def Show.follower (n : Nat) : NodeKind :=
  .derived [.signal ⟨n⟩] fun inputs => (Show.compute .default inputs).script

/-- Puts a text in front of the value of a signal. -/
def Texts.follower (front : String) (n : Nat) : NodeKind :=
  .derived [.text front, .signal ⟨n⟩] fun inputs =>
    .done ((Texts.computeConcat "text.concat" inputs).mapError .ofFailure)

/-- Joins the items of a signal. -/
def Lists.follower (n : Nat) (separator : String) : NodeKind :=
  .derived [.signal ⟨n⟩, .text separator] fun inputs =>
    .done ((Lists.computeJoin "list.join" inputs).mapError .ofFailure)

/-- Writes the value of a signal into a property. -/
def Elements.follower (target : ElementId) (prop : String) (n : Nat) : NodeKind :=
  .watch (.signal ⟨n⟩) (Elements.writing target prop)

section

omit hoffers

variable {n : Nat}

theorem recomputes_show (v : Value) : Recomputes session hooks (Show.follower n) ⟨n⟩ v
    (.text (Formatters.default.format v).1) w w := by
  refine ⟨[v], fun graph hvalue => ?_, ?_⟩
  · simp only [Show.follower, Graph.inputsOf, List.mapM_cons, Graph.resolve, Value.resolveWith, hvalue]
    rfl
  · exact ends_of_computes ((isComputedBy_show .default).computes session) rfl

theorem recomputes_concat (front text : String) :
    Recomputes session hooks (Texts.follower front n) ⟨n⟩ (.text text) (.text (front ++ text)) w w := by
  refine ⟨[.text front, .text text], fun graph hvalue => ?_, ends_pure _ _⟩
  simp only [Texts.follower, Graph.inputsOf, List.mapM_cons, Graph.resolve, Value.resolveWith, hvalue]
  rfl

theorem recomputes_join (items : List Value) (separator : String) :
    Recomputes session hooks (Lists.follower n separator) ⟨n⟩ (.list items)
      (.text (separator.intercalate (items.map Value.display))) w w := by
  refine ⟨[.list items, .text separator], fun graph hvalue => ?_, ends_pure _ _⟩
  simp only [Lists.follower, Graph.inputsOf, List.mapM_cons, Graph.resolve, Value.resolveWith, hvalue]
  rfl

theorem recomputes_writing {target : ElementId} {prop : String} {v : Value} {document : Document}
    (hwrite : w.document.setProperty target prop v = .ok document) :
    Recomputes session hooks (Elements.follower target prop n) ⟨n⟩ v .unit w { w with document } := by
  have hwrote : ((Elements.writing target prop v).exec session hooks).Ends w (.ok .unit)
      { w with document } := ends_writing hwrite
  refine ⟨[v], fun graph hvalue => ?_, hwrote.bind (ends_pure _ _)⟩
  exact congrArg (Except.map fun value => [value]) hvalue

end

/-! ### Nodes below the last one -/

section

variable {front : List Node} {n : Nat} {last : Node} (hlength : front.length = n)
  (hgraph : w.graph = .ofNodes (front ++ [last]))

omit hoffers

include hlength hgraph

/-- An instruction whose only signal is the last node derives a node below it. -/
theorem ends_dispatch_below {s : Signature} {handler : Handler} {compute : List Value → Script}
    {f : List Value → Except Interrupt Value} {values : List Value}
    (hhandler : Keyed.get? s.tag session.handlers = some handler)
    (h : s.IsComputedBy handler compute f) (hvalues : values.length = s.names.length)
    (hdependencies : Value.dependencies values = [⟨n⟩]) (hshape : s.result.admits value.shape)
    (hrecomputes : ∀ w, Recomputes session hooks (.derived values compute) ⟨n⟩ last.value value w w) :
    (dispatch session hooks (s.instruction values)).Ends w (.ok (.signal ⟨n + 1⟩))
      { w with graph := .ofNodes (Graph.belowLastWith front last n (.derived values compute) value) } := by
  have hreactive : Value.dependencies values ≠ [] := by
    rw [hdependencies]
    exact List.cons_ne_nil _ _
  have hinsert : w.graph.insert (.derived values compute) (Value.dependencies values) =
      .ok (⟨n + 1⟩, .ofNodes (Graph.belowLast front last n (.derived values compute))) := by
    rw [hgraph, hdependencies]
    exact Graph.insert_below_last hlength last _
  have hstore := Graph.settle_below_last hlength last (.derived values compute) value
  obtain ⟨inputs, hinputs, hcompute⟩ := hrecomputes
    { w with graph := .ofNodes (Graph.belowLast front last n (.derived values compute)) }
  have hderive : (Exec.derive values (.derived values compute) fun inputs =>
      (compute inputs).exec session hooks).Ends w (.ok (.signal ⟨n + 1⟩)) _ :=
    ends_derive hreactive hinsert (hinputs _ (Graph.value_below_last hlength last _)) hcompute hstore
  refine ends_dispatch hhandler ?_ (.inr ⟨value.shape, ?_, hshape⟩)
  · rw [h.derives values hvalues]
    exact hderive.bind (ends_pure _ _)
  · exact congrArg (Except.map Value.shape) (Graph.value_of_settle hstore)

variable (hoffers : session.OffersCatalog)

include hoffers

theorem gives_show : Gives (dispatch session hooks) (Show.«show» (.value (.signal ⟨n⟩))) w
    (.signal ⟨n + 1⟩)
    { w with
      graph := .ofNodes (Graph.belowLastWith front last n (Show.follower n)
        (.text (Formatters.default.format last.value).1)) } := by
  have hbundle : Show.bundle .default ∈ bundles .default := by simp [bundles]
  exact gives_perform rfl (ends_dispatch_below hlength hgraph (handler_of_bundle hoffers hbundle 0 rfl)
    (isComputedBy_show .default) rfl rfl rfl fun _ => recomputes_show last.value)

theorem gives_concat (text : String) {shown : String} (hlast : last.value = .text shown) :
    Gives (dispatch session hooks) (Texts.concat (.value (.text text)) (.value (.signal ⟨n⟩))) w
      (.signal ⟨n + 1⟩)
      { w with
        graph := .ofNodes (Graph.belowLastWith front last n (Texts.follower text n)
          (.text (text ++ shown))) } := by
  have hbundle : Texts.bundle ∈ bundles .default := by simp [bundles]
  have hrecomputes (w : World) : Recomputes session hooks (Texts.follower text n) ⟨n⟩ last.value
      (.text (text ++ shown)) w w := by
    rw [hlast]
    exact recomputes_concat text shown
  exact gives_perform rfl (ends_dispatch_below hlength hgraph (handler_of_bundle hoffers hbundle 0 rfl)
    isComputedBy_concat rfl rfl rfl hrecomputes)

theorem gives_join (separator : String) {items : List Value} (hlast : last.value = .list items) :
    Gives (dispatch session hooks) (Lists.join (.value (.signal ⟨n⟩)) (.value (.text separator))) w
      (.signal ⟨n + 1⟩)
      { w with
        graph := .ofNodes (Graph.belowLastWith front last n (Lists.follower n separator)
          (.text (separator.intercalate (items.map Value.display)))) } := by
  have hbundle : Lists.bundle ∈ bundles .default := by simp [bundles]
  have hrecomputes (w : World) : Recomputes session hooks (Lists.follower n separator) ⟨n⟩ last.value
      (.text (separator.intercalate (items.map Value.display))) w w := by
    rw [hlast]
    exact recomputes_join items separator
  exact gives_perform rfl (ends_dispatch_below hlength hgraph (handler_of_bundle hoffers hbundle 1 rfl)
    isComputedBy_join rfl rfl rfl hrecomputes)

/-- A property that is written with the last node follows it from a watch below it. -/
theorem gives_setProperty {prop : String} {target : ElementId} {document : Document}
    (hwrite : w.document.setProperty target prop last.value = .ok document) :
    Gives (dispatch session hooks) (Elements.setProperty (.value (.text prop))
      (.value (.signal ⟨n⟩)) (.value (.element target))) w .unit
      { w with
        graph := .ofNodes (Graph.belowLastWith front last n (Elements.follower target prop n) .unit)
        document } := by
  let kind : NodeKind := Elements.follower target prop n
  have hinsert : w.graph.insert kind [⟨n⟩] =
      .ok (⟨n + 1⟩, .ofNodes (Graph.belowLast front last n kind)) := by
    rw [hgraph]
    exact Graph.insert_below_last hlength last kind
  have hinputs : (Graph.ofNodes (Graph.belowLast front last n kind)).inputsOf kind =
      .ok [last.value] :=
    congrArg (Except.map fun value => [value]) (Graph.value_below_last hlength last kind)
  have hwrote : ((Elements.writing target prop last.value).exec session hooks).Ends
      { w with graph := .ofNodes (Graph.belowLast front last n kind) } (.ok .unit)
      { w with graph := .ofNodes (Graph.belowLast front last n kind), document } := ends_writing hwrite
  have hwatch : (Exec.watch (.signal ⟨n⟩) kind fun value =>
      (Elements.writing target prop value).exec session hooks).Ends w
      (.ok (some ⟨n + 1⟩)) _ :=
    ends_watch rfl hinsert hinputs hwrote (Graph.settle_below_last hlength last kind .unit)
  refine gives_perform rfl (ends_dispatch (elements_handler hoffers 2 rfl) ?_ (.inl rfl))
  exact hwatch.bind (ends_pure _ _)

end

/-! ### Lists without signals -/

/-- A list without signals is extended at once. -/
theorem gives_append {items : List Value} {item : Value}
    (hplain : ∀ value ∈ [.list items, item], value.isReactive = false) :
    Gives (dispatch session hooks) (Lists.append (.value (.list items)) (.value item)) w
      (.list (items ++ [item])) w := by
  have hbundle : Lists.bundle ∈ bundles .default := by simp [bundles]
  have hgives : session.Gives
      (Signature.instruction ⟨"list.append", ["list", "item"], .list⟩ [.list items, item])
      (.ok (.list (items ++ [item]))) :=
    dispatch_plain (handler_of_bundle hoffers hbundle 0 rfl) isComputedBy_append rfl
      (Value.dependencies_eq_nil.2 hplain)
  refine gives_perform rfl fun v hv => ?_
  obtain ⟨journal, hrun⟩ := hgives hooks v
  exact ⟨_, hrun, hv.trans ⟨journal, v.past, rfl⟩⟩

end Catalog

end EffectGraph
