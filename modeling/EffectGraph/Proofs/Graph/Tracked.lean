import EffectGraph.Proofs.Graph.Resolving
import EffectGraph.Proofs.Value.Parts

/-!
# Tracking what a value depends on

A derived node and a watch are recomputed when one of the signals changes that were collected from their
operands, and they are evaluated on what these operands are resolved to. The two fit together: nothing
but what is collected is looked up (`Graph.tracks_all_handles`). So a node never depends on a signal that
it does not hear of.
-/

namespace EffectGraph

namespace Value

variable {ε : Type} {lookup : SignalId → Except ε Value} {id : SignalId}

theorem exists_item_of_resolveItems {items resolved : List Value}
    (h : resolveItems lookup items = .ok resolved) {item : Value} (hitem : item ∈ items) :
    ∃ value, item.resolveWith lookup = .ok value := by
  induction items generalizing resolved with
  | nil => exact absurd hitem List.not_mem_nil
  | cons first rest ih =>
    simp only [resolveItems] at h
    cases hfirst : first.resolveWith lookup with
    | error e => simp [hfirst] at h
    | ok value =>
      cases hrest : resolveItems lookup rest with
      | error e => simp [hfirst, hrest, Except.map] at h
      | ok others =>
        rcases List.mem_cons.1 hitem with rfl | hmem
        · exact ⟨value, hfirst⟩
        · exact ih hrest hmem

theorem exists_field_of_resolveFields {fields resolved : List (String × Value)}
    (h : resolveFields lookup fields = .ok resolved) {field : String × Value} (hfield : field ∈ fields) :
    ∃ value, field.2.resolveWith lookup = .ok value := by
  induction fields generalizing resolved with
  | nil => exact absurd hfield List.not_mem_nil
  | cons first rest ih =>
    simp only [resolveFields] at h
    cases hfirst : first.2.resolveWith lookup with
    | error e => simp [hfirst] at h
    | ok value =>
      cases hrest : resolveFields lookup rest with
      | error e => simp [hfirst, hrest, Except.map] at h
      | ok others =>
        rcases List.mem_cons.1 hfield with rfl | hmem
        · exact ⟨value, hfirst⟩
        · exact ih hrest hmem

/-- If a value is resolved, every handle in it was found. -/
theorem Refers.exists_of_resolveWith {value resolved : Value} (h : value.Refers id)
    (hresolve : value.resolveWith lookup = .ok resolved) : ∃ found, lookup id = .ok found := by
  induction h generalizing resolved with
  | signal => exact ⟨resolved, hresolve⟩
  | @item items item hitem _ ih =>
    simp only [resolveWith] at hresolve
    cases hitems : resolveItems lookup items with
    | error e => simp [hitems, Except.map] at hresolve
    | ok others =>
      obtain ⟨value, hvalue⟩ := exists_item_of_resolveItems hitems hitem
      exact ih hvalue
  | @field fields field hfield _ ih =>
    simp only [resolveWith] at hresolve
    cases hfields : resolveFields lookup fields with
    | error e => simp [hfields, Except.map] at hresolve
    | ok others =>
      obtain ⟨value, hvalue⟩ := exists_field_of_resolveFields hfields hfield
      exact ih hvalue

/-- The signals that some values depend on are those that are collected from the list of them. -/
theorem dependencies_eq_collectSignals (values : List Value) :
    dependencies values = (Value.list values).collectSignals [] :=
  (collectSignals_list values []).symm

end Value

namespace Graph

variable {graph : Graph} {value : Value} {id : SignalId}

theorem contains_iff_value : graph.contains id = true ↔ ∃ stored, graph.value id = .ok stored := by
  rw [contains_iff]
  constructor
  · rintro ⟨node, hnode⟩
    exact ⟨node.value, value_of_node? hnode⟩
  · rintro ⟨stored, hstored⟩
    cases hnode : graph.node? id with
    | none => cases hstored.symm.trans (value_of_node?_eq_none hnode)
    | some node => exact ⟨node, rfl⟩

/-- A value is resolved exactly if all signals exist that it refers to. -/
theorem resolve_succeeds_iff :
    (∃ resolved, graph.resolve value = .ok resolved) ↔ ∀ id, value.Refers id → graph.contains id := by
  constructor
  · rintro ⟨resolved, hresolve⟩ id h
    exact contains_iff_value.2 (h.exists_of_resolveWith hresolve)
  · exact fun h => exists_resolve_eq_ok fun id hid => h id (Value.mem_handles.1 hid)

/-- **Dependency tracking is complete.** A value is reactive exactly if a handle is collected from it.
Collecting adds to any list exactly the handles that occur in the value, at any depth, and that the list
lacks: once each, in the order in which they occur first. Resolving the value succeeds exactly if every
collected signal exists, gives the value itself if there is none, and gives the same in every graph
in which the collected signals have the same values. The operands of a derived node are tracked as one
list. -/
theorem tracks_all_handles (value : Value) (graph : Graph) :
    (value.isReactive = true ↔ value.collectSignals [] ≠ []) ∧
    (∀ found, ∃ added, value.collectSignals found = found ++ added ∧ added.Nodup ∧
      (∀ id, id ∈ added ↔ value.Refers id ∧ id ∉ found) ∧
      added.Pairwise fun a b => value.handles.idxOf a < value.handles.idxOf b) ∧
    ((∃ resolved, graph.resolve value = .ok resolved) ↔
      ∀ id ∈ value.collectSignals [], graph.contains id = true) ∧
    (value.collectSignals [] = [] → graph.resolve value = .ok value) ∧
    (∀ graph' : Graph, (∀ id ∈ value.collectSignals [], graph'.value id = graph.value id) →
      graph'.resolve value = graph.resolve value) ∧
    ∀ operands, Value.dependencies operands = (Value.list operands).collectSignals [] := by
  have hcollected (id : SignalId) : id ∈ value.collectSignals [] ↔ value.Refers id := by
    simp [Value.mem_collectSignals, Value.mem_handles]
  have hreactive : value.isReactive = true ↔ value.collectSignals [] ≠ [] := by
    rw [Value.isReactive_iff, Ne, List.eq_nil_iff_forall_not_mem, not_forall_not]
    exact exists_congr fun id => (hcollected id).symm
  refine ⟨hreactive, fun found => ?_, ?_, fun hnone => ?_, fun graph' hsame => ?_,
    Value.dependencies_eq_collectSignals⟩
  · obtain ⟨added, heq, hadds⟩ := value.exists_collectSignals_eq found
    refine ⟨added, heq, hadds.nodup, fun id => ?_, hadds.ordered⟩
    rw [hadds.mem_iff, Value.mem_handles]
  · rw [resolve_succeeds_iff]
    exact forall_congr' fun id => by rw [hcollected]
  · have hplain : value.isReactive = false := Bool.not_eq_true _ ▸ fun h => hreactive.1 h hnone
    exact Value.resolveWith_of_not_isReactive hplain
  · exact resolve_congr fun id hid => hsame id ((hcollected id).2 (Value.mem_handles.1 hid))

/-- Two handles, one of which occurs twice. -/
private def nested : Value :=
  .list [.signal ⟨1⟩, .record [("x", .signal ⟨0⟩), ("y", .signal ⟨1⟩)]]

private def twoCells : Graph := ((empty.insertCell (.bool true)).2.insertCell (.text "a")).2

private def threeCells : Graph := (twoCells.insertCell .unit).2

theorem tracks_all_handles_nested : nested.collectSignals [] = [⟨1⟩, ⟨0⟩] ∧
    nested.collectSignals [⟨2⟩, ⟨1⟩] = [⟨2⟩, ⟨1⟩, ⟨0⟩] ∧
    (∃ resolved, twoCells.resolve nested = .ok resolved) ∧
    threeCells.resolve nested = twoCells.resolve nested ∧
    ¬ ∃ resolved, (empty : Graph).resolve nested = .ok resolved := by
  have hcollected : nested.collectSignals [] = [⟨1⟩, ⟨0⟩] := rfl
  obtain ⟨-, -, hsucceeds, -, hsame, -⟩ := tracks_all_handles nested twoCells
  obtain ⟨-, -, hfails, -⟩ := tracks_all_handles nested empty
  rw [hcollected] at hsucceeds hsame hfails
  refine ⟨hcollected, rfl, hsucceeds.2 ?_, hsame threeCells ?_, fun h => ?_⟩
  · simpa using ⟨rfl, rfl⟩
  · simpa using ⟨rfl, rfl⟩
  · exact absurd (hfails.1 h ⟨1⟩ List.mem_cons_self) (by decide)

end Graph

end EffectGraph
