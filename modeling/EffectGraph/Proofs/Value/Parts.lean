import EffectGraph.Proofs.Value.Handles

/-!
# Parts of values

Lists have items and records have fields, and these are values again. What goes through a value is a
function on values and two more, on the items of a list and on the fields of a record. A statement about
it can be proved by `Value.induction_on_parts`, which speaks of all items and fields at once.

A handle is a part of a value if it occurs in it at some depth (`Value.Refers`). These are the handles
that are listed (`Value.mem_handles`), and whoever asks whether there is one looks for the same
(`Value.isReactive_iff`). Those that a list lacks are added to it once each, in the order in which they
occur first (`Value.exists_collectSignals_eq`).
-/

namespace EffectGraph

namespace Value

/-- What lists and records have if their items and fields have it, and all other values have anyway,
every value has. -/
@[elab_as_elim]
theorem induction_on_parts {P : Value → Prop} (unit : P .unit) (bool : ∀ b, P (.bool b))
    (number : ∀ x, P (.number x)) (text : ∀ s, P (.text s))
    (list : ∀ items, (∀ item ∈ items, P item) → P (.list items))
    (record : ∀ fields, (∀ field ∈ fields, P field.2) → P (.record fields))
    (element : ∀ id, P (.element id)) (source : ∀ id, P (.source id)) (signal : ∀ id, P (.signal id))
    (value : Value) : P value := by
  refine @Value.rec P (fun items => ∀ item ∈ items, P item) (fun fields => ∀ field ∈ fields, P field.2)
    (fun field => P field.2) unit bool number text list record element source signal ?_ ?_ ?_ ?_ ?_ value
  · exact fun _ hitem => absurd hitem List.not_mem_nil
  · exact fun item rest hitem hrest => List.forall_mem_cons.2 ⟨hitem, hrest⟩
  · exact fun _ hfield => absurd hfield List.not_mem_nil
  · exact fun field rest hfield hrest => List.forall_mem_cons.2 ⟨hfield, hrest⟩
  · exact fun _ _ hvalue => hvalue

/-! ## Handles as parts -/

/-- The handle occurs in the value, at some depth of lists and records. -/
inductive Refers (id : SignalId) : Value → Prop where
  /-- The value is the handle. -/
  | signal : Refers id (.signal id)
  /-- The handle occurs in an item. -/
  | item {items : List Value} {item : Value} (hitem : item ∈ items) (h : Refers id item) :
    Refers id (.list items)
  /-- The handle occurs in a field. -/
  | field {fields : List (String × Value)} {field : String × Value} (hfield : field ∈ fields)
    (h : Refers id field.2) : Refers id (.record fields)

variable {id : SignalId} {value : Value}

theorem handlesOfItems_eq (items : List Value) : handlesOfItems items = items.flatMap handles := by
  induction items with
  | nil => rfl
  | cons item rest ih => rw [handlesOfItems, ih, List.flatMap_cons]

theorem handlesOfFields_eq (fields : List (String × Value)) :
    handlesOfFields fields = fields.flatMap fun field => field.2.handles := by
  induction fields with
  | nil => rfl
  | cons field rest ih => rw [handlesOfFields, ih, List.flatMap_cons]

/-- The handles that are listed are those that occur. -/
theorem mem_handles : id ∈ value.handles ↔ value.Refers id := by
  constructor
  · intro h
    induction value using induction_on_parts with
    | list items ih =>
      rw [handles, handlesOfItems_eq, List.mem_flatMap] at h
      obtain ⟨item, hitem, h⟩ := h
      exact .item hitem (ih item hitem h)
    | record fields ih =>
      rw [handles, handlesOfFields_eq, List.mem_flatMap] at h
      obtain ⟨field, hfield, h⟩ := h
      exact .field hfield (ih field hfield h)
    | signal other =>
      obtain rfl := List.mem_singleton.1 h
      exact .signal
    | _ => cases h
  · intro h
    induction h with
    | signal => exact List.mem_singleton_self id
    | item hitem _ ih =>
      rw [handles, handlesOfItems_eq]
      exact List.mem_flatMap_of_mem hitem ih
    | field hfield _ ih =>
      rw [handles, handlesOfFields_eq]
      exact List.mem_flatMap_of_mem hfield ih

/-- A value is reactive if some handle occurs in it. -/
theorem isReactive_iff : value.isReactive = true ↔ ∃ id, value.Refers id := by
  rw [← Bool.not_eq_false, isReactive_eq_false_iff, List.eq_nil_iff_forall_not_mem, not_forall_not]
  exact exists_congr fun _ => mem_handles

/-! ## Collecting -/

/-- Collecting goes through the items of a list. -/
theorem collectSignals_list (items : List Value) (found : List SignalId) :
    (Value.list items).collectSignals found =
      items.foldl (fun found item => item.collectSignals found) found := by
  unfold collectSignals
  rw [handles, handlesOfItems_eq, List.foldl_flatMap]

/-- Collecting goes through the fields of a record. -/
theorem collectSignals_record (fields : List (String × Value)) (found : List SignalId) :
    (Value.record fields).collectSignals found =
      fields.foldl (fun found field => field.2.collectSignals found) found := by
  unfold collectSignals
  rw [handles, handlesOfFields_eq, List.foldl_flatMap]

/-- What a list of handles adds to another one: those that this one lacks, once each and in the order in
which they come first. -/
structure Adds (ids found added : List SignalId) : Prop where
  nodup : added.Nodup
  mem_iff : ∀ id, id ∈ added ↔ id ∈ ids ∧ id ∉ found
  ordered : added.Pairwise fun a b => ids.idxOf a < ids.idxOf b

variable {first : SignalId} {ids found added : List SignalId}

theorem Adds.skip (h : Adds ids found added) (hfirst : first ∈ found) :
    Adds (first :: ids) found added where
  nodup := h.nodup
  mem_iff k := by
    rw [h.mem_iff, List.mem_cons]
    constructor
    · exact fun ⟨hk, hnew⟩ => ⟨.inr hk, hnew⟩
    · rintro ⟨rfl | hk, hnew⟩
      · exact absurd hfirst hnew
      · exact ⟨hk, hnew⟩
  ordered := by
    have hne : ∀ k ∈ added, first ≠ k := fun k hk heq => ((h.mem_iff k).1 hk).2 (heq ▸ hfirst)
    refine h.ordered.imp_of_mem fun ha hb hlt => ?_
    rw [List.idxOf_cons_ne _ (hne _ ha), List.idxOf_cons_ne _ (hne _ hb)]
    exact Nat.succ_lt_succ hlt

theorem Adds.cons (h : Adds ids (found ++ [first]) added) (hfirst : first ∉ found) :
    Adds (first :: ids) found (first :: added) := by
  have hnew : ∀ k ∈ added, k ∉ found ∧ first ≠ k := by
    intro k hk
    have hlacks := ((h.mem_iff k).1 hk).2
    rw [List.mem_append, List.mem_singleton, not_or] at hlacks
    exact ⟨hlacks.1, Ne.symm hlacks.2⟩
  refine ⟨List.nodup_cons.2 ⟨fun hmem => (hnew first hmem).2 rfl, h.nodup⟩, fun k => ?_,
    List.pairwise_cons.2 ⟨fun k hk => ?_, h.ordered.imp_of_mem fun ha hb hlt => ?_⟩⟩
  · rw [List.mem_cons, List.mem_cons, h.mem_iff, List.mem_append, List.mem_singleton, not_or]
    by_cases heq : k = first
    · subst heq
      exact ⟨fun _ => ⟨.inl rfl, hfirst⟩, fun _ => .inl rfl⟩
    · simp [heq]
  · rw [List.idxOf_cons_self, List.idxOf_cons_ne _ (hnew k hk).2]
    exact Nat.succ_pos _
  · rw [List.idxOf_cons_ne _ (hnew _ ha).2, List.idxOf_cons_ne _ (hnew _ hb).2]
    exact Nat.succ_lt_succ hlt

theorem exists_foldl_addHandle_eq (ids found : List SignalId) :
    ∃ added, ids.foldl addHandle found = found ++ added ∧ Adds ids found added := by
  induction ids generalizing found with
  | nil => exact ⟨[], (List.append_nil _).symm, List.nodup_nil, by simp, .nil⟩
  | cons first rest ih =>
    rw [List.foldl_cons, addHandle]
    split
    · rename_i hfirst
      obtain ⟨added, heq, hadds⟩ := ih found
      exact ⟨added, heq, hadds.skip hfirst⟩
    · rename_i hfirst
      obtain ⟨added, heq, hadds⟩ := ih (found ++ [first])
      exact ⟨first :: added, heq.trans (List.append_assoc ..), hadds.cons hfirst⟩

/-- Collecting adds the handles that occur and were not found before, once each and in the order in which
they occur first. -/
theorem exists_collectSignals_eq (value : Value) (found : List SignalId) :
    ∃ added, value.collectSignals found = found ++ added ∧ Adds value.handles found added :=
  exists_foldl_addHandle_eq value.handles found

end Value

end EffectGraph
