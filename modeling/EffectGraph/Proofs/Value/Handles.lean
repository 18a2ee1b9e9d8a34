import EffectGraph.Value.Handles
import Mathlib.Tactic

/-!
# What a value depends on

The signals collected from a value are those whose handles occur in it, once each. Resolving a value
looks these up and nothing else: it depends on what they give (`resolveWith_congr`), and it succeeds
if each of them gives something (`exists_resolveWith_eq_ok`).
-/

namespace EffectGraph

namespace Value

/-! ## Collecting handles -/

theorem mem_foldl_addHandle {ids found : List SignalId} {id : SignalId} :
    id ∈ ids.foldl addHandle found ↔ id ∈ found ∨ id ∈ ids := by
  induction ids generalizing found with
  | nil => simp
  | cons first rest ih =>
    rw [List.foldl_cons, ih, List.mem_cons]
    unfold addHandle
    split
    · constructor
      · rintro (h | h)
        · exact .inl h
        · exact .inr (.inr h)
      · rintro (h | rfl | h)
        · exact .inl h
        · exact .inl ‹_›
        · exact .inr h
    · simp [or_assoc]

theorem nodup_foldl_addHandle {ids found : List SignalId} (h : found.Nodup) :
    (ids.foldl addHandle found).Nodup := by
  induction ids generalizing found with
  | nil => exact h
  | cons first rest ih =>
    refine ih ?_
    unfold addHandle
    split
    · exact h
    · refine List.nodup_append.2 ⟨h, List.nodup_singleton _, ?_⟩
      rintro a ha b hb rfl
      exact absurd (List.mem_singleton.1 hb ▸ ha) ‹_›

theorem mem_collectSignals {value : Value} {found : List SignalId} {id : SignalId} :
    id ∈ value.collectSignals found ↔ id ∈ found ∨ id ∈ value.handles :=
  mem_foldl_addHandle

theorem nodup_collectSignals (value : Value) {found : List SignalId} (h : found.Nodup) :
    (value.collectSignals found).Nodup :=
  nodup_foldl_addHandle h

private theorem mem_foldl_collectSignals {values : List Value} {found : List SignalId}
    {id : SignalId} : id ∈ values.foldl (fun found value => value.collectSignals found) found ↔
      id ∈ found ∨ ∃ value ∈ values, id ∈ value.handles := by
  induction values generalizing found with
  | nil => simp
  | cons value rest ih =>
    rw [List.foldl_cons, ih, mem_collectSignals]
    simp [or_assoc]

theorem mem_dependencies {values : List Value} {id : SignalId} :
    id ∈ dependencies values ↔ ∃ value ∈ values, id ∈ value.handles := by
  simp [dependencies, mem_foldl_collectSignals]

private theorem nodup_foldl_collectSignals {values : List Value} {found : List SignalId}
    (h : found.Nodup) :
    (values.foldl (fun found value => value.collectSignals found) found).Nodup := by
  induction values generalizing found with
  | nil => exact h
  | cons value rest ih => exact ih (nodup_collectSignals value h)

theorem nodup_dependencies (values : List Value) : (dependencies values).Nodup :=
  nodup_foldl_collectSignals List.nodup_nil

/-! ## Values without handles -/

mutual

/-- A value is reactive if a handle occurs in it. -/
theorem isReactive_eq_false_iff : ∀ {value : Value}, value.isReactive = false ↔ value.handles = []
  | .signal id => by simp [isReactive, handles]
  | .list items => by
    simp only [isReactive, handles]
    exact isReactiveItems_eq_false_iff
  | .record fields => by
    simp only [isReactive, handles]
    exact isReactiveFields_eq_false_iff
  | .unit | .bool _ | .number _ | .text _ | .element _ | .source _ => by
    simp [isReactive, handles]

theorem isReactiveItems_eq_false_iff : ∀ {items : List Value},
    isReactiveItems items = false ↔ handlesOfItems items = []
  | [] => by simp [isReactiveItems, handlesOfItems]
  | item :: rest => by
    simp only [isReactiveItems, handlesOfItems, Bool.or_eq_false_iff, List.append_eq_nil_iff,
      @isReactive_eq_false_iff item, @isReactiveItems_eq_false_iff rest]

theorem isReactiveFields_eq_false_iff : ∀ {fields : List (String × Value)},
    isReactiveFields fields = false ↔ handlesOfFields fields = []
  | [] => by simp [isReactiveFields, handlesOfFields]
  | (key, value) :: rest => by
    simp only [isReactiveFields, handlesOfFields, Bool.or_eq_false_iff, List.append_eq_nil_iff,
      @isReactive_eq_false_iff value, @isReactiveFields_eq_false_iff rest]

end

/-- A list is plain if its items are. -/
theorem not_isReactive_list {items : List Value} :
    (Value.list items).isReactive = false ↔ ∀ item ∈ items, item.isReactive = false := by
  rw [isReactive]
  induction items with
  | nil => simp [isReactiveItems]
  | cons item rest ih => rw [isReactiveItems, Bool.or_eq_false_iff, ih, List.forall_mem_cons]

/-- Values depend on no signal if no handle occurs in them. -/
theorem dependencies_eq_nil {values : List Value} :
    dependencies values = [] ↔ ∀ value ∈ values, value.isReactive = false := by
  simp only [List.eq_nil_iff_forall_not_mem, mem_dependencies, isReactive_eq_false_iff]
  exact ⟨fun h value hvalue id hid => h id ⟨value, hvalue, hid⟩,
    fun h id ⟨value, hvalue, hid⟩ => h value hvalue id hid⟩

/-! ## Resolving -/

section

variable {ε : Type} {lookup lookup' : SignalId → Except ε Value}

mutual

/-- A resolved value depends on the lookup through the handles of the value only. -/
theorem resolveWith_congr : ∀ value : Value,
    (∀ id ∈ value.handles, lookup id = lookup' id) →
      value.resolveWith lookup = value.resolveWith lookup'
  | .signal id, h => by
    simp only [resolveWith]
    exact h id (by simp [handles])
  | .list items, h => by
    simp only [resolveWith]
    rw [resolveItems_congr items (by simpa [handles] using h)]
  | .record fields, h => by
    simp only [resolveWith]
    rw [resolveFields_congr fields (by simpa [handles] using h)]
  | .unit, _ | .bool _, _ | .number _, _ | .text _, _ | .element _, _ | .source _, _ => by
    simp only [resolveWith]

theorem resolveItems_congr : ∀ items : List Value,
    (∀ id ∈ handlesOfItems items, lookup id = lookup' id) →
      resolveItems lookup items = resolveItems lookup' items
  | [], _ => rfl
  | item :: rest, h => by
    simp only [handlesOfItems, List.mem_append] at h
    simp only [resolveItems]
    rw [resolveWith_congr item fun id hid => h id (.inl hid),
      resolveItems_congr rest fun id hid => h id (.inr hid)]

theorem resolveFields_congr : ∀ fields : List (String × Value),
    (∀ id ∈ handlesOfFields fields, lookup id = lookup' id) →
      resolveFields lookup fields = resolveFields lookup' fields
  | [], _ => rfl
  | (key, value) :: rest, h => by
    simp only [handlesOfFields, List.mem_append] at h
    simp only [resolveFields]
    rw [resolveWith_congr value fun id hid => h id (.inl hid),
      resolveFields_congr rest fun id hid => h id (.inr hid)]

end

mutual

/-- A value is resolved if every handle in it is found. -/
theorem exists_resolveWith_eq_ok : ∀ {value : Value},
    (∀ id ∈ value.handles, ∃ found, lookup id = .ok found) →
      ∃ resolved, value.resolveWith lookup = .ok resolved
  | .signal id, h => h id (by simp [handles])
  | .list items, h => by
    obtain ⟨resolved, hresolved⟩ := exists_resolveItems_eq_ok (by simpa [handles] using h)
    exact ⟨.list resolved, by simp only [resolveWith, hresolved, Except.map]⟩
  | .record fields, h => by
    obtain ⟨resolved, hresolved⟩ := exists_resolveFields_eq_ok (by simpa [handles] using h)
    exact ⟨.record resolved, by simp only [resolveWith, hresolved, Except.map]⟩
  | .unit, _ | .bool _, _ | .number _, _ | .text _, _ | .element _, _ | .source _, _ =>
    ⟨_, rfl⟩

theorem exists_resolveItems_eq_ok : ∀ {items : List Value},
    (∀ id ∈ handlesOfItems items, ∃ found, lookup id = .ok found) →
      ∃ resolved, resolveItems lookup items = .ok resolved
  | [], _ => ⟨[], rfl⟩
  | item :: rest, h => by
    simp only [handlesOfItems, List.mem_append] at h
    obtain ⟨first, hfirst⟩ := exists_resolveWith_eq_ok fun id hid => h id (.inl hid)
    obtain ⟨others, hothers⟩ := exists_resolveItems_eq_ok fun id hid => h id (.inr hid)
    exact ⟨first :: others, by simp only [resolveItems, hfirst, hothers, Except.map]⟩

theorem exists_resolveFields_eq_ok : ∀ {fields : List (String × Value)},
    (∀ id ∈ handlesOfFields fields, ∃ found, lookup id = .ok found) →
      ∃ resolved, resolveFields lookup fields = .ok resolved
  | [], _ => ⟨[], rfl⟩
  | (key, value) :: rest, h => by
    simp only [handlesOfFields, List.mem_append] at h
    obtain ⟨first, hfirst⟩ := exists_resolveWith_eq_ok fun id hid => h id (.inl hid)
    obtain ⟨others, hothers⟩ := exists_resolveFields_eq_ok fun id hid => h id (.inr hid)
    exact ⟨(key, first) :: others, by simp only [resolveFields, hfirst, hothers, Except.map]⟩

end

mutual

/-- A value without handles is resolved to itself. -/
theorem resolveWith_of_not_isReactive : ∀ {value : Value}, value.isReactive = false →
    value.resolveWith lookup = .ok value
  | .signal id, h => by simp [isReactive] at h
  | .list items, h => by
    have hitems := resolveItems_of_not_isReactive (by simpa [isReactive] using h)
    simp only [resolveWith, hitems, Except.map]
  | .record fields, h => by
    have hfields := resolveFields_of_not_isReactive (by simpa [isReactive] using h)
    simp only [resolveWith, hfields, Except.map]
  | .unit, _ | .bool _, _ | .number _, _ | .text _, _ | .element _, _ | .source _, _ => by
    simp only [resolveWith]

theorem resolveItems_of_not_isReactive : ∀ {items : List Value}, isReactiveItems items = false →
    resolveItems lookup items = .ok items
  | [], _ => rfl
  | item :: rest, h => by
    simp only [isReactiveItems, Bool.or_eq_false_iff] at h
    have hitem := resolveWith_of_not_isReactive h.1
    have hrest := resolveItems_of_not_isReactive h.2
    simp only [resolveItems, hitem, hrest, Except.map]

theorem resolveFields_of_not_isReactive : ∀ {fields : List (String × Value)},
    isReactiveFields fields = false → resolveFields lookup fields = .ok fields
  | [], _ => rfl
  | (key, value) :: rest, h => by
    simp only [isReactiveFields, Bool.or_eq_false_iff] at h
    have hvalue := resolveWith_of_not_isReactive h.1
    have hrest := resolveFields_of_not_isReactive h.2
    simp only [resolveFields, hvalue, hrest, Except.map]

end

/-- A list is resolved item by item. -/
theorem exists_items_of_resolveWith {items : List Value} {resolved : Value}
    (h : (Value.list items).resolveWith lookup = .ok resolved) : ∃ items',
      List.Forall₂ (fun item item' => item.resolveWith lookup = .ok item') items items' ∧
        resolved = .list items' := by
  simp only [resolveWith] at h
  cases hitems : resolveItems lookup items with
  | error e => simp [hitems, Except.map] at h
  | ok items' =>
    simp only [hitems, Except.map, Except.ok.injEq] at h
    refine ⟨items', ?_, h.symm⟩
    clear h
    induction items generalizing items' with
    | nil =>
      obtain rfl := Except.ok.inj hitems
      exact .nil
    | cons item rest ih =>
      simp only [resolveItems] at hitems
      cases hitem : item.resolveWith lookup with
      | error e => simp [hitem] at hitems
      | ok first =>
        cases hrest : resolveItems lookup rest with
        | error e => simp [hitem, hrest, Except.map] at hitems
        | ok others =>
          simp only [hitem, hrest, Except.map, Except.ok.injEq] at hitems
          subst hitems
          exact .cons hitem (ih others hrest)

/-- The handles in what was found, if anything was. -/
def handlesIn : Except ε Value → List SignalId
  | .ok found => found.handles
  | .error _ => []

mutual

/-- The handles in a resolved value are those in what its own handles are replaced by. -/
theorem handles_resolveWith : ∀ {value resolved : Value}, value.resolveWith lookup = .ok resolved →
    resolved.handles = value.handles.flatMap fun id => handlesIn (lookup id)
  | .signal id, resolved, h => by
    simp only [resolveWith] at h
    simp [handles, handlesIn, h]
  | .list items, resolved, h => by
    simp only [resolveWith] at h
    cases hitems : resolveItems lookup items with
    | error e => simp [hitems, Except.map] at h
    | ok others =>
      simp only [hitems, Except.map, Except.ok.injEq] at h
      subst h
      exact handles_resolveItems hitems
  | .record fields, resolved, h => by
    simp only [resolveWith] at h
    cases hfields : resolveFields lookup fields with
    | error e => simp [hfields, Except.map] at h
    | ok others =>
      simp only [hfields, Except.map, Except.ok.injEq] at h
      subst h
      exact handles_resolveFields hfields
  | .unit, _, h | .bool _, _, h | .number _, _, h | .text _, _, h | .element _, _, h
  | .source _, _, h => by
    obtain rfl := Except.ok.inj h
    rfl

theorem handles_resolveItems : ∀ {items resolved : List Value},
    resolveItems lookup items = .ok resolved →
      handlesOfItems resolved = (handlesOfItems items).flatMap fun id => handlesIn (lookup id)
  | [], _, h => by
    obtain rfl := Except.ok.inj h
    rfl
  | item :: rest, resolved, h => by
    simp only [resolveItems] at h
    cases hitem : item.resolveWith lookup with
    | error e => simp [hitem] at h
    | ok first =>
      cases hrest : resolveItems lookup rest with
      | error e => simp [hitem, hrest, Except.map] at h
      | ok others =>
        simp only [hitem, hrest, Except.map, Except.ok.injEq] at h
        subst h
        simp only [handlesOfItems, List.flatMap_append]
        rw [handles_resolveWith hitem, handles_resolveItems hrest]

theorem handles_resolveFields : ∀ {fields resolved : List (String × Value)},
    resolveFields lookup fields = .ok resolved →
      handlesOfFields resolved = (handlesOfFields fields).flatMap fun id => handlesIn (lookup id)
  | [], _, h => by
    obtain rfl := Except.ok.inj h
    rfl
  | (key, value) :: rest, resolved, h => by
    simp only [resolveFields] at h
    cases hvalue : value.resolveWith lookup with
    | error e => simp [hvalue] at h
    | ok first =>
      cases hrest : resolveFields lookup rest with
      | error e => simp [hvalue, hrest, Except.map] at h
      | ok others =>
        simp only [hvalue, hrest, Except.map, Except.ok.injEq] at h
        subst h
        simp only [handlesOfFields, List.flatMap_append]
        rw [handles_resolveWith hvalue, handles_resolveFields hrest]

end

/-- A resolved value is plain exactly if everything that was put into it is. -/
theorem not_isReactive_resolveWith_iff {value resolved : Value}
    (h : value.resolveWith lookup = .ok resolved) : resolved.isReactive = false ↔
      ∀ id ∈ value.handles, ∀ found, lookup id = .ok found → found.isReactive = false := by
  rw [isReactive_eq_false_iff, handles_resolveWith h, List.flatMap_eq_nil_iff]
  refine forall₂_congr fun id _ => ?_
  cases hfound : lookup id with
  | error e => simp [handlesIn]
  | ok found => simp [handlesIn, isReactive_eq_false_iff]

/-- What is resolved to values without handles has none. -/
theorem not_isReactive_resolveWith {value resolved : Value}
    (hplain : ∀ id ∈ value.handles, ∀ found, lookup id = .ok found → found.isReactive = false)
    (h : value.resolveWith lookup = .ok resolved) : resolved.isReactive = false :=
  (not_isReactive_resolveWith_iff h).2 hplain

end

end Value

end EffectGraph
