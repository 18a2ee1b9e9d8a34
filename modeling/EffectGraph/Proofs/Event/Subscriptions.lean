import EffectGraph.Event.Hub
import EffectGraph.Proofs.Graph.Walk

/-!
# Subscriptions

Who is subscribed to any source, and how each operation of a hub changes that.
-/

namespace EffectGraph

namespace Hub

variable {hub hub' : Hub}

/-- The subscriber is subscribed to some source. -/
def Subscribed (hub : Hub) (subscriber : Subscriber) : Prop :=
  ∃ source ∈ hub.sources, subscriber ∈ source.subscribers

theorem not_subscribed_empty (subscriber : Subscriber) : ¬ empty.Subscribed subscriber := by
  simp [Subscribed, empty]

theorem get_eq_ok {id : SourceId} {source : Source} :
    hub.get id = .ok source ↔ hub.sources[id.index]? = some source := by
  unfold Hub.get
  cases hub.sources[id.index]? <;> simp

theorem get_eq_error {id : SourceId} (h : hub.sources.size ≤ id.index) :
    hub.get id = .error (.unknownSource id) := by
  unfold Hub.get
  rw [Array.getElem?_eq_none h]

/-- A new source has no subscribers. -/
theorem subscribed_create {name : String} {subscriber : Subscriber} :
    (hub.create name).2.Subscribed subscriber ↔ hub.Subscribed subscriber := by
  simp [Subscribed, create, or_and_right, exists_or]

theorem subscribed_bind {element : ElementId} {event : String} {id : SourceId}
    {subscriber : Subscriber} :
    (hub.bind element event id).Subscribed subscriber ↔ hub.Subscribed subscriber := Iff.rfl

/-- The source with one more subscriber. -/
def addSubscriber (subscriber : Subscriber) (source : Source) : Source :=
  { source with subscribers := source.subscribers ++ [subscriber] }

theorem subscribe_eq_ok {id : SourceId} {subscriber : Subscriber} :
    hub.subscribe id subscriber = .ok hub' ↔ ∃ source, hub.get id = .ok source ∧ hub' =
      { hub with
        sources := hub.sources.setIfInBounds id.index (addSubscriber subscriber source) } := by
  unfold subscribe
  cases hub.get id with
  | error failure => simp [Except.map]
  | ok source => simp [Except.map, addSubscriber, eq_comm]

/-- The subscriber that was added is the only new one. -/
theorem subscribed_subscribe {id : SourceId} {added subscriber : Subscriber}
    (h : hub.subscribe id added = .ok hub') (hs : hub'.Subscribed subscriber) :
    hub.Subscribed subscriber ∨ subscriber = added := by
  obtain ⟨source, hsource, rfl⟩ := subscribe_eq_ok.1 h
  obtain ⟨other, hother, hmem⟩ := hs
  rcases Array.mem_or_eq_of_mem_setIfInBounds hother with hold | rfl
  · exact .inl ⟨other, hold, hmem⟩
  · rcases List.mem_append.1 hmem with hmem | hmem
    · exact .inl ⟨source, Array.mem_of_getElem? (get_eq_ok.1 hsource), hmem⟩
    · exact .inr (List.mem_singleton.1 hmem)

/-- Merging creates a source and lets both given sources forward to it. -/
theorem merge_eq_ok {left right merged : SourceId} (h : hub.merge left right = .ok (merged, hub')) :
    ∃ name between, merged = (hub.create name).1 ∧
      (hub.create name).2.subscribe left (.forward merged) = .ok between ∧
      between.subscribe right (.forward merged) = .ok hub' := by
  simp only [merge, Bind.bind, Except.bind] at h
  cases hleft : hub.get left with
  | error failure => simp [hleft] at h
  | ok leftSource =>
    cases hright : hub.get right with
    | error failure => simp [hleft, hright] at h
    | ok rightSource =>
      simp only [hleft, hright] at h
      split at h
      · simp at h
      · rename_i between hbetween
        split at h
        · simp at h
        · rename_i hub'' hafter
          obtain ⟨rfl, rfl⟩ := Prod.mk.inj (Except.ok.inj h)
          exact ⟨_, between, rfl, hbetween, hafter⟩

/-- The source after an occurrence that reached the places `visited`. -/
def countOccurrence (visited : List Nat) (k : Nat) (source : Source) : Source :=
  if k ∈ visited then { source with occurrences := source.occurrences + 1 } else source

@[simp] theorem subscribers_countOccurrence (visited : List Nat) (k : Nat) (source : Source) :
    (countOccurrence visited k source).subscribers = source.subscribers := by
  unfold countOccurrence
  split
  · rfl
  · rfl

theorem deliver_eq_ok {id : SourceId} {subscribers : List Subscriber} :
    hub.deliver id = .ok (subscribers, hub') ↔
      (∃ source, hub.get id = .ok source) ∧ subscribers = (hub.reached id).2 ∧
        hub' = { hub with
          sources := hub.sources.mapIdx (countOccurrence (hub.reached id).1) } := by
  unfold deliver
  cases hub.get id with
  | error failure => simp [Except.map]
  | ok source =>
    simp only [Except.map, Except.ok.injEq, Prod.mk.injEq, exists_eq', true_and]
    exact and_congr eq_comm eq_comm

/-- Delivering lists whom the occurrence reaches. -/
theorem subscribers_deliver {id : SourceId} {subscribers : List Subscriber}
    (h : hub.deliver id = .ok (subscribers, hub')) : subscribers = (hub.reached id).2 :=
  (deliver_eq_ok.1 h).2.1

/-- Counting occurrences changes no subscription. -/
theorem subscribed_deliver {id : SourceId} {subscribers : List Subscriber}
    {subscriber : Subscriber} (h : hub.deliver id = .ok (subscribers, hub'))
    (hs : hub'.Subscribed subscriber) : hub.Subscribed subscriber := by
  obtain ⟨-, -, rfl⟩ := deliver_eq_ok.1 h
  obtain ⟨other, hother, hmem⟩ := hs
  obtain ⟨k, hk, rfl⟩ := Array.mem_mapIdx.1 hother
  rw [subscribers_countOccurrence] at hmem
  exact ⟨hub.sources[k], Array.getElem_mem hk, hmem⟩

/-- Who is found at a source is subscribed. -/
theorem subscribed_of_mem_items {k : Nat} {subscriber : Subscriber}
    (h : subscriber ∈ hub.roads.items k) : hub.Subscribed subscriber := by
  simp only [roads] at h
  split at h
  · rename_i source hsource
    exact ⟨source, Array.mem_of_getElem? hsource, h⟩
  · exact absurd h List.not_mem_nil

/-- An occurrence goes to subscribers only. -/
theorem subscribed_of_reached {id : SourceId} {subscriber : Subscriber}
    (hs : subscriber ∈ (hub.reached id).2) (hplace : subscriber.place? = none) :
    hub.Subscribed subscriber := by
  rcases Reach.mem_walk_found (List.mem_reverse.1 hs) with hfound | hwork | ⟨k, hitem⟩
  · exact absurd hfound List.not_mem_nil
  · rw [List.mem_singleton.1 hwork] at hplace
    cases hplace
  · exact subscribed_of_mem_items hitem

theorem subscribed_of_mem_reached {id : SourceId} {subscriber : Subscriber} {target : SignalId}
    (hs : subscriber ∈ (hub.reached id).2) (ht : subscriber.target? = some target) :
    hub.Subscribed subscriber := by
  refine subscribed_of_reached hs ?_
  cases subscriber with
  | fold | foldProgram => rfl
  | listener | forward => cases ht

/-- After detaching, nobody writes a removed cell. -/
theorem subscribed_detach {removed : List SignalId} {subscriber : Subscriber}
    (hs : (hub.detach removed).Subscribed subscriber) :
    hub.Subscribed subscriber ∧ ∀ target, subscriber.target? = some target → target ∉ removed := by
  obtain ⟨other, hother, hmem⟩ := hs
  obtain ⟨source, hsource, rfl⟩ := Array.mem_map.1 hother
  obtain ⟨hmem, hkept⟩ := List.mem_filter.1 hmem
  refine ⟨⟨source, hsource, hmem⟩, fun target htarget => ?_⟩
  simpa [htarget] using hkept

/-! ## Sources are never taken away -/

theorem index_lt_of_get {id : SourceId} {source : Source} (h : hub.get id = .ok source) :
    id.index < hub.sources.size := by
  have hsource := get_eq_ok.1 h
  by_contra hge
  rw [Array.getElem?_eq_none (by omega)] at hsource
  cases hsource

theorem size_subscribe {id : SourceId} {subscriber : Subscriber}
    (h : hub.subscribe id subscriber = .ok hub') : hub'.sources.size = hub.sources.size := by
  obtain ⟨source, -, rfl⟩ := subscribe_eq_ok.1 h
  simp

theorem size_le_merge {left right merged : SourceId} (h : hub.merge left right = .ok (merged, hub')) :
    hub.sources.size ≤ hub'.sources.size := by
  obtain ⟨name, between, -, hleft, hright⟩ := merge_eq_ok h
  rw [size_subscribe hright, size_subscribe hleft]
  simp [create]

theorem size_deliver {id : SourceId} {subscribers : List Subscriber}
    (h : hub.deliver id = .ok (subscribers, hub')) : hub'.sources.size = hub.sources.size := by
  obtain ⟨-, -, rfl⟩ := deliver_eq_ok.1 h
  exact Array.size_mapIdx

/-- An occurrence of a source that exists can be delivered. -/
theorem exists_deliver {source : SourceId} (h : source.index < hub.sources.size) :
    ∃ subscribers hub', hub.deliver source = .ok (subscribers, hub') := by
  have hget : hub.get source = .ok hub.sources[source.index] :=
    get_eq_ok.2 (Array.getElem?_eq_getElem h)
  exact ⟨_, _, deliver_eq_ok.2 ⟨⟨_, hget⟩, rfl, rfl⟩⟩

end Hub

end EffectGraph
