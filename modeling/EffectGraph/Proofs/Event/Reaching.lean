import EffectGraph.Proofs.Event.Subscriptions

/-!
# Which sources an occurrence reaches

An occurrence of a source reaches all sources that can be reached along forwards, each once. Merging
adds forwards to a new source only, so which sources reach a given one never changes once it exists
(`Hub.Extends.reaches_iff`).
-/

namespace EffectGraph

namespace Hub

variable {hub hub' : Hub}

/-! ## Subscribers of each source -/

theorem roads_items (hub : Hub) (k : Nat) : hub.roads.items k =
    match hub.sources[k]? with
    | some source => source.subscribers
    | none => [] := rfl

theorem index_lt_of_mem_items {k : Nat} {subscriber : Subscriber}
    (h : subscriber ∈ hub.roads.items k) : k < hub.sources.size := by
  rw [roads_items] at h
  by_contra hge
  rw [Array.getElem?_eq_none (by omega)] at h
  exact absurd h List.not_mem_nil

theorem items_create (hub : Hub) (name : String) (k : Nat) :
    (hub.create name).2.roads.items k = hub.roads.items k := by
  rw [roads_items, roads_items]
  by_cases hk : k = hub.sources.size
  · subst hk
    simp [create]
  · simp [create, Array.getElem?_push, hk]

theorem items_subscribe {id : SourceId} {subscriber : Subscriber}
    (h : hub.subscribe id subscriber = .ok hub') (k : Nat) :
    hub'.roads.items k = hub.roads.items k ++ if k = id.index then [subscriber] else [] := by
  obtain ⟨source, hsource, rfl⟩ := subscribe_eq_ok.1 h
  have hfound := get_eq_ok.1 hsource
  have hlt := index_lt_of_get hsource
  rw [roads_items, roads_items]
  by_cases hk : k = id.index
  · subst hk
    rw [Array.getElem?_setIfInBounds_self_of_lt hlt, hfound, if_pos rfl]
    rfl
  · have hne : id.index ≠ k := Ne.symm hk
    simp [Array.getElem?_setIfInBounds_ne hne, hk]

theorem items_merge {left right merged : SourceId} (h : hub.merge left right = .ok (merged, hub'))
    (k : Nat) : hub'.roads.items k = hub.roads.items k ++
      ((if k = left.index then [.forward merged] else []) ++
        if k = right.index then [.forward merged] else []) := by
  obtain ⟨name, between, -, hleft, hright⟩ := merge_eq_ok h
  rw [items_subscribe hright, items_subscribe hleft, items_create, List.append_assoc]

theorem items_detach (hub : Hub) (removed : List SignalId) (k : Nat) :
    (hub.detach removed).roads.items k =
      (hub.roads.items k).filter fun s => s.target?.all (· ∉ removed) := by
  rw [roads_items, roads_items]
  simp only [detach, Array.getElem?_map]
  cases hub.sources[k]? with
  | none => rfl
  | some source => rfl

/-- How often an occurrence reached the source. -/
def occurrencesOf (hub : Hub) (id : SourceId) : Nat :=
  match hub.sources[id.index]? with
  | some source => source.occurrences
  | none => 0

theorem get_occurrences {id : SourceId} (h : id.index < hub.sources.size) :
    (hub.get id).map (·.occurrences) = .ok (hub.occurrencesOf id) := by
  rw [get_eq_ok.2 (Array.getElem?_eq_getElem h), occurrencesOf, Array.getElem?_eq_getElem h]
  rfl

/-- Delivering counts an occurrence of every source that is reached, and changes nothing else. -/
theorem deliver_spec {id : SourceId} {subscribers : List Subscriber}
    (h : hub.deliver id = .ok (subscribers, hub')) :
    subscribers = (hub.reached id).2 ∧ (∀ k, hub'.roads.items k = hub.roads.items k) ∧
      ∀ other : SourceId, other.index < hub.sources.size → hub'.occurrencesOf other =
        hub.occurrencesOf other + if other.index ∈ (hub.reached id).1 then 1 else 0 := by
  obtain ⟨-, rfl, rfl⟩ := deliver_eq_ok.1 h
  refine ⟨rfl, fun k => ?_, fun other hother => ?_⟩
  · rw [roads_items, roads_items]
    simp only [Array.getElem?_mapIdx]
    cases hub.sources[k]? with
    | none => rfl
    | some source => exact subscribers_countOccurrence _ k source
  · simp only [occurrencesOf, Array.getElem?_mapIdx, Array.getElem?_eq_getElem hother,
      Option.map_some, countOccurrence]
    split
    · rfl
    · rfl

/-- A source that forwards to no other goes to its own subscribers. -/
theorem deliver_direct {id : SourceId} {source : Source} (hfound : hub.get id = .ok source)
    (hdirect : ∀ s ∈ source.subscribers, s.place? = none) :
    hub.deliver id = .ok (source.subscribers,
      { hub with sources := hub.sources.mapIdx fun k source =>
          if k = id.index then { source with occurrences := source.occurrences + 1 } else source }) := by
  have hitems : hub.roads.items id.index = source.subscribers := by
    rw [roads_items, get_eq_ok.1 hfound]
  have hreached : hub.reached id = ([id.index], source.subscribers) := by
    unfold reached
    rw [Reach.walk]
    have hplace : hub.roads.place? (.forward id) = some id.index := rfl
    have hlt : id.index < hub.roads.bound := index_lt_of_get hfound
    simp only [hplace, List.not_mem_nil, not_false_eq_true, hlt, and_self, dite_true, hitems,
      List.append_nil]
    rw [Reach.walk_direct hdirect]
    simp
  unfold deliver
  rw [hfound, hreached]
  simp only [Except.map, List.mem_singleton]

/-! ## Reaching -/

/-- The first source forwards to the second one. -/
def Forwards (hub : Hub) (a b : SourceId) : Prop := .forward b ∈ hub.roads.items a.index

/-- The second source exists, and an occurrence of the first one gets there along forwards. -/
def Reaches (hub : Hub) (a b : SourceId) : Prop :=
  b.index < hub.sources.size ∧ Relation.ReflTransGen hub.Forwards a b

theorem Reaches.index_lt {a b : SourceId} (h : hub.Reaches a b) : a.index < hub.sources.size := by
  rcases Relation.ReflTransGen.cases_head h.2 with rfl | ⟨c, hforward, -⟩
  · exact h.1
  · exact index_lt_of_mem_items hforward

/-- An occurrence reaches exactly what can be reached along forwards. -/
theorem mem_reached {a b : SourceId} : b.index ∈ (hub.reached a).1 ↔ hub.Reaches a b := by
  constructor
  · intro hmem
    rcases Reach.mem_walk hmem with hvisited | ⟨item, hitem, j, ⟨hplace, hlt⟩, hleads⟩
    · exact absurd hvisited List.not_mem_nil
    · rw [List.mem_singleton.1 hitem] at hplace
      obtain rfl : a.index = j := Option.some.inj hplace
      have hpath : ∀ k, Relation.ReflTransGen hub.roads.Leads a.index k →
          k < hub.sources.size ∧ Relation.ReflTransGen hub.Forwards a ⟨k⟩ := by
        intro k hk
        induction hk with
        | refl => exact ⟨hlt, .refl⟩
        | @tail j k _ hstep ih =>
          obtain ⟨item, hitem, hplace, hbound⟩ := hstep
          refine ⟨hbound, ih.2.tail ?_⟩
          cases item with
          | forward source =>
            obtain rfl : source.index = k := Option.some.inj hplace
            exact hitem
          | fold | foldProgram | listener => cases hplace
      exact hpath b.index hleads
  · rintro ⟨hlt, hpath⟩
    have henters {c d : SourceId} (hd : d.index < hub.sources.size) (h : hub.Forwards c d) :
        hub.roads.Leads c.index d.index := ⟨_, h, rfl, hd⟩
    -- All sources on the way exist, and the walk goes on from each to the next.
    have hall : ∀ c, Relation.ReflTransGen hub.Forwards c b → c.index < hub.sources.size ∧
        (c.index ∈ (hub.reached a).1 → b.index ∈ (hub.reached a).1) := by
      intro c hc
      induction hc using Relation.ReflTransGen.head_induction_on with
      | refl => exact ⟨hlt, id⟩
      | head hstep _ ih =>
        refine ⟨index_lt_of_mem_items hstep, fun hmem => ih.2 ?_⟩
        exact Reach.walk_closed (fun k hk => absurd hk List.not_mem_nil) hmem (henters ih.1 hstep)
    have hstart : hub.roads.Enters (.forward a) a.index := ⟨rfl, (hall a hpath).1⟩
    exact (hall a hpath).2 (Reach.mem_walk_of_enters List.mem_cons_self hstart)

instance (hub : Hub) (a b : SourceId) : Decidable (hub.Reaches a b) :=
  decidable_of_iff _ mem_reached

private theorem flatMap_single {α : Type} (a : α) (j : Nat) {l : List Nat} (h : l.Nodup) :
    l.flatMap (fun k => if k = j then [a] else []) = if j ∈ l then [a] else [] := by
  induction l with
  | nil => simp
  | cons k rest ih =>
    rw [List.nodup_cons] at h
    rw [List.flatMap_cons, ih h.2]
    by_cases hk : k = j
    · subst hk
      simp [h.1]
    · have hj : ¬ j = k := fun heq => hk heq.symm
      simp [hk, hj]

/-- Of subscribers that are found once and at one source, an occurrence finds one if it reaches that
source. -/
theorem reached_filter {source : SourceId} {subscriber : Subscriber} (keep : Subscriber → Bool)
    (hkeep : ∀ s, keep s → s.place? = none)
    (honce : ∀ k, (hub.roads.items k).filter keep = if k = source.index then [subscriber] else [])
    (a : SourceId) :
    (hub.reached a).2.filter keep = if hub.Reaches a source then [subscriber] else [] := by
  have hwork : ¬ keep (.forward a) = true := fun hkept => by cases hkeep _ hkept
  obtain ⟨entered, hentered, hnodup, -⟩ := Reach.walk_entered hub.roads [.forward a] [] []
  have hcollects := Reach.walk_collects keep hkeep hentered
  rw [List.filter_cons_of_neg hwork, List.filter_nil, List.append_nil, List.append_nil] at hcollects
  have hvisited : (hub.reached a).1 = entered := hentered.trans (List.append_nil _)
  simp only [honce, flatMap_single subscriber source.index hnodup] at hcollects
  have hperm : ((hub.reached a).2.filter keep).Perm
      (if source.index ∈ entered then [subscriber] else []) := by
    refine List.Perm.trans ?_ hcollects
    rw [Hub.reached, List.filter_reverse]
    exact List.reverse_perm _
  rw [← hvisited] at hperm
  by_cases hreaches : hub.Reaches a source
  · rw [if_pos hreaches]
    rw [if_pos (mem_reached.2 hreaches)] at hperm
    exact List.perm_singleton.1 hperm
  · rw [if_neg hreaches]
    rw [if_neg (fun hmem => hreaches (mem_reached.1 hmem))] at hperm
    exact List.perm_nil.1 hperm

/-! ## What changes when sources and subscribers are added -/

/-- Sources and forwards stay, and new forwards only lead to new sources. -/
structure Extends (hub hub' : Hub) : Prop where
  size_le : hub.sources.size ≤ hub'.sources.size
  stays : ∀ a b, hub.Forwards a b → hub'.Forwards a b
  old : ∀ a b : SourceId, b.index < hub.sources.size → hub'.Forwards a b → hub.Forwards a b

/-- Which sources reach a given one never changes. -/
theorem Extends.reaches_iff (h : hub.Extends hub') {a b : SourceId}
    (hb : b.index < hub.sources.size) : hub'.Reaches a b ↔ hub.Reaches a b := by
  constructor
  · rintro ⟨-, hpath⟩
    refine ⟨hb, ?_⟩
    -- From the end of the way to its start all sources are old.
    suffices hback : ∀ c, Relation.ReflTransGen hub'.Forwards c b →
        c.index < hub.sources.size ∧ Relation.ReflTransGen hub.Forwards c b from (hback a hpath).2
    intro c hc
    induction hc using Relation.ReflTransGen.head_induction_on with
    | refl => exact ⟨hb, .refl⟩
    | head hstep _ ih =>
      have hforward := h.old _ _ ih.1 hstep
      exact ⟨index_lt_of_mem_items hforward, .head hforward ih.2⟩
  · rintro ⟨-, hpath⟩
    exact ⟨hb.trans_le h.size_le, Relation.ReflTransGen.mono h.stays _ _ hpath⟩

/-- If all sources keep their subscribers, they also keep their forwards. -/
theorem extends_of_items (hsize : hub.sources.size ≤ hub'.sources.size)
    (hitems : ∀ k, hub'.roads.items k = hub.roads.items k) : hub.Extends hub' := by
  refine ⟨hsize, fun a b h => ?_, fun a b _ h => ?_⟩
  · rw [Forwards, hitems]
    exact h
  · rw [Forwards, hitems] at h
    exact h

theorem extends_subscribe {id : SourceId} {subscriber : Subscriber}
    (hplace : subscriber.place? = none) (h : hub.subscribe id subscriber = .ok hub') :
    hub.Extends hub' := by
  refine ⟨(size_subscribe h).ge, fun a b hab => ?_, fun a b _ hab => ?_⟩
  · rw [Forwards, items_subscribe h]
    exact List.mem_append_left _ hab
  · rw [Forwards, items_subscribe h] at hab
    rcases List.mem_append.1 hab with hab | hab
    · exact hab
    · split at hab
      · rw [← List.mem_singleton.1 hab] at hplace
        cases hplace
      · exact absurd hab List.not_mem_nil

theorem extends_merge {left right merged : SourceId} (h : hub.merge left right = .ok (merged, hub')) :
    hub.Extends hub' := by
  refine ⟨size_le_merge h, fun a b hab => ?_, fun a b hb hab => ?_⟩
  · rw [Forwards, items_merge h]
    exact List.mem_append_left _ hab
  · obtain ⟨name, between, hmerged, -, -⟩ := merge_eq_ok h
    have hnew : b ≠ merged := by
      rintro rfl
      rw [hmerged] at hb
      exact lt_irrefl _ hb
    rw [Forwards, items_merge h] at hab
    rcases List.mem_append.1 hab with hab | hab
    · exact hab
    · have hforward : Subscriber.forward b = .forward merged := by
        rcases List.mem_append.1 hab with hab | hab
        · split at hab
          · exact List.mem_singleton.1 hab
          · exact absurd hab List.not_mem_nil
        · split at hab
          · exact List.mem_singleton.1 hab
          · exact absurd hab List.not_mem_nil
      exact absurd (Subscriber.forward.inj hforward) hnew

theorem extends_detach (hub : Hub) (removed : List SignalId) : hub.Extends (hub.detach removed) := by
  have hsize : (hub.detach removed).sources.size = hub.sources.size := by simp [detach]
  refine ⟨hsize.ge, fun a b hab => ?_, fun a b _ hab => ?_⟩
  · rw [Forwards, items_detach]
    exact List.mem_filter.2 ⟨hab, rfl⟩
  · rw [Forwards, items_detach] at hab
    exact (List.mem_filter.1 hab).1

/-! ## Occurrences -/

section

variable {id other : SourceId}

theorem occurrencesOf_create (name : String) (hother : other.index < hub.sources.size) :
    (hub.create name).2.occurrencesOf other = hub.occurrencesOf other := by
  have hne : ¬ other.index = hub.sources.size := hother.ne
  simp [occurrencesOf, create, Array.getElem?_push, hne]

theorem occurrencesOf_subscribe {subscriber : Subscriber}
    (h : hub.subscribe id subscriber = .ok hub') :
    hub'.occurrencesOf other = hub.occurrencesOf other := by
  obtain ⟨source, hsource, rfl⟩ := subscribe_eq_ok.1 h
  have hfound := get_eq_ok.1 hsource
  have hlt := index_lt_of_get hsource
  unfold occurrencesOf
  by_cases heq : id.index = other.index
  · rw [← heq, Array.getElem?_setIfInBounds_self_of_lt hlt, hfound]
    rfl
  · rw [Array.getElem?_setIfInBounds_ne heq]

theorem occurrencesOf_merge {left right merged : SourceId}
    (h : hub.merge left right = .ok (merged, hub')) (hother : other.index < hub.sources.size) :
    hub'.occurrencesOf other = hub.occurrencesOf other := by
  obtain ⟨name, between, -, hleft, hright⟩ := merge_eq_ok h
  rw [occurrencesOf_subscribe hright, occurrencesOf_subscribe hleft,
    occurrencesOf_create name hother]

theorem occurrencesOf_detach (removed : List SignalId) :
    (hub.detach removed).occurrencesOf other = hub.occurrencesOf other := by
  simp only [occurrencesOf, detach, Array.getElem?_map]
  cases hub.sources[other.index]? with
  | none => rfl
  | some source => rfl

end

end Hub

end EffectGraph
