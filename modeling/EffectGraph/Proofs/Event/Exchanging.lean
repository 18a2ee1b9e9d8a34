import EffectGraph.Proofs.Event.Reaching

/-!
# Reducers that stand in for others

Two hubs are alike if the second one has the same sources with the same subscribers, except that some
folds are exchanged for effectful folds into the same cells. Whatever is asked of the two hubs, they
answer alike; and an occurrence goes to subscribers that are alike, in the same order
(`Hub.Alike.deliver`).
-/

namespace EffectGraph

/-- Which reducers can be exchanged, as long as all that begins is fine. -/
structure Exchange where
  /-- The effectful reducer can stand in for the other one. -/
  swaps : SignalId → (Value → Value → Script) → (Value → Value → Program) → Prop
  /-- What may begin. -/
  fine : Activity → Prop

namespace Exchange

/-- Nothing is exchanged, and everything is fine. -/
def empty : Exchange := ⟨fun _ _ _ => False, fun _ => True⟩

end Exchange

/-- The second subscriber is the first one, or stands in for it. -/
inductive Subscriber.Alike (e : Exchange) : Subscriber → Subscriber → Prop where
  | same (subscriber : Subscriber) : Alike e subscriber subscriber
  | swapped {target : SignalId} {reducer : Value → Value → Script} {program : Value → Value → Program}
    (h : e.swaps target reducer program) : Alike e (.fold target reducer) (.foldProgram target program)

/-- The sources differ in subscribers that are exchanged. -/
structure Source.Alike (e : Exchange) (source source' : Source) : Prop where
  name_eq : source'.name = source.name
  occurrences_eq : source'.occurrences = source.occurrences
  subscribers : List.Forall₂ (Subscriber.Alike e) source.subscribers source'.subscribers

/-- The hubs differ in subscribers that are exchanged. -/
structure Hub.Alike (e : Exchange) (hub hub' : Hub) : Prop where
  size_eq : hub'.sources.size = hub.sources.size
  bindings_eq : hub'.bindings = hub.bindings
  source : ∀ (k : Nat) (source : Source), hub.sources[k]? = some source →
    ∃ source', hub'.sources[k]? = some source' ∧ source.Alike e source'

variable {e : Exchange}

namespace Subscriber.Alike

variable {s s' : Subscriber}

theorem target?_eq (h : s.Alike e s') : s'.target? = s.target? := by
  cases h with
  | same => rfl
  | swapped => rfl

theorem place?_eq (h : s.Alike e s') : s'.place? = s.place? := by
  cases h with
  | same => rfl
  | swapped => rfl

theorem eq_of_empty (h : s.Alike .empty s') : s' = s := by
  cases h with
  | same => rfl
  | swapped hswaps => exact hswaps.elim

end Subscriber.Alike

theorem Subscriber.forall₂_alike_refl (l : List Subscriber) : List.Forall₂ (Subscriber.Alike e) l l :=
  List.forall₂_same.2 fun s _ => .same s

namespace Source.Alike

variable {source source' : Source}

theorem refl (source : Source) : source.Alike e source :=
  ⟨rfl, rfl, Subscriber.forall₂_alike_refl _⟩

theorem eq_of_empty (h : source.Alike .empty source') : source' = source := by
  obtain ⟨hname, hoccurrences, hsubscribers⟩ := h
  have hsame : source.subscribers = source'.subscribers :=
    List.forall₂_eq_eq_eq ▸ hsubscribers.imp fun _ _ h => h.eq_of_empty.symm
  cases source
  cases source'
  simp_all

/-- Both get one more subscriber. -/
theorem addSubscriber (h : source.Alike e source') {s s' : Subscriber} (hs : s.Alike e s') :
    (Hub.addSubscriber s source).Alike e (Hub.addSubscriber s' source') :=
  ⟨h.name_eq, h.occurrences_eq, List.rel_append h.subscribers (.cons hs .nil)⟩

/-- Both have one more occurrence. -/
theorem count (h : source.Alike e source') :
    Source.Alike e { source with occurrences := source.occurrences + 1 }
      { source' with occurrences := source'.occurrences + 1 } :=
  ⟨h.name_eq, congrArg (· + 1) h.occurrences_eq, h.subscribers⟩

end Source.Alike

/-! ## Walks along like roads -/

/-- Walks that find like items at every place enter the same places and collect like items. -/
theorem Reach.walk_alike {α : Type} {R : α → α → Prop} {roads roads' : Roads α}
    (hplace : ∀ item item', R item item' → roads'.place? item' = roads.place? item)
    (hitems : ∀ k, List.Forall₂ R (roads.items k) (roads'.items k)) (hbound : roads'.bound = roads.bound)
    {work work' found found' : List α} (visited : List Nat) (hwork : List.Forall₂ R work work')
    (hfound : List.Forall₂ R found found') :
    (walk roads' work' visited found').1 = (walk roads work visited found).1 ∧
      List.Forall₂ R (walk roads work visited found).2 (walk roads' work' visited found').2 := by
  -- Along the first walk. At each of its steps the second walk has the same choice, because items
  -- that are alike lead to the same place and the same places have been visited.
  fun_induction walk roads work visited found generalizing work' found' with
  | case1 visited found =>
    cases hwork
    rw [walk]
    exact ⟨rfl, hfound⟩
  | case2 visited found item rest hnone ih =>
    obtain ⟨item', rest', hitem, hrest, rfl⟩ := List.forall₂_cons_left_iff.1 hwork
    have hstep : walk roads' (item' :: rest') visited found' =
        walk roads' rest' visited (item' :: found') := by
      rw [walk, hplace item item' hitem, hnone]
    rw [hstep]
    exact ih hrest (.cons hitem hfound)
  | case3 visited found item rest k hsome hnew ih =>
    obtain ⟨item', rest', hitem, hrest, rfl⟩ := List.forall₂_cons_left_iff.1 hwork
    have hstep : walk roads' (item' :: rest') visited found' =
        walk roads' (roads'.items k ++ rest') (k :: visited) found' := by
      rw [walk, hplace item item' hitem, hsome]
      simp only [hbound, hnew, not_false_eq_true, and_self, dite_true]
    rw [hstep]
    exact ih (List.rel_append (hitems k) hrest) hfound
  | case4 visited found item rest k hsome hnew ih =>
    obtain ⟨item', rest', hitem, hrest, rfl⟩ := List.forall₂_cons_left_iff.1 hwork
    have hstep : walk roads' (item' :: rest') visited found' = walk roads' rest' visited found' := by
      rw [walk, hplace item item' hitem, hsome]
      simp only [hbound, hnew, dite_false]
    rw [hstep]
    exact ih hrest hfound

/-! ## Operations of hubs that are alike -/

namespace Hub.Alike

variable {hub hub' : Hub}

theorem refl (hub : Hub) : hub.Alike e hub := ⟨rfl, rfl, fun _ source h => ⟨source, h, .refl source⟩⟩

theorem eq_of_empty (h : hub.Alike .empty hub') : hub' = hub := by
  obtain ⟨hsize, hbindings, hsource⟩ := h
  have hsources : hub'.sources = hub.sources := by
    refine Array.ext_getElem? fun k => ?_
    cases hk : hub.sources[k]? with
    | none =>
      rw [Array.getElem?_eq_none_iff] at hk ⊢
      omega
    | some source =>
      obtain ⟨source', hk', halike⟩ := hsource k source hk
      rw [hk', halike.eq_of_empty]
  cases hub
  cases hub'
  simp_all

theorem getElem?_none (h : hub.Alike e hub') {k : Nat} (hk : hub.sources[k]? = none) :
    hub'.sources[k]? = none := by
  rw [Array.getElem?_eq_none_iff] at hk ⊢
  rw [h.size_eq]
  exact hk

/-- Either both sources exist, and are alike, or there is none. -/
theorem get_cases (h : hub.Alike e hub') (id : SourceId) :
    (hub.get id = .error (.unknownSource id) ∧ hub'.get id = .error (.unknownSource id)) ∨
      ∃ source source', hub.get id = .ok source ∧ hub'.get id = .ok source' ∧
        source.Alike e source' := by
  unfold Hub.get
  cases hk : hub.sources[id.index]? with
  | none =>
    rw [h.getElem?_none hk]
    exact .inl ⟨rfl, rfl⟩
  | some source =>
    obtain ⟨source', hk', halike⟩ := h.source _ source hk
    rw [hk']
    exact .inr ⟨source, source', rfl, rfl, halike⟩

/-- What sources that are alike have in common is the same in both hubs. -/
theorem map_get_eq (h : hub.Alike e hub') (id : SourceId) {α : Type} {f : Source → α}
    (hf : ∀ source source', source.Alike e source' → f source' = f source) :
    (hub'.get id).map f = (hub.get id).map f := by
  rcases h.get_cases id with ⟨hget, hget'⟩ | ⟨source, source', hget, hget', halike⟩
  · rw [hget, hget']
  · rw [hget, hget', Except.map, Except.map, hf source source' halike]

theorem create_eq (h : hub.Alike e hub') (name : String) :
    (hub'.create name).1 = (hub.create name).1 := congrArg SourceId.mk h.size_eq

theorem create (h : hub.Alike e hub') (name : String) :
    (hub.create name).2.Alike e (hub'.create name).2 := by
  refine ⟨by simp [Hub.create, h.size_eq], h.bindings_eq, fun k source hk => ?_⟩
  simp only [Hub.create, Array.getElem?_push, h.size_eq] at hk ⊢
  split at hk
  · rename_i hlast
    obtain rfl := Option.some.inj hk
    rw [if_pos hlast]
    exact ⟨_, rfl, .refl _⟩
  · rename_i hold
    rw [if_neg hold]
    exact h.source k source hk

theorem bind (h : hub.Alike e hub') (element : ElementId) (event : String) (source : SourceId) :
    (hub.bind element event source).Alike e (hub'.bind element event source) :=
  ⟨h.size_eq, congrArg (· ++ [((element, event), source)]) h.bindings_eq, h.source⟩

theorem bound_eq (h : hub.Alike e hub') (element : ElementId) (event : String) :
    hub'.bound element event = hub.bound element event := by
  unfold Hub.bound
  rw [h.bindings_eq]

theorem on_eq (h : hub.Alike e hub') (element : ElementId) (event : String) :
    (hub'.on element event).1 = (hub.on element event).1 :=
  h.create_eq (event ++ "@" ++ element.text)

theorem on (h : hub.Alike e hub') (element : ElementId) (event : String) :
    (hub.on element event).2.Alike e (hub'.on element event).2 := by
  have hbound : (hub'.on element event).2 =
      (hub'.create (event ++ "@" ++ element.text)).2.bind element event
        (hub'.on element event).1 := rfl
  rw [hbound, h.on_eq]
  exact (h.create _).bind element event _

/-- Subscribers that are alike can be added to both hubs, or to none. -/
theorem subscribe_cases (h : hub.Alike e hub') (id : SourceId) {s s' : Subscriber}
    (hs : s.Alike e s') :
    (hub.subscribe id s = .error (.unknownSource id) ∧
      hub'.subscribe id s' = .error (.unknownSource id)) ∨
      ∃ after after', hub.subscribe id s = .ok after ∧ hub'.subscribe id s' = .ok after' ∧
        after.Alike e after' := by
  unfold Hub.subscribe
  rcases h.get_cases id with ⟨hget, hget'⟩ | ⟨source, source', hget, hget', halike⟩
  · rw [hget, hget']
    exact .inl ⟨rfl, rfl⟩
  · rw [hget, hget']
    refine .inr ⟨_, _, rfl, rfl, by simp [h.size_eq], h.bindings_eq, fun k found hk => ?_⟩
    rw [Array.getElem?_setIfInBounds] at hk ⊢
    split at hk
    · rename_i hself
      split at hk
      · rename_i hlt
        obtain rfl := Option.some.inj hk
        rw [if_pos hself, if_pos (h.size_eq ▸ hlt)]
        exact ⟨_, rfl, halike.addSubscriber hs⟩
      · cases hk
    · rename_i hother
      rw [if_neg hother]
      exact h.source k found hk

/-- Two sources can be merged in both hubs, or in none. -/
theorem merge_cases (h : hub.Alike e hub') (left right : SourceId) :
    (∃ failure, hub.merge left right = .error failure ∧ hub'.merge left right = .error failure) ∨
      ∃ merged after after', hub.merge left right = .ok (merged, after) ∧
        hub'.merge left right = .ok (merged, after') ∧ after.Alike e after' := by
  unfold Hub.merge
  rcases h.get_cases left with ⟨hleft, hleft'⟩ | ⟨source, source', hleft, hleft', halike⟩
  · rw [hleft, hleft']
    exact .inl ⟨_, rfl, rfl⟩
  rcases h.get_cases right with ⟨hright, hright'⟩ | ⟨other, other', hright, hright', halike'⟩
  · rw [hleft, hleft', hright, hright']
    exact .inl ⟨_, rfl, rfl⟩
  rw [hleft, hleft', hright, hright']
  -- Both hubs have a new source of the same name now, to which both sources have yet to forward.
  simp only [Bind.bind, Except.bind, halike.name_eq, halike'.name_eq]
  generalize source.name ++ " | " ++ other.name = name
  have hcreated := h.create name
  rw [h.create_eq name]
  rcases hcreated.subscribe_cases left (.same (.forward (hub.create name).1)) with
    ⟨hfirst, hfirst'⟩ | ⟨between, between', hfirst, hfirst', hbetween⟩
  · rw [hfirst, hfirst']
    exact .inl ⟨_, rfl, rfl⟩
  rw [hfirst, hfirst']
  rcases hbetween.subscribe_cases right (.same (.forward (hub.create name).1)) with
    ⟨hlast, hlast'⟩ | ⟨after, after', hlast, hlast', hafter⟩
  · dsimp only
    rw [hlast, hlast']
    exact .inl ⟨_, rfl, rfl⟩
  · dsimp only
    rw [hlast, hlast']
    exact .inr ⟨_, after, after', rfl, rfl, hafter⟩

theorem items (h : hub.Alike e hub') (k : Nat) :
    List.Forall₂ (Subscriber.Alike e) (hub.roads.items k) (hub'.roads.items k) := by
  rw [roads_items, roads_items]
  cases hk : hub.sources[k]? with
  | none =>
    rw [h.getElem?_none hk]
    exact .nil
  | some source =>
    obtain ⟨source', hk', halike⟩ := h.source k source hk
    rw [hk']
    exact halike.subscribers

/-- An occurrence reaches the same sources in both hubs, and goes to subscribers that are alike. -/
theorem reached (h : hub.Alike e hub') (id : SourceId) :
    (hub'.reached id).1 = (hub.reached id).1 ∧
      List.Forall₂ (Subscriber.Alike e) (hub.reached id).2 (hub'.reached id).2 := by
  have hplace (s s' : Subscriber) (hs : s.Alike e s') : hub'.roads.place? s' = hub.roads.place? s :=
    hs.place?_eq
  have hstart : List.Forall₂ (Subscriber.Alike e) [.forward id] [.forward id] :=
    Subscriber.forall₂_alike_refl _
  obtain ⟨hvisited, hfound⟩ := Reach.walk_alike hplace h.items h.size_eq [] hstart .nil
  exact ⟨hvisited, List.forall₂_reverse_iff.2 hfound⟩

/-- An occurrence is counted in both hubs, or in none. -/
theorem deliver_cases (h : hub.Alike e hub') (id : SourceId) :
    (hub.deliver id = .error (.unknownSource id) ∧ hub'.deliver id = .error (.unknownSource id)) ∨
      ∃ subscribers subscribers' after after', hub.deliver id = .ok (subscribers, after) ∧
        hub'.deliver id = .ok (subscribers', after') ∧
        List.Forall₂ (Subscriber.Alike e) subscribers subscribers' ∧ after.Alike e after' := by
  unfold Hub.deliver
  rcases h.get_cases id with ⟨hget, hget'⟩ | ⟨source, source', hget, hget', -⟩
  · rw [hget, hget']
    exact .inl ⟨rfl, rfl⟩
  · obtain ⟨hvisited, hfound⟩ := h.reached id
    rw [hget, hget']
    refine .inr ⟨_, _, _, _, rfl, rfl, hfound, by simp [h.size_eq], h.bindings_eq, fun k found hk => ?_⟩
    simp only [Array.getElem?_mapIdx, Option.map_eq_some_iff] at hk ⊢
    obtain ⟨old, hold, rfl⟩ := hk
    obtain ⟨old', hold', halike⟩ := h.source k old hold
    refine ⟨_, ⟨old', hold', rfl⟩, ?_⟩
    change Source.Alike e (if k ∈ (hub.reached id).1 then _ else _)
      (if k ∈ (hub'.reached id).1 then _ else _)
    rw [hvisited]
    split
    · exact halike.count
    · exact halike

/-- Both hubs lose the subscribers that write removed cells. -/
theorem detach (h : hub.Alike e hub') (removed : List SignalId) :
    (hub.detach removed).Alike e (hub'.detach removed) := by
  refine ⟨by simp [Hub.detach, h.size_eq], h.bindings_eq, fun k source hk => ?_⟩
  simp only [Hub.detach, Array.getElem?_map, Option.map_eq_some_iff] at hk ⊢
  obtain ⟨old, hold, rfl⟩ := hk
  obtain ⟨old', hold', halike⟩ := h.source k old hold
  refine ⟨_, ⟨old', hold', rfl⟩, halike.name_eq, halike.occurrences_eq, ?_⟩
  refine List.rel_filter (fun s s' hs => ?_) halike.subscribers
  dsimp only
  rw [hs.target?_eq]

end Hub.Alike

end EffectGraph
