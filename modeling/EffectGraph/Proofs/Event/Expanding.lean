import EffectGraph.Proofs.Event.Reaching
import EffectGraph.Proofs.Session.Actions

/-!
# Where the subscribers of an occurrence stand

An occurrence of a source goes through its subscribers in the order of their subscription. Where one
of them forwards to a source that has not had the occurrence yet, that source is gone through in this
place, and only then come the subscribers behind it. `Hub.Expands` says this by recursion on the
sources. The hub goes through a single list of work instead, with what a source holds put in front of
the rest; going through the front of this list is one such expansion (`Hub.exists_expands`), because
every source that is entered leaves fewer to enter.

Each source is entered once, so each contributes its own subscribers once and in their order
(`Hub.Expands.foundAt_eq`), whatever way the occurrence takes through cycles and repeated forwards
(`Hub.delivers_in_place`).
-/

namespace EffectGraph

namespace Hub

/-- The subscribers of a source that do not forward. -/
def ownSubscribers (hub : Hub) (id : SourceId) : List Subscriber :=
  (hub.roads.items id.index).filter fun s => s.place?.isNone

/-- An occurrence gets to these subscribers of a source, in their order, when it has visited some
sources, the latest first. It visits these other sources then, in this order, and finds these
subscribers, each at its source: a subscriber that does not forward is found; a forward to a source
that has been visited, or that does not exist, leads nowhere; any other forward is replaced by what
is found at the source it leads to. -/
inductive Expands (hub : Hub) : SourceId → List Subscriber → List SourceId → List SourceId →
    List (SourceId × Subscriber) → Prop where
  | done {id : SourceId} {visited : List SourceId} : Expands hub id [] visited [] []
  | own {id : SourceId} {s : Subscriber} {rest : List Subscriber} {visited visits : List SourceId}
    {found : List (SourceId × Subscriber)} (hown : s.place? = none)
    (hrest : Expands hub id rest visited visits found) :
    Expands hub id (s :: rest) visited visits ((id, s) :: found)
  | passed {id next : SourceId} {rest : List Subscriber} {visited visits : List SourceId}
    {found : List (SourceId × Subscriber)} (hpassed : next ∈ visited ∨ ∀ source, hub.get next ≠ .ok source)
    (hrest : Expands hub id rest visited visits found) :
    Expands hub id (.forward next :: rest) visited visits found
  | entered {id next : SourceId} {source : Source} {rest : List Subscriber}
    {visited inside behind : List SourceId} {foundInside foundBehind : List (SourceId × Subscriber)}
    (hnew : next ∉ visited) (hsource : hub.get next = .ok source)
    (hinside : Expands hub next source.subscribers (next :: visited) inside foundInside)
    (hrest : Expands hub id rest (inside.reverse ++ next :: visited) behind foundBehind) :
    Expands hub id (.forward next :: rest) visited (next :: inside ++ behind)
      (foundInside ++ foundBehind)

/-- The subscribers among those found that were found at a source. -/
def foundAt (found : List (SourceId × Subscriber)) (other : SourceId) : List Subscriber :=
  (found.filter (·.1 = other)).map (·.2)

variable {hub : Hub}

/-! ## The walk is an expansion -/

theorem index_injective : Function.Injective SourceId.index := fun ⟨_⟩ ⟨_⟩ h => congrArg _ h

/-- Visiting more sources leaves fewer to visit. -/
theorem unvisited_append_le (bound : Nat) (more visited : List Nat) :
    Reach.unvisited bound (more ++ visited) ≤ Reach.unvisited bound visited := by
  refine (List.monotone_filter_right (List.range bound) fun k hk => ?_).length_le
  simp only [List.mem_append, not_or, decide_eq_true_eq] at hk ⊢
  exact hk.2

theorem walk_found {s : Subscriber} (hs : s.place? = none) (rest : List Subscriber)
    (visited : List Nat) (found : List Subscriber) :
    Reach.walk hub.roads (s :: rest) visited found = Reach.walk hub.roads rest visited (s :: found) := by
  have hplace : hub.roads.place? s = none := hs
  rw [Reach.walk, hplace]

theorem walk_entered {next : SourceId} {source : Source} (hsource : hub.get next = .ok source)
    {visited : List Nat} (hnew : next.index ∉ visited) (rest found : List Subscriber) :
    Reach.walk hub.roads (.forward next :: rest) visited found =
      Reach.walk hub.roads (source.subscribers ++ rest) (next.index :: visited) found := by
  have hplace : hub.roads.place? (.forward next) = some next.index := rfl
  have hitems : hub.roads.items next.index = source.subscribers := by
    rw [roads_items, get_eq_ok.1 hsource]
  have henter : next.index ∉ visited ∧ next.index < hub.roads.bound :=
    ⟨hnew, index_lt_of_get hsource⟩
  rw [Reach.walk, hplace]
  simp only [dif_pos henter, hitems]

theorem walk_passed {next : SourceId} {visited : List Nat}
    (hpassed : next.index ∈ visited ∨ ¬next.index < hub.sources.size) (rest found : List Subscriber) :
    Reach.walk hub.roads (.forward next :: rest) visited found =
      Reach.walk hub.roads rest visited found := by
  have hplace : hub.roads.place? (.forward next) = some next.index := rfl
  have hstay : ¬(next.index ∉ visited ∧ next.index < hub.roads.bound) := fun henter =>
    hpassed.elim henter.1 fun hnone => hnone henter.2
  rw [Reach.walk, hplace]
  simp only [dif_neg hstay]

theorem exists_forward {s : Subscriber} (h : s.place? ≠ none) : ∃ next, s = .forward next := by
  cases s with
  | forward next => exact ⟨next, rfl⟩
  | fold | foldProgram | listener => exact absurd rfl h

/-- Going through the front of the work is an expansion, after which the walk goes through the rest. -/
theorem exists_expands (hub : Hub) (n : Nat) (subscribers : List Subscriber) (id : SourceId)
    (visited : List SourceId) (rest found : List Subscriber)
    (hn : Reach.unvisited hub.sources.size (visited.map (·.index)) ≤ n) :
    ∃ visits new, hub.Expands id subscribers visited visits new ∧
      Reach.walk hub.roads (subscribers ++ rest) (visited.map (·.index)) found =
        Reach.walk hub.roads rest ((visits.reverse ++ visited).map (·.index))
          ((new.map (·.2)).reverse ++ found) := by
  induction n using Nat.strong_induction_on generalizing subscribers id visited rest found with
  | _ n ih =>
    induction subscribers generalizing visited found with
    | nil => exact ⟨[], [], .done, rfl⟩
    | cons s subscribers ihrest =>
      rw [List.cons_append]
      by_cases hown : s.place? = none
      · obtain ⟨visits, new, hexpands, hwalk⟩ := ihrest visited (s :: found) hn
        exact ⟨visits, _, .own hown hexpands, by simp [walk_found hown, hwalk]⟩
      · obtain ⟨next, rfl⟩ := exists_forward hown
        by_cases hold : next.index ∈ visited.map (·.index)
        · obtain ⟨visits, new, hexpands, hwalk⟩ := ihrest visited found hn
          have hmem : next ∈ visited := (List.mem_map_of_injective index_injective).1 hold
          exact ⟨visits, new, .passed (.inl hmem) hexpands, by rw [walk_passed (.inl hold), hwalk]⟩
        · by_cases hlt : next.index < hub.sources.size
          · -- What the source holds leaves fewer sources to enter, and what is behind it no more.
            have hsource : hub.get next = .ok hub.sources[next.index] :=
              get_eq_ok.2 (Array.getElem?_eq_getElem hlt)
            have hfewer := Reach.unvisited_cons_lt hlt hold
            obtain ⟨inside, foundInside, hinside, hwalk⟩ := ih _ (hfewer.trans_le hn)
              hub.sources[next.index].subscribers next (next :: visited) (subscribers ++ rest) found le_rfl
            have hmore : Reach.unvisited hub.sources.size
                ((inside.reverse ++ next :: visited).map (·.index)) ≤ n := by
              rw [List.map_append]
              exact (unvisited_append_le _ _ _).trans (hfewer.le.trans hn)
            obtain ⟨behind, foundBehind, hbehind, hwalk'⟩ := ihrest (inside.reverse ++ next :: visited)
              ((foundInside.map (·.2)).reverse ++ found) hmore
            have hnew : next ∉ visited := fun hmem => hold (List.mem_map_of_mem hmem)
            refine ⟨_, _, .entered hnew hsource hinside hbehind, ?_⟩
            rw [walk_entered hsource hold, ← List.map_cons, hwalk, hwalk']
            simp
          · obtain ⟨visits, new, hexpands, hwalk⟩ := ihrest visited found hn
            have hnone : ∀ source, hub.get next ≠ .ok source := fun source hsource =>
              hlt (index_lt_of_get hsource)
            exact ⟨visits, new, .passed (.inr hnone) hexpands, by rw [walk_passed (.inr hlt), hwalk]⟩

/-! ## What an expansion finds -/

namespace Expands

variable {id : SourceId} {subscribers : List Subscriber} {visited visits : List SourceId}
  {found : List (SourceId × Subscriber)}

/-- An expansion visits no source again. -/
theorem new (h : hub.Expands id subscribers visited visits found) :
    ∀ other ∈ visits, other ∉ visited := by
  induction h with
  | done => simp
  | own _ _ ih => exact ih
  | passed _ _ ih => exact ih
  | entered hnew _ _ _ ihinside ihrest =>
    intro other hother hold
    rcases List.mem_append.1 hother with hother | hother
    · rcases List.mem_cons.1 hother with rfl | hother
      · exact hnew hold
      · exact ihinside other hother (List.mem_cons_of_mem _ hold)
    · exact ihrest other hother (List.mem_append_right _ (List.mem_cons_of_mem _ hold))

theorem nodup (h : hub.Expands id subscribers visited visits found) : visits.Nodup := by
  induction h with
  | done => exact List.nodup_nil
  | own _ _ ih => exact ih
  | passed _ _ ih => exact ih
  | entered hnew _ hinside hrest ihinside ihrest =>
    have hfirst := List.nodup_cons.2
      ⟨fun hmem => hinside.new _ hmem List.mem_cons_self, ihinside⟩
    refine hfirst.append ihrest fun other hin hbehind => hrest.new other hbehind ?_
    rcases List.mem_cons.1 hin with rfl | hin
    · exact List.mem_append_right _ List.mem_cons_self
    · exact List.mem_append_left _ (List.mem_reverse.2 hin)

/-- There is only one expansion. -/
theorem unique (h : hub.Expands id subscribers visited visits found) {visits' : List SourceId}
    {found' : List (SourceId × Subscriber)}
    (h' : hub.Expands id subscribers visited visits' found') : visits' = visits ∧ found' = found := by
  induction h generalizing visits' found' with
  | done =>
    cases h'
    exact ⟨rfl, rfl⟩
  | own hown _ ih =>
    cases h' with
    | own _ hrest =>
      obtain ⟨rfl, rfl⟩ := ih hrest
      exact ⟨rfl, rfl⟩
    | passed | entered => cases hown
  | passed hpassed _ ih =>
    cases h' with
    | own hown => cases hown
    | passed _ hrest => exact ih hrest
    | entered hnew hsource => exact (hpassed.elim hnew fun hnone => hnone _ hsource).elim
  | entered hnew hsource _ _ ihinside ihrest =>
    cases h' with
    | own hown => cases hown
    | passed hpassed => exact (hpassed.elim hnew fun hnone => hnone _ hsource).elim
    | entered _ hsource' hinside hrest =>
      obtain rfl := Except.ok.inj (hsource.symm.trans hsource')
      obtain ⟨rfl, rfl⟩ := ihinside hinside
      obtain ⟨rfl, rfl⟩ := ihrest hrest
      exact ⟨rfl, rfl⟩

theorem foundAt_append (front back : List (SourceId × Subscriber)) (other : SourceId) :
    foundAt (front ++ back) other = foundAt front other ++ foundAt back other := by
  simp only [foundAt, List.filter_append, List.map_append]

/-- At the source that it goes through, an expansion finds those of the given subscribers that do not
forward; at every other source that it visits, all that do not forward; and none anywhere else. -/
theorem foundAt_eq (h : hub.Expands id subscribers visited visits found) (hid : id ∈ visited)
    (other : SourceId) : foundAt found other =
      if other = id then subscribers.filter fun s => s.place?.isNone
      else if other ∈ visits then hub.ownSubscribers other else [] := by
  induction h with
  | done => simp [foundAt]
  | @own id s rest _ _ found hown _ ih =>
    have hfirst : foundAt ((id, s) :: found) other =
        (if other = id then [s] else []) ++ foundAt found other := by
      by_cases heq : other = id
      · simp [foundAt, heq]
      · simp [foundAt, heq, Ne.symm heq]
    rw [hfirst, ih hid]
    by_cases heq : other = id
    · simp [heq, hown]
    · simp [heq]
  | passed _ _ ih =>
    rw [ih hid, List.filter_cons_of_neg (by simp [Subscriber.place?])]
  | @entered id next source rest visited inside behind _ _ hnew hsource hinside hrest ihinside ihrest =>
    rw [foundAt_append, ihinside List.mem_cons_self,
      ihrest (List.mem_append_right _ (List.mem_cons_of_mem _ hid)),
      List.filter_cons_of_neg (by simp [Subscriber.place?])]
    have hown : (source.subscribers.filter fun s => s.place?.isNone) = hub.ownSubscribers next := by
      rw [ownSubscribers, roads_items, get_eq_ok.1 hsource]
    by_cases heq : other = id
    · -- The source that is being gone through has been visited and is not entered again.
      subst heq
      have hne : other ≠ next := fun hsame => hnew (hsame ▸ hid)
      have hout : other ∉ inside := fun hmem => hinside.new other hmem (List.mem_cons_of_mem _ hid)
      simp [hne, hout]
    · by_cases hnext : other = next
      · subst hnext
        have hout : other ∉ behind := fun hmem =>
          hrest.new other hmem (List.mem_append_right _ List.mem_cons_self)
        simp [heq, hown, hout]
      · by_cases hin : other ∈ inside
        · have hout : other ∉ behind := fun hmem =>
            hrest.new other hmem (List.mem_append_left _ (List.mem_reverse.2 hin))
          simp [heq, hnext, hin, hout]
        · simp [heq, hnext, hin]

end Expands

/-! ## Deliveries -/

/-- What an occurrence of a source reaches is an expansion of its subscribers. -/
theorem exists_expands_reached {id : SourceId} {source : Source} (hsource : hub.get id = .ok source) :
    ∃ visits found, hub.Expands id source.subscribers [id] visits found ∧
      hub.reached id = ((visits.reverse ++ [id]).map (·.index), found.map (·.2)) := by
  obtain ⟨visits, found, hexpands, hwalk⟩ := hub.exists_expands _ source.subscribers id [id] [] [] le_rfl
  refine ⟨visits, found, hexpands, ?_⟩
  rw [reached, walk_entered hsource List.not_mem_nil]
  rw [List.map_singleton] at hwalk
  rw [hwalk, Reach.walk]
  simp

/-- The hub with an occurrence counted at each of these places. -/
def counting (hub : Hub) (visited : List Nat) : Hub :=
  { hub with sources := hub.sources.mapIdx fun k source =>
      if k ∈ visited then { source with occurrences := source.occurrences + 1 } else source }

theorem deliver_of_get {id : SourceId} {source : Source} (hsource : hub.get id = .ok source) :
    hub.deliver id = .ok ((hub.reached id).2, hub.counting (hub.reached id).1) := by
  rw [deliver, hsource]
  rfl

theorem get_counting {id : SourceId} {source : Source} (hsource : hub.get id = .ok source)
    (visited : List Nat) : (hub.counting visited).get id =
      .ok { source with occurrences := source.occurrences + if id.index ∈ visited then 1 else 0 } := by
  rw [get_eq_ok] at hsource ⊢
  simp only [counting, Array.getElem?_mapIdx, hsource, Option.map_some]
  split
  · rfl
  · rfl

end Hub

/-- A delivery to a source that does not exist changes nothing in the session. -/
theorem Session.deliver_of_error {session : Session} {hooks : Hooks} {id : SourceId} {payload : Value}
    {w : World} {failure : Failure} (h : w.hub.deliver id = .error failure) :
    session.deliver hooks id payload w = (some [failure], w) := by
  rw [Session.deliver, Exec.get_bind_eq, h]
  rfl

namespace Hub

/-- **An occurrence is delivered in place.** Let a hub have whatever sources, subscribers and forwards,
with cycles, forwards of a source to itself and repeated ones. Delivering an occurrence of a source
that exists visits exactly the sources that can be reached from it along forwards, each once. The
subscribers it lists are those that do not forward, in the order of the depth-first expansion, in
which what is found at a source stands in the place of the first forward that leads there; so each
visited source contributes its own subscribers once and in the order of their subscription, and no
other source contributes any. The visited sources have one occurrence more; all else stays, the names,
the subscribers and the bindings. If the source does not exist, the delivery fails, and nothing of the
session changes. -/
theorem delivers_in_place (hub : Hub) (id : SourceId) :
    (∀ source, hub.get id = .ok source → ∃ visits found hub',
      hub.deliver id = .ok (found.map (·.2), hub') ∧
      (∀ visits' found', hub.Expands id source.subscribers [id] visits' found' ↔
        visits' = visits ∧ found' = found) ∧
      (id :: visits).Nodup ∧
      (∀ other, other ∈ id :: visits ↔ hub.Reaches id other) ∧
      (∀ other, (found.filter (·.1 = other)).map (·.2) =
        if other ∈ id :: visits then hub.ownSubscribers other else []) ∧
      hub'.sources.size = hub.sources.size ∧ hub'.bindings = hub.bindings ∧
      ∀ other s, hub.get other = .ok s → hub'.get other =
        .ok { s with occurrences := s.occurrences + if other ∈ id :: visits then 1 else 0 }) ∧
    ((∀ source, hub.get id ≠ .ok source) →
      hub.deliver id = .error (.unknownSource id) ∧
      ∀ (session : Session) (hooks : Hooks) (payload : Value) (w : World), w.hub = hub →
        session.deliver hooks id payload w = (some [.unknownSource id], w)) := by
  refine ⟨fun source hsource => ?_, fun hnone => ?_⟩
  · obtain ⟨visits, found, hexpands, hreached⟩ := exists_expands_reached hsource
    have hvisited (other : SourceId) : other.index ∈ (hub.reached id).1 ↔ other ∈ id :: visits := by
      rw [hreached, List.mem_map_of_injective index_injective]
      simp [or_comm]
    have hnodup : (id :: visits).Nodup :=
      List.nodup_cons.2 ⟨fun hmem => hexpands.new id hmem List.mem_cons_self, hexpands.nodup⟩
    refine ⟨visits, found, hub.counting (hub.reached id).1, ?_, fun visits' found' => ?_, hnodup,
      fun other => ?_, fun other => ?_, Array.size_mapIdx, rfl, fun other s hother => ?_⟩
    · rw [deliver_of_get hsource, hreached]
    · refine ⟨hexpands.unique, ?_⟩
      rintro ⟨rfl, rfl⟩
      exact hexpands
    · rw [← hvisited, mem_reached]
    · have hfound := hexpands.foundAt_eq List.mem_cons_self other
      rw [foundAt] at hfound
      rw [hfound]
      by_cases heq : other = id
      · simp [heq, ownSubscribers, roads_items, get_eq_ok.1 hsource]
      · simp [heq]
    · simp only [get_counting hother, hvisited]
  · have hget : hub.get id = .error (.unknownSource id) := by
      refine get_eq_error (Nat.le_of_not_lt fun hlt => ?_)
      exact hnone _ (get_eq_ok.2 (Array.getElem?_eq_getElem hlt))
    have hdeliver : hub.deliver id = .error (.unknownSource id) := by
      rw [deliver, hget]
      rfl
    refine ⟨hdeliver, fun session hooks payload w hw => ?_⟩
    exact Session.deliver_of_error (hw ▸ hdeliver)

private def early : Subscriber := .fold ⟨0⟩ fun value _ => .done (.ok value)

private def late : Subscriber := .listener fun _ => .done (.ok .unit)

/-- Two sources that forward to each other, the first one twice, and the second one also to itself. -/
private def looping : Hub where
  sources := #[⟨"left", [.forward ⟨1⟩, late, .forward ⟨1⟩], 0⟩,
    ⟨"right", [.forward ⟨0⟩, early, .forward ⟨1⟩], 3⟩]

/-- An occurrence of the first source gets to the second one once, and to no third one. -/
theorem delivers_in_place_looping :
    (∃ visits found hub', looping.deliver ⟨0⟩ = .ok (found.map (·.2), hub') ∧
      looping.Expands ⟨0⟩ [.forward ⟨1⟩, late, .forward ⟨1⟩] [⟨0⟩] visits found ∧
      (found.filter (·.1 = ⟨1⟩)).map (·.2) = [early] ∧
      hub'.get ⟨1⟩ = .ok ⟨"right", [.forward ⟨0⟩, early, .forward ⟨1⟩], 4⟩) ∧
    looping.deliver ⟨2⟩ = .error (.unknownSource ⟨2⟩) := by
  obtain ⟨visits, found, hub', hdeliver, hexpands, -, hvisits, hfound, -, -, hget⟩ :=
    (delivers_in_place looping ⟨0⟩).1 _ rfl
  have hreaches : looping.Reaches ⟨0⟩ ⟨1⟩ := ⟨by decide, .single List.mem_cons_self⟩
  have hvisited := (hvisits ⟨1⟩).2 hreaches
  refine ⟨⟨visits, found, hub', hdeliver, (hexpands _ _).2 ⟨rfl, rfl⟩, ?_, ?_⟩, ?_⟩
  · rw [hfound, if_pos hvisited]
    rfl
  · rw [hget ⟨1⟩ _ rfl, if_pos hvisited]
    rfl
  · refine ((delivers_in_place looping ⟨2⟩).2 fun source hsource => ?_).1
    exact absurd (index_lt_of_get hsource) (by decide)

end Hub

end EffectGraph
