import EffectGraph.Proofs.Event.Reaching
import EffectGraph.Proofs.Graph.Marks
import EffectGraph.Proofs.Session.Spans

/-!
# What a reaction leaves behind

A program that is run in reaction to an occurrence may create nodes and folds and hang them on old
ones. When it has ended, whether it succeeded or not, all nodes newer than its start are removed.
`World.Aside` says what such a program does meanwhile: older nodes and the subscribers that write them
stay as they are, apart from what the program hangs on them. `Calls.Tracks.reaction_leaves` says that
nothing of it is left, as long as the program removes no other nodes.
-/

namespace EffectGraph

open Exec World

/-! ## Subscribers older than a mark -/

/-- The subscriber writes a cell in a slot before the mark. -/
def Subscriber.writesUpTo (mark : Nat) (subscriber : Subscriber) : Bool :=
  subscriber.target?.any (·.index < mark)

namespace Hub

variable {hub hub' hub'' : Hub} {mark : Nat}

/-- Every source has the same subscribers that write cells in slots before the mark. -/
def AgreeUpTo (mark : Nat) (hub hub' : Hub) : Prop :=
  ∀ k, (hub'.roads.items k).filter (·.writesUpTo mark) =
    (hub.roads.items k).filter (·.writesUpTo mark)

namespace AgreeUpTo

theorem refl (mark : Nat) (hub : Hub) : AgreeUpTo mark hub hub := fun _ => rfl

theorem trans (h : AgreeUpTo mark hub hub') (h' : AgreeUpTo mark hub' hub'') :
    AgreeUpTo mark hub hub'' := fun k => (h' k).trans (h k)

theorem mono {mark' : Nat} (h : AgreeUpTo mark' hub hub') (hle : mark ≤ mark') :
    AgreeUpTo mark hub hub' := by
  have hboth (subscribers : List Subscriber) :
      (subscribers.filter (·.writesUpTo mark')).filter (·.writesUpTo mark) =
        subscribers.filter (·.writesUpTo mark) := by
    rw [List.filter_filter]
    refine List.filter_congr fun s _ => ?_
    unfold Subscriber.writesUpTo
    cases s.target? with
    | none => rfl
    | some target =>
      by_cases htarget : target.index < mark
      · simp [htarget, htarget.trans_le hle]
      · simp [htarget]
  intro k
  rw [← hboth, h k, hboth]

theorem create (name : String) : AgreeUpTo mark hub (hub.create name).2 := fun k => by
  rw [items_create]

theorem subscribe {id : SourceId} {subscriber : Subscriber}
    (hother : subscriber.writesUpTo mark = false) (h : hub.subscribe id subscriber = .ok hub') :
    AgreeUpTo mark hub hub' := by
  intro k
  rw [items_subscribe h, List.filter_append]
  split
  · rw [List.filter_cons_of_neg (by simp [hother]), List.filter_nil, List.append_nil]
  · rw [List.filter_nil, List.append_nil]

theorem detach {removed : List SignalId} (hremoved : ∀ k ∈ removed, mark ≤ k.index) :
    AgreeUpTo mark hub (hub.detach removed) := by
  intro k
  rw [items_detach, List.filter_filter]
  refine List.filter_congr fun s _ => ?_
  unfold Subscriber.writesUpTo
  cases s.target? with
  | none => rfl
  | some target =>
    by_cases htarget : target.index < mark
    · have hkept : target ∉ removed := fun hmem => (hremoved target hmem).not_gt htarget
      simp [htarget, hkept]
    · simp [htarget]

end AgreeUpTo

end Hub

/-- The subscriber is a listener of a certain kind, forwards occurrences, or writes a cell in a slot
from the mark on. -/
def Subscriber.IsLater (listens : (Value → Script) → Prop) (mark : Nat) : Subscriber → Prop
  | .fold target _ | .foldProgram target _ => mark ≤ target.index
  | .listener react => listens react
  | .forward _ => True

/-! ## Beside the older nodes -/

namespace World

variable {listens : (Value → Script) → Prop} {mark : Nat} {w w₁ w' : World}

/-- Nodes in slots before the mark and the subscribers that write them are as before, apart from what
hangs on these nodes. All other new subscribers are listeners of a certain kind or forward
occurrences. -/
structure Aside (listens : (Value → Script) → Prop) (mark : Nat) (w w' : World) : Prop where
  settling_eq : w'.settling = w.settling
  graph : Graph.AgreeUpTo mark w.graph w'.graph
  hub : Hub.AgreeUpTo mark w.hub w'.hub
  subscribed : ∀ s, w'.hub.Subscribed s → w.hub.Subscribed s ∨ s.IsLater listens mark

namespace Aside

theorem refl (listens : (Value → Script) → Prop) (mark : Nat) (w : World) : Aside listens mark w w :=
  ⟨rfl, .refl mark _, .refl mark _, fun _ => .inl⟩

theorem trans (h : Aside listens mark w w₁) (h' : Aside listens mark w₁ w') :
    Aside listens mark w w' where
  settling_eq := h'.settling_eq.trans h.settling_eq
  graph := h.graph.trans h'.graph
  hub := h.hub.trans h'.hub
  subscribed s hs := (h'.subscribed s hs).elim (h.subscribed s) .inr

theorem mono {mark' : Nat} (h : Aside listens mark' w w') (hle : mark ≤ mark') :
    Aside listens mark w w' where
  settling_eq := h.settling_eq
  graph := h.graph.mono hle
  hub := h.hub.mono hle
  subscribed s hs := by
    refine (h.subscribed s hs).imp_right fun hlater => ?_
    cases s with
    | fold target | foldProgram target => exact hle.trans (show _ ≤ target.index from hlater)
    | listener | forward => exact hlater

/-- Nothing happens to the sources. -/
theorem of_graph (hsettling : w'.settling = w.settling) (hgraph : Graph.AgreeUpTo mark w.graph w'.graph)
    (hhub : w'.hub = w.hub) : Aside listens mark w w' where
  settling_eq := hsettling
  graph := hgraph
  hub := hhub ▸ .refl mark _
  subscribed _ hs := .inl (hhub ▸ hs)

/-- Storing a value is no change. -/
theorem of_store {id : SignalId} {value : Value} {graph : Graph}
    (hstore : w.graph.settle id value = .ok graph) : Aside listens mark w { w with graph } := by
  obtain ⟨-, rfl⟩ := Graph.settle_eq_ok.1 hstore
  exact .of_graph rfl (.of_wiring (Graph.sameWiring_modify _ _ _)) rfl

/-- A new subscriber writes no older cell. -/
theorem of_subscribe {source : SourceId} {subscriber : Subscriber} {hub : Hub}
    (hlater : subscriber.IsLater listens mark)
    (hsubscribe : w.hub.subscribe source subscriber = .ok hub) :
    Aside listens mark w { w with hub } where
  settling_eq := rfl
  graph := .refl mark _
  hub := by
    refine .subscribe ?_ hsubscribe
    cases subscriber with
    | fold target | foldProgram target =>
      simpa [Subscriber.writesUpTo, Subscriber.target?, Subscriber.IsLater] using hlater
    | listener | forward => rfl
  subscribed s hs := (Hub.subscribed_subscribe hsubscribe hs).imp_right (by rintro rfl; exact hlater)

end Aside

end World

variable {calls : Calls} {mark : Nat} {w w' : World}

/-- Removing newer nodes leaves the older ones alone. -/
theorem World.Aside.of_remove {listens : (Value → Script) → Prop} (hwell : w.toScene.WellFormed)
    {id : SignalId} {removed : List SignalId} {graph : Graph}
    (hremove : w.graph.remove id = .ok (removed, graph)) (hid : mark ≤ id.index) :
    Aside listens mark w { w with graph, hub := w.hub.detach removed } ∧
      Aside listens mark w { w with graph } := by
  obtain ⟨hlater, hgraph⟩ := hwell.graph.remove_later hremove hid
  refine ⟨⟨rfl, hgraph, .detach hlater, fun s hs => ?_⟩, .of_graph rfl hgraph rfl⟩
  exact .inl (Hub.subscribed_detach hs).1

/-- Acts that keep to newer nodes leave the older ones alone. -/
theorem Scope.Act.aside (h : (calls.scope mark).Act w w') (hremoves : ¬ calls.removes)
    (hwell : w.toScene.WellFormed) (hmark : mark ≤ w.graph.slots.size) :
    Aside calls.listens mark w w' := by
  have hcell (value : Value) : Aside calls.listens mark w (w.createCell value).2 :=
    .of_graph rfl (.of_grows (Graph.grows_insertCell w.graph value) hmark) rfl
  cases h with
  | host | evaluating => exact .of_graph rfl (.refl mark _) rfl
  | store _ hstore => exact .of_store hstore
  | cell value => exact hcell value
  | @insert kind _ _ _ hinsert =>
    obtain ⟨rank, -, hg⟩ := Graph.grows_insert kind.nodup_dependencies hinsert
    exact .of_graph rfl (.of_grows hg hmark) rfl
  | remove hremove hid =>
    obtain ⟨graph, hgraph, rfl⟩ := removeSignal_eq_ok.1 hremove
    exact (Aside.of_remove hwell hgraph (hid.resolve_left hremoves)).1
  | drop _ hremove hid => exact (Aside.of_remove hwell hremove hid).2
  | source name =>
    exact ⟨rfl, .refl mark _, .create name, fun s hs => .inl (Hub.subscribed_create.1 hs)⟩
  | bind => exact ⟨rfl, .refl mark _, .refl mark _, fun s hs => .inl hs⟩
  | @merge left right merged hub hmerge =>
    obtain ⟨name, between, -, hleft, hright⟩ := Hub.merge_eq_ok hmerge
    have hcreated : Aside calls.listens mark w { w with hub := (w.hub.create name).2 } :=
      ⟨rfl, .refl mark _, .create name, fun s hs => .inl (Hub.subscribed_create.1 hs)⟩
    have hforward : (Subscriber.forward merged).IsLater calls.listens mark := trivial
    exact (hcreated.trans (.of_subscribe hforward hleft)).trans (.of_subscribe hforward hright)
  | @listen source listener hub hsubscribe hlistens =>
    have hlater : (Subscriber.listener listener).IsLater calls.listens mark := hlistens
    exact .of_subscribe hlater hsubscribe
  | @attach source initial subscriber hub htarget hsubscribe =>
    refine (hcell initial).trans (.of_subscribe ?_ hsubscribe)
    cases subscriber with
    | fold target | foldProgram target =>
      obtain rfl := Option.some.inj htarget
      exact hmark
    | listener | forward => cases htarget

/-! ## Scripts -/

/-- One state comes after another, and if changes are being settled, nothing is done to the nodes that
are there. -/
def World.StaysAside (listens : (Value → Script) → Prop) (w w' : World) : Prop :=
  Steps w w' ∧
    (w.settling = true → w.toScene.WellFormed → Aside listens w.graph.slots.size w w')

theorem composes_staysAside (listens : (Value → Script) → Prop) :
    Composes (StaysAside listens) fun _ _ => True where
  refl w := ⟨.refl, fun _ _ => .refl listens _ w⟩
  trans := by
    rintro w w₁ w' ⟨hsteps, haside⟩ ⟨hsteps', haside'⟩
    refine ⟨hsteps.trans hsteps', fun hsettling hwell => ?_⟩
    have hfirst := haside hsettling hwell
    have hsecond := haside' (hfirst.settling_eq.trans hsettling) (hsteps.scene_wellFormed hwell)
    exact hfirst.trans (hsecond.mono (Steps.follows hsteps).size_le)
  cut _ := trivial
  trans_cut _ _ := trivial

theorem Calls.admits_staysAside (hremoves : ¬ calls.removes) :
    calls.Admits (StaysAside calls.listens) fun _ _ => True where
  toComposes := composes_staysAside calls.listens
  act := by
    rintro w₀ w w' ⟨hsteps, haside⟩ hact
    refine ⟨hsteps.trans hact.any.steps, fun hsettling hwell => ?_⟩
    have hmark := (Steps.follows hsteps).size_le
    exact (haside hsettling hwell).trans (hact.aside hremoves (hsteps.scene_wellFormed hwell) hmark)
  follows h := Steps.follows h.1

/-- At any level a script that removes no other nodes stays aside. -/
theorem Session.tracks_staysAside (session : Session) (hremoves : ¬ calls.removes)
    (hmakes : session.Makes calls) (level : Nat) :
    calls.Tracks (session.hooksAt level) (StaysAside calls.listens) fun _ _ => True := by
  refine tracks_hooksAt session (calls.admits_staysAside hremoves) hmakes ?_ ?_ level
  · intro level w cell value graph _ hstore
    have hwritten : Steps w (World.begin { w with graph } (.wrote cell value)) :=
      .head (.store hstore) (steps_begin _ _)
    have haside : Aside calls.listens w.graph.slots.size w
        (World.begin { w with graph } (.wrote cell value)) := (Aside.of_store hstore).trans
      (.of_graph rfl (.refl _ _) rfl)
    exact request_while_settling session hwritten rfl (fun _ _ => haside) fun _ _ =>
      haside.trans (.of_graph rfl (.refl _ _) rfl)
  · intro level w source payload found _
    exact request_while_settling session .refl rfl (fun _ _ => .refl _ _ w) fun _ _ =>
      .of_graph rfl (.refl _ _) rfl

/-! ## Reactions -/

/-- All is as it was, apart from values and from new listeners, sources and forwards. -/
structure World.Restored (listens : (Value → Script) → Prop) (w w' : World) : Prop where
  settling_eq : w'.settling = w.settling
  steps : Steps w w'
  wiring_eq : ∀ id, (w'.graph.node? id).map Graph.wiring = (w.graph.node? id).map Graph.wiring
  writers_eq : ∀ k, (w'.hub.roads.items k).filter (·.target?.isSome) =
    (w.hub.roads.items k).filter (·.target?.isSome)
  subscribed : ∀ s, w'.hub.Subscribed s → w.hub.Subscribed s ∨
    ((∃ source, s = .forward source) ∨ ∃ listener, s = .listener listener ∧ listens listener)

/-- What is there after some nodes were discarded was there before, and is none of these. -/
theorem World.contains_of_discard {ids : List SignalId} {k : SignalId}
    (h : (w.discard ids).2.graph.contains k) : w.graph.contains k ∧ k ∉ ids := by
  induction ids generalizing w with
  | nil => exact ⟨h, List.not_mem_nil⟩
  | cons id rest ih =>
    unfold World.discard at h
    by_cases hid : w.graph.contains id = true
    · rw [if_pos hid] at h
      obtain ⟨node, hnode⟩ := Graph.contains_iff.1 hid
      have hremove := Graph.remove_eq_ok.2 ⟨⟨node, hnode⟩, rfl, rfl⟩
      rw [show w.removeSignal id = .ok (_, _) from removeSignal_eq_ok.2 ⟨_, hremove, rfl⟩] at h
      obtain ⟨hstays, hrest⟩ := ih h
      obtain ⟨hold, hkept⟩ := Graph.contains_erase.1 hstays
      refine ⟨hold, fun hmem => ?_⟩
      obtain rfl := (List.mem_cons.1 hmem).resolve_right hrest
      exact hkept (List.mem_mergeSort.2 List.mem_cons_self)
    · rw [if_neg hid] at h
      obtain ⟨hold, hrest⟩ := ih h
      refine ⟨hold, fun hmem => ?_⟩
      obtain rfl := (List.mem_cons.1 hmem).resolve_right hrest
      exact hid hold

/-- If nothing newer is left of what was done aside, all is as it was. -/
theorem World.Aside.restored {listens : (Value → Script) → Prop}
    (h : Aside listens w.graph.slots.size w w') (hwell : w.toScene.WellFormed) (hsteps : Steps w w')
    (hold : ∀ id, w'.graph.contains id → id.index < w.graph.slots.size) : Restored listens w w' where
  settling_eq := h.settling_eq
  steps := hsteps
  wiring_eq := h.graph.wiring_eq hwell.graph (hsteps.scene_wellFormed hwell).graph hold
  writers_eq k := by
    -- Whoever writes a cell writes one that exists, so all of these subscribers are old.
    have hwriters {v : World} (hv : v.toScene.WellFormed)
        (hbelow : ∀ id, v.graph.contains id → id.index < w.graph.slots.size) :
        (v.hub.roads.items k).filter (·.target?.isSome) =
          (v.hub.roads.items k).filter (·.writesUpTo w.graph.slots.size) := by
      refine List.filter_congr fun s hs => ?_
      unfold Subscriber.writesUpTo
      cases htarget : s.target? with
      | none => rfl
      | some target =>
        obtain ⟨node, hnode, -⟩ := hv.targets (Hub.subscribed_of_mem_items hs) htarget
        have hlt := hbelow target (Graph.contains_iff.2 ⟨node, hnode⟩)
        simp [hlt]
    rw [hwriters (hsteps.scene_wellFormed hwell) hold, h.hub k]
    refine (hwriters hwell fun id hid => ?_).symm
    obtain ⟨node, hnode⟩ := Graph.contains_iff.1 hid
    exact Graph.index_lt hnode
  subscribed s hs := by
    refine (h.subscribed s hs).imp_right fun hlater => ?_
    cases s with
    | fold target | foldProgram target =>
      obtain ⟨node, hnode, -⟩ := (hsteps.scene_wellFormed hwell).targets hs rfl
      exact absurd (hold target (Graph.contains_iff.2 ⟨node, hnode⟩)) (not_lt.2 hlater)
    | listener listener => exact .inr ⟨listener, rfl, hlater⟩
    | forward source => exact .inl ⟨source, rfl⟩

/-- Of a reaction nothing is left, however its program ends. -/
theorem Calls.Tracks.reaction_leaves {session : Session} {hooks : Hooks}
    (h : calls.Tracks hooks (StaysAside calls.listens) fun _ _ => True) (hsettling : w.settling = true)
    (hwell : w.toScene.WellFormed) {program : Program} (hprogram : program.Over calls.tags)
    (finish : Except Failure Value → Except Interrupt Value) :
    ((Script.react program fun result => .done (finish result)).exec session hooks).Leaves
      (fun _ w' => Restored calls.listens w w') (fun _ => True) w := by
  refine react_leaves ((h.reports.runProgram _ hprogram h.dispatch w).mono ?_)
  intro _ w₁ hran result
  have hdiscarded : StaysAside calls.listens w
      (w₁.discard (w₁.graph.createdSince w.graph.mark)).2 := by
    refine h.acts hran (Scope.acts_discard (fun id hid => Or.inr ?_) w₁)
    exact of_decide_eq_true (List.mem_filter.1 hid).2
  refine leaves_pure.2 ((hdiscarded.2 hsettling hwell).restored hwell hdiscarded.1 fun id hid => ?_)
  obtain ⟨hold, hkept⟩ := contains_of_discard hid
  by_contra hnew
  exact hkept (List.mem_filter.2 ⟨Graph.mem_liveIds.2 hold, decide_eq_true (not_lt.1 hnew)⟩)

end EffectGraph
