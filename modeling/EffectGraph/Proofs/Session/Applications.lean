import EffectGraph.Proofs.Catalog.Reactions
import EffectGraph.Proofs.Session.Evaluations
import EffectGraph.Proofs.Session.Folds
import EffectGraph.Proofs.Session.Transient
import EffectGraph.Proofs.Session.Upholding

/-!
# Applications

In an application all computations leave the session alone, its watches show values, and its reducers
and listeners are pure or run programs over the catalog in reaction to occurrences. Nothing is left of
a reaction (`reacting_restores`), so occurrences change values, and may add listeners, but no signal
comes or goes (`Visits.reactions_are_transient`).
-/

namespace EffectGraph

open Exec World

/-- The job runs a program over some instructions as a reaction. -/
def Job.Reacts (tags : Tag → Prop) : Job → Prop
  | .foldProgram _ reducer payload => ∀ current, (reducer current payload).Over tags
  | .listener react _ => ReactsWith tags react
  | _ => False

/-- The effects with which the catalog shows values. -/
inductive Catalog.Shows : (Value → Script) → Prop where
  /-- A property of an element is kept at a value. -/
  | property (target : ElementId) (prop : String) : Shows fun current => Routine.script do
      Routine.setProperty target prop current
      return .unit
  /-- A message is logged. -/
  | log : Shows fun current => Routine.script do
      Routine.report (.logged current)
      return .unit

namespace Session

variable (session : Session)

/-- The subscriber has its place in an application: it is a pure reducer, or it runs programs over
some instructions. -/
def Accepts (tags : Tag → Prop) : Subscriber → Prop
  | .fold _ reducer => ∀ current payload hooks, ((reducer current payload).exec session hooks).Quiet
  | .foldProgram _ reducer => ∀ current payload, (reducer current payload).Over tags
  | .listener react => ReactsWith tags react
  | .forward _ => True

/-- Computations leave the session alone, watches show values, and reducers and listeners are pure or
run programs over some instructions. -/
structure IsApplication (tags : Tag → Prop) (w : World) : Prop where
  derived : ∀ id node operands compute, w.graph.node? id = some node →
    node.kind = .derived operands compute →
      ∀ inputs hooks, ((compute inputs).exec session hooks).Quiet
  watches : ∀ id node input effect, w.graph.node? id = some node →
    node.kind = .watch input effect → Catalog.Shows effect
  subscribers : ∀ s, w.hub.Subscribed s → session.Accepts tags s

end Session

/-! ## What leaves the session alone -/

/-- Showing a value is up to the host. -/
theorem Catalog.Shows.asksHostOnly {effect : Value → Script} (h : Catalog.Shows effect)
    (value : Value) : (effect value).AsksHostOnly := by
  cases h with
  | property target prop =>
    refine .ask trivial fun reply => ?_
    cases reply with
    | error failure => exact .done _
    | ok _ => exact .done _
  | log => exact .ask trivial fun _ => .done _

/-! ## States with the same wiring -/

namespace Hub

variable {hub : Hub}

theorem subscribed_iff {s : Subscriber} : hub.Subscribed s ↔ ∃ k, s ∈ hub.roads.items k := by
  refine ⟨fun ⟨source, hsource, hs⟩ => ?_, fun ⟨k, hs⟩ => subscribed_of_mem_items hs⟩
  obtain ⟨k, hk, rfl⟩ := Array.mem_iff_getElem.1 hsource
  refine ⟨k, ?_⟩
  rw [roads_items, Array.getElem?_eq_getElem hk]
  exact hs

end Hub

namespace World.Restored

variable {listens : (Value → Script) → Prop} {w w₁ w' : World}

/-- The nodes hang together as before, and every source has the same subscribers. -/
theorem of_wiring (hsteps : Steps w w') (hsettling : w'.settling = w.settling)
    (hgraph : Graph.SameWiring w.graph w'.graph)
    (hitems : ∀ k, w'.hub.roads.items k = w.hub.roads.items k) : Restored listens w w' where
  settling_eq := hsettling
  steps := hsteps
  wiring_eq := hgraph.wiring_eq
  writers_eq k := by rw [hitems]
  subscribed s hs := by
    obtain ⟨k, hk⟩ := Hub.subscribed_iff.1 hs
    exact .inl (Hub.subscribed_iff.2 ⟨k, hitems k ▸ hk⟩)

theorem refl (w : World) : Restored listens w w :=
  of_wiring .refl rfl (.refl _) fun _ => rfl

theorem trans (h : Restored listens w w₁) (h' : Restored listens w₁ w') : Restored listens w w' where
  settling_eq := h'.settling_eq.trans h.settling_eq
  steps := h.steps.trans h'.steps
  wiring_eq id := (h'.wiring_eq id).trans (h.wiring_eq id)
  writers_eq k := (h'.writers_eq k).trans (h.writers_eq k)
  subscribed s hs := (h'.subscribed s hs).elim (h.subscribed s) .inr

theorem of_begin (w : World) (activity : Activity) : Restored listens w (w.begin activity) :=
  of_wiring (steps_begin w activity) rfl (.refl _) fun _ => rfl

theorem of_host (w : World) (document : Document) (journal : Array Entry) :
    Restored listens w { w with document, journal } :=
  of_wiring (.single (.host w document journal)) rfl (.refl _) fun _ => rfl

theorem of_store {id : SignalId} {value : Value} {graph : Graph}
    (hstore : w.graph.settle id value = .ok graph) : Restored listens w { w with graph } := by
  have hstep : Steps w { w with graph } := .single (.store hstore)
  obtain ⟨-, rfl⟩ := Graph.settle_eq_ok.1 hstore
  exact of_wiring hstep rfl (Graph.sameWiring_modify _ _ _) fun _ => rfl

/-- The same signals exist. -/
theorem liveIds_eq (h : Restored listens w w') : w'.graph.liveIds = w.graph.liveIds := by
  refine Graph.liveIds_eq_of_contains (Steps.follows h.steps).size_le fun id => ?_
  simpa [Graph.contains] using congrArg Option.isSome (h.wiring_eq id)

/-- Whatever exists later has existed with the same kind. -/
theorem kind_before (h : Restored listens w w') {id : SignalId} {node' : Node}
    (hnode' : w'.graph.node? id = some node') :
    ∃ node, w.graph.node? id = some node ∧ node.kind = node'.kind := by
  have hwiring := h.wiring_eq id
  rw [hnode', Option.map_some] at hwiring
  obtain ⟨node, hnode, heq⟩ := Option.map_eq_some_iff.1 hwiring.symm
  exact ⟨node, hnode, congrArg Prod.fst heq⟩

/-- An application stays one. -/
theorem isApplication {session : Session} {tags : Tag → Prop} (h : Restored (ReactsWith tags) w w')
    (happ : session.IsApplication tags w) : session.IsApplication tags w' where
  derived id node' operands compute hnode' hkind' := by
    obtain ⟨node, hnode, hkind⟩ := h.kind_before hnode'
    exact happ.derived id node operands compute hnode (hkind.trans hkind')
  watches id node' input effect hnode' hkind' := by
    obtain ⟨node, hnode, hkind⟩ := h.kind_before hnode'
    exact happ.watches id node input effect hnode (hkind.trans hkind')
  subscribers s hs := by
    rcases h.subscribed s hs with hold | ⟨source, rfl⟩ | ⟨listener, rfl, hlistens⟩
    · exact happ.subscribers s hold
    · exact trivial
    · exact hlistens

end World.Restored

/-! ## What is run in an application -/

namespace Session

variable {session : Session} {hooks : Hooks} {tags : Tag → Prop} {w w' : World}
  {listens : (Value → Script) → Prop} {E : World → Prop}

/-- Evaluating a node of an application leaves the session alone. -/
theorem IsApplication.isQuiet (h : session.IsApplication tags w) (hooks : Hooks) {id : SignalId}
    {node : Node} (hnode : w.graph.node? id = some node) : session.IsQuiet hooks node.kind := by
  cases hkind : node.kind with
  | cell => exact fun _ => quiet_pure _
  | derived operands compute =>
    exact fun inputs => h.derived id node operands compute hnode hkind inputs hooks
  | watch input effect =>
    exact isQuiet_watch (h.watches id node input effect hnode hkind).asksHostOnly

/-- Evaluating a node that leaves the session alone changes no wiring. -/
theorem evaluate_restores {id : SignalId}
    (hquiet : ∀ node, w.graph.node? id = some node → session.IsQuiet hooks node.kind) :
    (evaluate session hooks id).Leaves (fun _ w' => Restored listens w w') E w := by
  refine leaves_bind.2 (leaves_get.2 ?_)
  split
  · exact leaves_pure.2 (.refl w)
  · rename_i node hnode
    split
    · exact leaves_pure.2 (.refl w)
    · refine leaves_bind.2 (evaluateOn_cases (fun _ _ => leaves_pure.2 (.refl w)) fun inputs _ => ?_)
      refine (hquiet node (Graph.node_eq_ok.1 hnode) inputs).leaves fun result document journal _ => ?_
      have hcomputed :
          Restored listens w { w.begin (.evaluating id inputs) with document, journal } :=
        .trans (.of_begin w _) (.of_host _ document journal)
      cases result with
      | error interrupt => exact leaves_pure.2 hcomputed
      | ok value =>
        exact settleNode_leaves (fun graph hstore => hcomputed.trans (.of_store hstore)) fun _ _ =>
          hcomputed

theorem evaluateAll_restores (ids : List SignalId)
    (happ : session.IsApplication tags w) : (evaluateAll session hooks ids).Leaves
      (fun _ w' => Restored (ReactsWith tags) w w') E w := by
  refine evaluateAll_keeps session (I := fun _ w' => Restored (ReactsWith tags) w w')
    (fun hbefore _ => ?_) (fun _ hbefore => hbefore.trans (.of_host _ _ _))
    (fun hbefore _ => hbefore) (.refl w)
  have hquiet := hbefore.isApplication happ
  exact (evaluate_restores fun node hnode => hquiet.isQuiet hooks hnode).mono
    fun _ _ hevaluated => hbefore.trans hevaluated

/-- A pass changes no wiring. -/
theorem propagate_restores (roots : List SignalId) (happ : session.IsApplication tags w) :
    (propagate session hooks roots).Leaves (fun _ w' => Restored (ReactsWith tags) w w') E w := by
  refine propagate_leaves (fun _ => .refl w) fun _ => ?_
  have hbegun : Restored (ReactsWith tags) w
      ((w.report (passEvent w.graph roots)).begin (.propagating roots)) :=
    (Restored.of_host w w.document _).trans (.of_begin _ _)
  exact (evaluateAll_restores _ (hbegun.isApplication happ)).mono fun _ _ hrest =>
    hbegun.trans hrest

theorem storeReduced_restores (target : SignalId) (next : Except Failure Value) :
    (storeReduced target next).Leaves (fun _ w' => Restored listens w w') E w := by
  cases next with
  | error failure => exact leaves_pure.2 (.refl w)
  | ok value =>
    refine write_leaves (fun graph hstore => ?_) fun _ _ => .refl w
    exact (Restored.of_store hstore).trans (.of_begin _ _)

/-- Of a job that is run as a reaction nothing is left, however it ends. -/
theorem reacting_restores
    (htracks : (Calls.reactions tags).Tracks hooks (StaysAside (ReactsWith tags)) fun _ _ => True)
    (hwell : w.toScene.WellFormed) (hsettling : w.settling = true) {job : Job}
    (hjob : job.Reacts tags) : (runJob session hooks job).Leaves
      (fun _ w' => Restored (ReactsWith tags) w w') (fun _ => True) w := by
  have hreaction (activity : Activity) {program : Program} (hprogram : program.Over tags)
      (finish : Except Failure Value → Except Interrupt Value) :
      ((Script.react program fun result => .done (finish result)).exec session hooks).Leaves
        (fun _ w' => Restored (ReactsWith tags) w w') (fun _ => True) (w.begin activity) := by
    have hbegun : Restored (ReactsWith tags) w (w.begin activity) := .of_begin w activity
    have hbegunSettling : (w.begin activity).settling = true := hsettling
    have hbegunWell := hbegun.steps.scene_wellFormed hwell
    exact (htracks.reaction_leaves hbegunSettling hbegunWell hprogram finish).mono
      fun _ _ hreacted => hbegun.trans hreacted
  cases job with
  | fold | node => exact hjob.elim
  | foldProgram target reducer payload =>
    refine runJob_leaves rfl (fun _ => .refl w) fun node _ => ?_
    refine (hreaction (.reducing target node.value payload) (hjob node.value) _).mono
      fun result w₁ hreduced => ?_
    exact (storeReduced_restores target _).mono fun _ _ hstored => hreduced.trans hstored
  | listener react payload =>
    obtain ⟨program, finish, hprogram, hscript⟩ := hjob payload
    refine runJob_listener_leaves ?_
    rw [hscript]
    exact (hreaction (.listening payload) hprogram finish).mono fun _ w₁ hlistened _ => hlistened

/-- A reducer that leaves the session alone changes its cell at most. -/
theorem folding_restores {target : SignalId} {reducer : Value → Value → Script} {payload : Value}
    (hquiet : ∀ current, ((reducer current payload).exec session hooks).Quiet) :
    (runJob session hooks (.fold target reducer payload)).Leaves
      (fun _ w' => Restored listens w w') E w := by
  refine runJob_leaves rfl (fun _ => .refl w) fun node _ => ?_
  refine (hquiet node.value).leaves fun result document journal _ => ?_
  have hreduced :
      Restored listens w { w.begin (.reducing target node.value payload) with document, journal } :=
    .trans (.of_begin w _) (.of_host _ document journal)
  exact (storeReduced_restores target _).mono fun _ _ hstored => hreduced.trans hstored

/-- A job of an application: its reducer leaves the session alone, or it runs a program as a
reaction. -/
def Fits (session : Session) (hooks : Hooks) (tags : Tag → Prop) (job : Job) : Prop :=
  job.Reacts tags ∨ ∃ target reducer payload, job = .fold target reducer payload ∧
    ∀ current, ((reducer current payload).exec session hooks).Quiet

/-- A batch in an application upholds that the wiring is that of the start. -/
theorem upholds_restored {w₀ : World}
    (htracks : (Calls.reactions tags).Tracks hooks (StaysAside (ReactsWith tags)) fun _ _ => True)
    (hwell : w₀.toScene.WellFormed) (happ : session.IsApplication tags w₀)
    (hsettling : w₀.settling = true) : session.Upholds hooks (session.Fits hooks tags) (fun _ => True)
      (Restored (ReactsWith tags) w₀) where
  wellFormed h := h.steps.scene_wellFormed hwell
  settling h := h.settling_eq.trans hsettling
  logged h hlogs := by
    obtain ⟨journal, rfl⟩ := hlogs
    exact h.trans (.of_host _ _ journal)
  applied h change := h.trans (.of_begin _ _)
  dequeued h queue := h.trans (.of_wiring (.single (.enqueue _ queue)) rfl (.refl _) fun _ => rfl)
  counted h hdeliver := by
    refine h.trans (.of_wiring (.single (.deliver hdeliver)) rfl (.refl _) ?_)
    exact (Hub.deliver_spec hdeliver).2.1
  served := by
    intro w source subscribers hub h hdeliver s hs payload job hserved
    rw [Hub.subscribers_deliver hdeliver] at hs
    have haccepts (hplace : s.place? = none) : session.Accepts tags s :=
      (h.isApplication happ).subscribers s (Hub.subscribed_of_reached hs hplace)
    cases s with
    | fold target reducer =>
      obtain rfl := Option.some.inj (hserved.resolve_right (by simp [Subscriber.listening?]))
      exact .inr ⟨target, reducer, payload, rfl, fun current => haccepts rfl current payload hooks⟩
    | foldProgram target reducer =>
      obtain rfl := Option.some.inj (hserved.resolve_right (by simp [Subscriber.listening?]))
      exact .inl fun current => haccepts rfl current payload
    | listener react =>
      obtain rfl := Option.some.inj (hserved.resolve_left (by simp [Subscriber.reducing?]))
      exact .inl (haccepts rfl)
    | forward => simp [Subscriber.reducing?, Subscriber.listening?] at hserved
  ran h hreacts hfits hran := by
    have hnow := h.steps.scene_wellFormed hwell
    rcases hfits with hreacts | ⟨target, reducer, payload, rfl, hquiet⟩
    · have hnowSettling := h.settling_eq.trans hsettling
      exact h.trans ((reacting_restores htracks hnow hnowSettling hreacts).of_eq_some hran)
    · exact h.trans ((folding_restores (E := fun _ => True) hquiet).of_eq_some hran)
  passed h _ hran _ :=
    h.trans ((propagate_restores (E := fun _ => True) _ (h.isApplication happ)).of_eq_some hran)

/-- When changes have been settled in an application, its wiring is as before. -/
theorem Settles.restored {w₀ w₁ : World} {change : Change} {result : Except Failure Unit}
    (h : session.Settles hooks w₀ change w₁ result w') (hcalm : w₁.Calm)
    (hcells : ∀ cell ∈ change.roots, w₁.graph.OnlyEver (· = .cell) cell)
    (htracks : (Calls.reactions tags).Tracks hooks (StaysAside (ReactsWith tags)) fun _ _ => True)
    (hworks : Tracks hooks WorksOn fun _ _ => True) (hwell : w₁.toScene.WellFormed)
    (happ : session.IsApplication tags w₁) : Restored (ReactsWith tags) w₁ w' := by
  have hbegun : session.IsApplication tags { w₁ with settling := true } :=
    ⟨happ.derived, happ.watches, happ.subscribers⟩
  have hbegunWell : Scene.WellFormed { w₁.toScene with settling := true } :=
    ⟨hwell.graph, hwell.targets⟩
  obtain ⟨last, taken, hlast, -, -, hsettled⟩ :=
    h.upheld (upholds_restored htracks hbegunWell hbegun rfl) hworks (fun _ => trivial) hcalm.2 hcells
      (.refl _) fun _ _ => trivial
  have hsteps : Steps w₁ w' := by
    have hstart : Steps w₁ { w₁ with settling := true } := .single (.settling w₁ true)
    rw [hlast]
    exact ((hstart.trans hsettled.steps).tail (.settling last false)).tail (.host _ _ _)
  rw [hlast] at hsteps ⊢
  exact ⟨hcalm.1.symm, hsteps, hsettled.wiring_eq, hsettled.writers_eq, hsettled.subscribed⟩

/-- An occurrence leaves the wiring of an application as it was. -/
theorem fire_restores {level : Nat} {source : SourceId} {payload : Value}
    {result : Except Failure Unit} (hmakes : session.Makes (.reactions tags))
    (hfire : Exec.fire (session.hooksAt level) source payload w = (some result, w'))
    (hcalm : w.Calm) (hwell : w.toScene.WellFormed) (happ : session.IsApplication tags w) :
    Restored (ReactsWith tags) w w' := by
  have hleaves : ((Call.fire source payload).exec (session.hooksAt level)).Leaves
      (fun _ w' => Restored (ReactsWith tags) w w') (fun _ => True) w := by
    refine Call.exec_leaves _ (fun _ _ => .refl w) fun w₁ haccepted => ?_
    refine (request_settles hcalm haccepted).imp (fun result w' hsettles => ?_) fun _ _ => trivial
    rcases Call.accept_eq_ok haccepted with ⟨_, _, _, hset, -⟩ | ⟨_, _, _, -, -, rfl⟩
    · cases hset
    · exact hsettles.restored hcalm (fun cell hcell => absurd hcell List.not_mem_nil)
        (session.tracks_staysAside id hmakes _) (session.tracks_worksOn _) hwell happ
  exact hleaves.of_eq_some hfire

/-- So does any sequence of occurrences. -/
theorem Fires.restored {requested : List Change} (h : session.Fires w requested w')
    (hmakes : session.Makes (.reactions tags)) (hcalm : w.Calm) (hwell : w.toScene.WellFormed)
    (happ : session.IsApplication tags w) : Restored (ReactsWith tags) w w' := by
  induction h with
  | nil w => exact .refl w
  | @cons w w₁ w' level source payload _ _ _ hfire _ _ ih =>
    have hfirst := fire_restores hmakes hfire hcalm hwell happ
    have hcalmly := ((session.tracks_calmly level).fireSource source payload w).of_eq_some hfire
    exact hfirst.trans (ih (hcalmly.2 hcalm) (hfirst.steps.scene_wellFormed hwell)
      (hfirst.isApplication happ))

/-- **Reactions are transient.** Let the instructions of the catalog be handled as the catalog has it.
Take any state that a session can have, now or at any moment of its past, while changes are being
settled, and run a program over the catalog as an effectful reducer or as a listener. However the
program ends, the same nodes exist afterwards as before, each with its kind, its rank, its inputs and
its outputs, and every source has the same subscribers that write cells. So in an application no
sequence of occurrences changes which signals exist. -/
theorem Visits.reactions_are_transient {visited : World} (h : session.Visits visited)
    (hcatalog : session.HandlesCatalog) :
    (∀ {scene : Scene}, (scene = visited.toScene ∨ ∃ m ∈ visited.past, scene = m.scene.value) →
      ∀ (level : Nat) {w w' : World} {job : Job} {result : Except Failure Unit},
        w.graph = scene.graph → w.hub = scene.hub → w.settling = true → job.Reacts Catalog.Names →
          runJob session (session.hooksAt level) job w = (some result, w') →
            w'.graph.liveIds = w.graph.liveIds ∧
            (∀ id, (w'.graph.node? id).map Graph.wiring = (w.graph.node? id).map Graph.wiring) ∧
            ∀ k, (w'.hub.roads.items k).filter (·.target?.isSome) =
              (w.hub.roads.items k).filter (·.target?.isSome)) ∧
    (visited.settling = false → session.IsApplication Catalog.Names visited →
      ∀ {requested : List Change} {w' : World}, session.Fires visited requested w' →
        w'.graph.liveIds = visited.graph.liveIds) := by
  constructor
  · intro scene hscene level w w' job result hgraph hhub hsettling hjob hran
    have hscene := h.wellFormed_scene hscene
    have hwell : w.toScene.WellFormed := by
      refine ⟨hgraph ▸ hscene.graph, fun hs htarget => ?_⟩
      rw [hgraph]
      rw [hhub] at hs
      exact hscene.targets hs htarget
    have htracks := session.tracks_staysAside id hcatalog.makes level
    have hrestored : Restored (ReactsWith Catalog.Names) w w' :=
      (reacting_restores htracks hwell hsettling hjob).of_eq_some hran
    exact ⟨hrestored.liveIds_eq, hrestored.wiring_eq, hrestored.writers_eq⟩
  · intro hsettling happ requested w' hfires
    exact (hfires.restored hcatalog.makes (h.calm hsettling) h.wellFormed.now happ).liveIds_eq

/-- A session with two instructions of the catalog. -/
private def switching : Session where
  handlers := [("logic.not", Catalog.Logic.handler Catalog.Logic.notRule),
    ("signal.cell", Catalog.Signals.handleCell)]

private theorem switching_handlesCatalog : switching.HandlesCatalog := by
  have hlogic : Catalog.Logic.bundle.handlers ⊆ Catalog.handlers .default :=
    Catalog.bundle_subset_handlers (by simp [Catalog.bundles])
  have hsignals : Catalog.Signals.bundle.handlers ⊆ Catalog.handlers .default :=
    Catalog.bundle_subset_handlers (by simp [Catalog.bundles])
  refine Catalog.handlesCatalog_of_subset .default (List.cons_subset.2 ⟨hlogic ?_,
    List.cons_subset.2 ⟨hsignals ?_, List.nil_subset _⟩⟩)
  · simp [Catalog.Logic.bundle]
  · simp [Catalog.Signals.bundle]

/-- A new cell with the value, and a signal derived from it that is true if the value is false. -/
private def negation (value : Value) : Program :=
  .bind (Catalog.Signals.cell (.value value)) fun cell => Catalog.Logic.not (.value cell)

private theorem negation_over (value : Value) : (negation value).Over Catalog.Names := by
  have hcell : Catalog.Names "signal.cell" := by decide
  have hnot : Catalog.Names "logic.not" := by decide
  refine .bind (.perform hcell ?_ ?_) fun cell => .perform hnot ?_ ?_
  all_goals simp

/-- A cell that keeps the payload, one that is negated by a program, a listener that runs the same
program, and a log of the first cell. -/
private def switches : Script :=
  .ask (.source "clicks") fun (clicks : SourceId) =>
  .fold clicks (.bool false) (fun _ payload => .done (.ok payload)) fun first =>
  .foldProgram clicks (.bool false) (fun current _ => negation current) fun _ =>
  .listen clicks (fun payload => .react (negation payload) fun result =>
    .done (result.mapError Interrupt.aborted)) fun _ =>
  match first with
  | .error failure => .done (.error (.ofFailure failure))
  | .ok cell => .watch (.signal cell) (fun current => Routine.script do
      Routine.report (.logged current)
      return .unit) fun _ => .done (.ok .unit)

/-- What becomes of running the second reducer, and of firing the source. -/
private theorem switches_run : ∃ visited w₁ w₂ since, Visits switching visited ∧
    visited.settling = false ∧ switching.IsApplication Catalog.Names visited ∧
    runJob switching (hooksAt switching 1) (.foldProgram ⟨1⟩ (fun current _ => negation current) .unit)
      { visited with settling := true } = (some (.ok ()), w₁) ∧
    w₁.graph.value ⟨1⟩ = .ok (.bool true) ∧ w₁.graph.slots.size = visited.graph.slots.size + 2 ∧
    Exec.fire (hooksAt switching 3) ⟨0⟩ (.bool true) visited = (some (.ok ()), w₂) ∧
    w₂.past = since ++ visited.past ∧ w₂.graph.slots.size = visited.graph.slots.size + 4 ∧
    visited.graph.liveIds = [⟨0⟩, ⟨1⟩, ⟨2⟩] := by
  rcases hrun : advance switching 0 switches {} with ⟨result, visited⟩
  have hvisits : Visits switching visited := ⟨{}, 0, switches, .start .empty #[], by rw [hrun]⟩
  -- No instruction is handled yet, so any session will do.
  generalize hsession : switching = session at hrun
  cbv at hrun
  subst hsession
  obtain ⟨rfl, hvisited⟩ := Prod.mk.inj hrun
  rcases hjob : runJob switching (hooksAt switching 1)
    (.foldProgram ⟨1⟩ (fun current _ => negation current) .unit) { visited with settling := true }
    with ⟨result, w₁⟩
  have hreduced := hjob
  rw [← hvisited] at hreduced
  cbv at hreduced
  obtain ⟨rfl, rfl⟩ := Prod.mk.inj hreduced
  rcases hfire : Exec.fire (hooksAt switching 3) ⟨0⟩ (.bool true) visited with ⟨result, w₂⟩
  have hfired := hfire
  rw [← hvisited] at hfired
  cbv at hfired
  obtain ⟨rfl, hw₂⟩ := Prod.mk.inj hfired
  have happ : switching.IsApplication Catalog.Names visited := by
    rw [← hvisited]
    refine ⟨fun id node operands compute hnode hkind => ?_, fun id node input effect hnode hkind => ?_,
      fun s hs => ?_⟩
    · have hslot := Graph.mem_slots_of_node? hnode
      simp only [List.mem_cons, List.not_mem_nil, or_false, Option.some.injEq] at hslot
      rcases hslot with rfl | rfl | rfl
      all_goals cases hkind
    · have hslot := Graph.mem_slots_of_node? hnode
      simp only [List.mem_cons, List.not_mem_nil, or_false, Option.some.injEq] at hslot
      rcases hslot with rfl | rfl | rfl
      all_goals cases hkind
      exact .log
    · obtain ⟨source, hsource, hs⟩ := hs
      simp only [List.mem_toArray, List.mem_singleton] at hsource
      subst hsource
      simp only [List.mem_cons, List.not_mem_nil, or_false] at hs
      rcases hs with rfl | rfl | rfl
      · exact fun current payload hooks => quiet_pure _
      · exact fun current payload => negation_over current
      · exact fun payload => ⟨_, _, negation_over payload, rfl⟩
  refine ⟨visited, _, w₂, w₂.past.take (w₂.past.length - visited.past.length), hvisits, ?_, happ, hjob,
    rfl, ?_, hfire, ?_, ?_, ?_⟩
  · rw [← hvisited]
  · rw [← hvisited]
    rfl
  · rw [← hvisited, ← hw₂]
    rfl
  · rw [← hvisited, ← hw₂]
    rfl
  · rw [← hvisited]
    rfl

theorem Visits.reactions_are_transient_switching : ∃ visited w₁ w₂ requested,
    Visits switching visited ∧ switching.HandlesCatalog ∧
    runJob switching (hooksAt switching 1) (.foldProgram ⟨1⟩ (fun current _ => negation current) .unit)
      { visited with settling := true } = (some (.ok ()), w₁) ∧
    w₁.graph.value ⟨1⟩ = .ok (.bool true) ∧ w₁.graph.slots.size = visited.graph.slots.size + 2 ∧
    w₁.graph.liveIds = [⟨0⟩, ⟨1⟩, ⟨2⟩] ∧ switching.IsApplication Catalog.Names visited ∧
    Fires switching visited requested w₂ ∧ w₂.graph.slots.size = visited.graph.slots.size + 4 ∧
    w₂.graph.liveIds = [⟨0⟩, ⟨1⟩, ⟨2⟩] := by
  obtain ⟨visited, w₁, w₂, since, hvisits, hsettling, happ, hjob, hvalue, hsize, hfire, hpast, hsize',
    hlive⟩ := switches_run
  obtain ⟨hreaction, hoccurrences⟩ := hvisits.reactions_are_transient switching_handlesCatalog
  have hreacts : (Job.foldProgram ⟨1⟩ (fun current _ => negation current) .unit).Reacts
      Catalog.Names := fun current => negation_over current
  have hreduced := (hreaction (.inl rfl) 1 (w := { visited with settling := true }) rfl rfl rfl
    hreacts hjob).1
  have hfires := Fires.cons hfire hpast (.nil w₂)
  exact ⟨visited, w₁, w₂, _, hvisits, switching_handlesCatalog, hjob, hvalue, hsize,
    hreduced.trans hlive, happ, hfires, hsize', (hoccurrences hsettling happ hfires).trans hlive⟩

end Session

end EffectGraph
