import EffectGraph.Proofs.Catalog.Answers
import EffectGraph.Proofs.Session.Telling
import EffectGraph.Proofs.Session.Watching

/-!
# Properties that follow a value

A property that a program has set to a value with signals is written again by a watch of the value
(`Binding`). Every write of a property is noted in the journal. So if there are no more such notes than
the watch was evaluated, then nothing else has written the property, and the document shows what the
watch was last given (`Binding.Shows`). Between batches this is the value as it is now.
-/

namespace EffectGraph

open Exec World

/-- The property that is written, if the entry says so. -/
def Entry.written? : Entry → Option (ElementId × String)
  | .event (.propertyWritten element property _) => some (element, property)
  | _ => none

/-- A watch that keeps a property of an element at a value. -/
structure Binding where
  watch : SignalId
  value : Value
  element : ElementId
  property : String

namespace Binding

variable {b : Binding} {earlier since later : List Moment} {w w₁ w' : World} {s s₁ s' : Scene}

/-- The watch, with its input and its effect. -/
def watching (b : Binding) : Watching where
  id := b.watch
  input := b.value
  effect := Catalog.Elements.writing b.element b.property

/-- What the property is. -/
def shown (b : Binding) (scene : Scene) : Except Failure Value :=
  scene.document.property b.element b.property

/-- How often the property was written. -/
def writes (b : Binding) (scene : Scene) : Nat :=
  scene.journal.countP fun entry => entry.written? = some (b.element, b.property)

/-- How often the watch was evaluated. -/
def runs (b : Binding) (since : List Moment) : Nat := (b.watching.given since).length

/-- In its slot there is nothing but the watch, now and later, and the element exists. -/
structure Stands (b : Binding) (w : World) : Prop extends b.watching.Stands w where
  element : b.element.index < w.document.elements.size

/-! ## What is noted and what is shown -/

/-- Each time that the watch was evaluated since, the property was written. If it was not written more
often, it is what the watch was last given. A watch that does not exist does not come back. -/
structure Shows (b : Binding) (since : List Moment) (s s' : Scene) : Prop where
  writes_le : b.writes s + b.runs since ≤ b.writes s'
  shown_eq : b.writes s' ≤ b.writes s + b.runs since → b.shown s' = b.watching.seen (b.shown s) since
  live_before : s'.graph.contains b.watch → s.graph.contains b.watch

theorem runs_append (later earlier : List Moment) :
    b.runs (later ++ earlier) = b.runs later + b.runs earlier := by
  rw [runs, Watching.given_append, List.length_append]
  rfl

theorem runs_eq_zero (h : ∀ m ∈ since, b.watching.given? m = none) : b.runs since = 0 := by
  rw [runs, Watching.given_eq_nil h]
  rfl

namespace Shows

theorem trans (h : b.Shows since s s₁) (h' : b.Shows later s₁ s') :
    b.Shows (later ++ since) s s' := by
  have hle := h.writes_le
  have hle' := h'.writes_le
  refine ⟨by rw [runs_append]; omega, fun hother => ?_,
    fun hlive => h.live_before (h'.live_before hlive)⟩
  rw [runs_append] at hother
  rw [Watching.seen_append, ← h.shown_eq (by omega)]
  exact h'.shown_eq (by omega)

/-- Without writes the property stays. -/
theorem of_same (hgiven : ∀ m ∈ since, b.watching.given? m = none)
    (hwrites : b.writes s ≤ b.writes s') (hshown : b.writes s' ≤ b.writes s → b.shown s' = b.shown s)
    (hlive : s'.graph.contains b.watch → s.graph.contains b.watch) : b.Shows since s s' := by
  have hnone : b.runs since = 0 := runs_eq_zero hgiven
  refine ⟨by omega, fun hother => ?_, hlive⟩
  rw [Watching.seen_of_given_eq_nil (Watching.given_eq_nil hgiven)]
  exact hshown (by omega)

theorem refl (b : Binding) (s : Scene) : b.Shows [] s s :=
  of_same (fun _ hm => absurd hm List.not_mem_nil) le_rfl (fun _ => rfl) fun hlive => hlive

end Shows

/-- At the moment the watch exists if it is evaluated, and the signals of the value exist if the watch
does. -/
def Attaches (b : Binding) (m : Moment) : Prop :=
  (b.watching.given? m ≠ none → m.scene.value.graph.contains b.watch) ∧
    (m.scene.value.graph.contains b.watch → ∀ k ∈ b.watching.signals, m.scene.value.graph.contains k)

/-- From one moment to the next the property is written and shown like this. -/
def Chain (b : Binding) (s : Scene) : List Moment → Scene → Prop
  | [], s' => b.Shows [] s s'
  | m :: earlier, s' =>
    Chain b s earlier m.scene.value ∧ b.Shows [m] m.scene.value s' ∧ b.Attaches m

namespace Chain

theorem extend (h : b.Chain s since s₁) (h' : b.Shows [] s₁ s') : b.Chain s since s' := by
  cases since with
  | nil => exact Shows.trans h h'
  | cons m earlier => exact ⟨h.1, h.2.1.trans h', h.2.2⟩

theorem trans (h : b.Chain s since s₁) (h' : b.Chain s₁ later s') : b.Chain s (later ++ since) s' := by
  induction later generalizing s' with
  | nil => exact h.extend h'
  | cons m rest ih => exact ⟨ih h'.1, h'.2⟩

theorem shows (h : b.Chain s since s') : b.Shows since s s' := by
  induction since generalizing s' with
  | nil => exact h
  | cons m earlier ih => exact (ih h.1).trans h.2.1

/-- The same can be said up to a moment, and from it on. -/
theorem split {m : Moment} (h : b.Chain s (later ++ m :: earlier) s') :
    b.Chain s earlier m.scene.value ∧ b.Shows (later ++ [m]) m.scene.value s' := by
  induction later generalizing s' with
  | nil => exact ⟨h.1, h.2.1⟩
  | cons last rest ih =>
    obtain ⟨hbefore, hafter⟩ := ih h.1
    exact ⟨hbefore, hafter.trans h.2.1⟩

theorem attaches (h : b.Chain s since s') : ∀ m ∈ since, b.Attaches m := by
  induction since generalizing s' with
  | nil => exact fun m hm => absurd hm List.not_mem_nil
  | cons last earlier ih => exact List.forall_mem_cons.2 ⟨h.2.2, ih h.1⟩

/-- If only the watch has written the property by the end, then only it had by an earlier moment. -/
theorem writes_le_earlier (later : List Moment) {m : Moment}
    (h : b.Chain s (later ++ m :: earlier) s')
    (halone : b.writes s' ≤ b.writes s + b.runs (later ++ m :: earlier)) :
    b.writes m.scene.value ≤ b.writes s + b.runs earlier := by
  have hafter := h.split.2.writes_le
  rw [runs_append] at hafter halone
  have hcons : b.runs (m :: earlier) = b.runs [m] + b.runs earlier := runs_append [m] earlier
  omega

/-- While the watch does not exist, the property stays. -/
theorem stays (h : b.Chain s since s') (halone : b.writes s' ≤ b.writes s + b.runs since) :
    (s' :: since.map (·.scene.value)).Pairwise fun after before => ¬ before.graph.contains b.watch →
      ¬ after.graph.contains b.watch ∧ b.shown after = b.shown before := by
  induction since generalizing s' with
  | nil => exact List.pairwise_singleton _ _
  | cons m earlier ih =>
    have hrest := ih h.1 (writes_le_earlier [] h halone)
    have hle := h.1.shows.writes_le
    have hcons : b.runs (m :: earlier) = b.runs [m] + b.runs earlier := runs_append [m] earlier
    obtain ⟨-, hlast, hgiven, -⟩ := h
    -- If the watch does not exist when something begins, it is not evaluated then.
    have hstep (hgone : ¬ m.scene.value.graph.contains b.watch) :
        ¬ s'.graph.contains b.watch ∧ b.shown s' = b.shown m.scene.value := by
      have hnone : ∀ k ∈ [m], b.watching.given? k = none := by
        intro k hk
        rw [List.mem_singleton.1 hk]
        exact Decidable.byContradiction fun hsome => hgone (hgiven hsome)
      refine ⟨fun hlive => hgone (hlast.live_before hlive), (hlast.shown_eq (by omega)).trans ?_⟩
      exact Watching.seen_of_given_eq_nil (Watching.given_eq_nil hnone)
    refine List.pairwise_cons.2 ⟨fun before hbefore hgone => ?_, hrest⟩
    rcases List.mem_cons.1 hbefore with rfl | hbefore
    · exact hstep hgone
    · obtain ⟨hgone', hshown⟩ := (List.pairwise_cons.1 hrest).1 before hbefore hgone
      exact ⟨(hstep hgone').1, (hstep hgone').2.trans hshown⟩

end Chain

/-- One state leads to another, and what happens to the property meanwhile is accounted for. -/
def Accounts (b : Binding) (w w' : World) : Prop :=
  Steps w w' ∧ (b.Stands w → b.element.index < w'.document.elements.size ∧
    ∃ since, w'.past = since ++ w.past ∧ b.Chain w.toScene since w'.toScene)

theorem Stands.accounts (h : b.Stands w) (haccounts : b.Accounts w w') : b.Stands w' :=
  ⟨h.toStands.steps haccounts.1, (haccounts.2 h).1⟩

theorem composes_accounts (b : Binding) : Composes b.Accounts fun _ _ => True where
  refl w := ⟨.refl, fun h => ⟨h.element, [], rfl, .refl b w.toScene⟩⟩
  trans h h' := by
    refine ⟨h.1.trans h'.1, fun hw => ?_⟩
    obtain ⟨-, since, hpast, hchain⟩ := h.2 hw
    obtain ⟨helement, later, hpast', hchain'⟩ := h'.2 (hw.accounts h)
    refine ⟨helement, later ++ since, ?_, hchain.trans hchain'⟩
    rw [hpast', hpast, List.append_assoc]
  cut _ := trivial
  trans_cut _ _ := trivial

/-- When something begins, the signals of the value exist if the watch does. -/
theorem Stands.attaches (h : b.Stands w) {activity : Activity}
    (hgiven : b.watching.given? ⟨activity, .of w.toScene⟩ ≠ none → w.graph.contains b.watch) :
    b.Attaches ⟨activity, .of w.toScene⟩ := by
  have hscene : (Ghost.of w.toScene).value = w.toScene := Ghost.value_of _
  unfold Attaches
  rw [hscene]
  exact ⟨hgiven, fun hlive k hk => (h.signals_older hlive k hk).1⟩

/-- Nothing happens that is remembered, and if the property is not written it stays. -/
theorem accounts_of_past (hsteps : Steps w w') (hpast : w'.past = w.past)
    (helement : w.document.elements.size ≤ w'.document.elements.size)
    (hwrites : b.writes w.toScene ≤ b.writes w'.toScene)
    (hshown : b.element.index < w.document.elements.size →
      b.writes w'.toScene ≤ b.writes w.toScene → b.shown w'.toScene = b.shown w.toScene) :
    b.Accounts w w' := by
  refine ⟨hsteps, fun h => ⟨h.element.trans_le helement, [], hpast, ?_⟩⟩
  exact Shows.of_same (fun _ hm => absurd hm List.not_mem_nil) hwrites (hshown h.element)
    (h.watch.contains_before hsteps.follows)

theorem writes_log_le (b : Binding) (w : World) (entry : Entry) :
    b.writes w.toScene ≤ b.writes (w.log entry).toScene := by
  have hpush : b.writes (w.log entry).toScene = b.writes w.toScene +
      if (entry.written? = some (b.element, b.property) : Bool) then 1 else 0 := Array.countP_push
  omega

theorem writes_log_of_written {entry : Entry}
    (hwritten : entry.written? = some (b.element, b.property)) :
    b.writes (w.log entry).toScene = b.writes w.toScene + 1 := by
  have hpush : b.writes (w.log entry).toScene = b.writes w.toScene +
      if (entry.written? = some (b.element, b.property) : Bool) then 1 else 0 := Array.countP_push
  rw [hpush, if_pos (by simpa using hwritten)]

/-- If it is not the watch that is evaluated, the property stays. -/
theorem accounts_begin {activity : Activity}
    (hother : b.watching.given? ⟨activity, .of w.toScene⟩ = none) :
    b.Accounts w (w.begin activity) := by
  have hscene : (Ghost.of w.toScene).value = w.toScene := Ghost.value_of _
  refine ⟨steps_begin w activity, fun h => ⟨h.element, [_], rfl, ?_, ?_, h.attaches (absurd hother)⟩⟩
  · rw [hscene]
    exact Shows.refl b w.toScene
  · rw [hscene]
    refine .of_same (fun m hm => ?_) (b.writes_log_le _ _) (fun _ => rfl) fun hlive => hlive
    rw [List.mem_singleton.1 hm]
    exact hother

theorem accounts_property (w : World) (id : ElementId) (name : String) (value : Value) :
    b.Accounts w (w.setProperty id name value).2 := by
  unfold World.setProperty
  cases hset : w.document.setProperty id name value with
  | error failure => exact b.composes_accounts.refl w
  | ok document =>
    have hsteps : Steps w { w.report (.propertyWritten id name value) with document } :=
      .single (.host w _ _)
    obtain ⟨element, helement⟩ : ∃ element, w.document.get id = .ok element := by
      cases hget : w.document.get id with
      | error failure => simp [Document.setProperty, hget, Except.map] at hset
      | ok element => exact ⟨element, rfl⟩
    obtain ⟨document', hset', hsame, hproperty⟩ := Document.exists_setProperty helement name value
    obtain rfl := Except.ok.inj (hset.symm.trans hset')
    refine accounts_of_past hsteps rfl hsame.size_eq.ge (b.writes_log_le _ _) fun _ hwrites => ?_
    have hother : ¬ (b.element = id ∧ b.property = name) := by
      rintro ⟨helement, hname⟩
      have hwritten : (Entry.event (.propertyWritten id name value)).written? =
          some (b.element, b.property) := by rw [helement, hname]; rfl
      have hnoted := writes_log_of_written (w := w) hwritten
      exact absurd (hnoted ▸ hwrites) (by omega)
    exact (hproperty b.element b.property).trans (if_neg hother)

theorem tells_accounts (b : Binding) : Tells b.Accounts fun _ _ => True where
  toComposes := b.composes_accounts
  follows h := h.1.follows
  still {w w'} hsteps hdocument hjournal hpast := by
    have hwrites : b.writes w'.toScene = b.writes w.toScene := by rw [writes, writes, hjournal]
    refine accounts_of_past hsteps hpast (by rw [hdocument]) hwrites.ge fun _ _ => ?_
    rw [shown, shown, hdocument]
  log w entry :=
    accounts_of_past (.single (step_log w entry)) rfl le_rfl (b.writes_log_le w entry) fun _ _ => rfl
  element w tagName domId := by
    refine accounts_of_past (.single (.host w _ _)) rfl ?_ le_rfl fun hlt _ => ?_
    · simp [Document.create]
    · have hget : (w.document.create tagName domId).2.get b.element = w.document.get b.element := by
        simp only [Document.create, Document.get, Array.getElem?_push, if_neg hlt.ne]
      unfold shown Document.property
      rw [hget]
  property := accounts_property
  begin {w activity} hactivity := by
    refine accounts_begin ?_
    cases activity with
    | evaluating id inputs => cases hactivity
    | queued | applied | wrote | reducing | propagating | listening => rfl
  evaluating {w w₁ id inputs} hbefore hnew := by
    refine ⟨hbefore.1.trans (steps_begin _ _), fun h => ?_⟩
    have hother : id ≠ b.watch := by
      rintro rfl
      exact absurd h.watch.1 (not_lt.2 hnew)
    have hbegun : b.Accounts w₁ (w₁.begin (.evaluating id inputs)) := accounts_begin (if_neg hother)
    exact (b.composes_accounts.trans hbefore hbegun).2 h

end Binding

namespace Session

open Binding

variable {session : Session} {hooks : Hooks} {b : Binding} {w : World}

/-- Writing a property changes the document and is noted. -/
theorem writing_leaves {element : ElementId} {name : String} {value : Value}
    {Q : Except Interrupt Value → World → Prop} {E : World → Prop}
    (hwritten : ∀ document, w.document.setProperty element name value = .ok document →
      Q (.ok .unit) { w.report (.propertyWritten element name value) with document })
    (hfailed : ∀ failure, w.document.setProperty element name value = .error failure →
      Q (.error (.ofFailure failure)) w) :
    ((Catalog.Elements.writing element name value).exec session hooks).Leaves Q E w := by
  refine leaves_bind.2 (leaves_modifyGet.2 ?_)
  simp only [World.answer, World.setProperty]
  cases hset : w.document.setProperty element name value with
  | error failure => exact hfailed failure hset
  | ok document => exact hwritten document hset

/-- When the watch is evaluated, it writes the property. -/
theorem evaluate_accounts (h : b.Stands w) :
    (evaluate session hooks b.watch).Leaves (fun _ w' => b.element.index < w'.document.elements.size ∧
      ∃ since, w'.past = since ++ w.past ∧ b.Chain w.toScene since w'.toScene) (fun _ => True) w := by
  have hunchanged : b.element.index < w.document.elements.size ∧
      ∃ since, w.past = since ++ w.past ∧ b.Chain w.toScene since w.toScene :=
    ⟨h.element, [], rfl, .refl b w.toScene⟩
  refine leaves_bind.2 (leaves_get.2 ?_)
  split
  · exact leaves_pure.2 hunchanged
  rename_i node hnode
  have hself := Graph.node_eq_ok.1 hnode
  have hlive : w.graph.contains b.watch := Graph.contains_iff.2 ⟨node, hself⟩
  obtain ⟨value, hvalue, hinputs⟩ := h.exists_resolve hlive
  rw [h.kind_eq hself]
  refine leaves_bind.2 (evaluateOn_cases (fun failure _ => leaves_pure.2 hunchanged)
    fun inputs hgiven => ?_)
  obtain rfl := Except.ok.inj (hinputs.symm.trans hgiven)
  obtain ⟨element, helement⟩ : ∃ element, w.document.get b.element = .ok element :=
    ⟨_, Document.get_eq_ok.2 (Array.getElem?_eq_getElem h.element)⟩
  obtain ⟨document, hset, hsame, hproperty⟩ :=
    Document.exists_setProperty helement b.property value
  have hwritten (w' : World) (hpast : w'.past = ⟨.evaluating b.watch [value], .of w.toScene⟩ :: w.past)
      (hdocument : w'.document = document) (hwrites : b.writes w.toScene + 1 ≤ b.writes w'.toScene) :
      b.element.index < w'.document.elements.size ∧
        ∃ since, w'.past = since ++ w.past ∧ b.Chain w.toScene since w'.toScene := by
    have hscene : (Ghost.of w.toScene).value = w.toScene := Ghost.value_of _
    have hgiven : b.watching.given [⟨.evaluating b.watch [value], .of w.toScene⟩] = [value] :=
      List.filterMap_cons_some (if_pos rfl)
    refine ⟨by rw [hdocument, hsame.size_eq]; exact h.element, [_], hpast, ?_,
      ⟨?_, fun _ => ?_, fun _ => ?_⟩, h.attaches fun _ => hlive⟩
    · rw [hscene]
      exact Shows.refl b w.toScene
    · rw [hscene, runs, hgiven]
      exact hwrites
    · rw [Watching.seen, hgiven, shown, hdocument, hproperty, if_pos ⟨rfl, rfl⟩]
      rfl
    · rw [hscene]
      exact hlive
  have hcount : b.writes w.toScene + 1 ≤ b.writes
      ((w.begin (.evaluating b.watch [value])).report
        (.propertyWritten b.element b.property value)).toScene := by
    have hbegun : b.writes w.toScene ≤ b.writes (w.begin (.evaluating b.watch [value])).toScene :=
      b.writes_log_le { w with past := _ :: w.past } _
    have hnoted : b.writes ((w.begin (.evaluating b.watch [value])).report
        (.propertyWritten b.element b.property value)).toScene =
          b.writes (w.begin (.evaluating b.watch [value])).toScene + 1 := writes_log_of_written rfl
    exact (Nat.add_le_add_right hbegun 1).trans hnoted.ge
  refine leaves_bind.2 (writing_leaves (fun document' hset' => ?_) fun failure hfailed => ?_)
  · obtain rfl := Except.ok.inj (hset.symm.trans hset')
    exact leaves_pure.2 (settleNode_leaves (fun graph hstore => hwritten _ rfl rfl hcount)
      fun _ _ => hwritten _ rfl rfl hcount)
  · cases hset.symm.trans hfailed

/-- Whatever a session does, the property is accounted for. -/
theorem told_accounts (session : Session) (b : Binding) (level : Nat) :
    (session.hooksAt level).Told b.Accounts fun _ _ => True := by
  refine session.hooksAt_told b.tells_accounts (fun level htold id => ?_) level
  by_cases hid : id = b.watch
  · subst hid
    intro w
    have hsteps := stepwise_evaluate session (session.hooksAt_stepwise level) b.watch w
    by_cases h : b.Stands w
    · exact (hsteps.and (evaluate_accounts h)).imp
        (fun _ _ hdone => ⟨hdone.1, fun _ => hdone.2⟩) fun _ _ => trivial
    · exact hsteps.imp (fun _ _ hdone => ⟨hdone, fun hw => absurd hw h⟩) fun _ _ => trivial
  · exact evaluate_told session htold (accounts_begin (if_neg hid))

/-- Whatever the host does later, the property is accounted for. -/
theorem Later.accounts {w w' : World} (h : session.Later w w') (b : Binding) : b.Accounts w w' := by
  induction h with
  | refl => exact b.composes_accounts.refl w
  | tail _ hrun ih =>
    obtain ⟨level, script, result, hexec⟩ := hrun
    have hscript := (session.told_accounts b level).exec session script
    exact b.composes_accounts.trans ih
      ((hscript _).of_eq_some (session.advance_eq_of_execute_eq hexec))

/-! ## Setting a property -/

end Session

/-- A run of one instruction without programs hands it over in its first step. -/
theorem Program.run_perform_yielded {σ : Type} {interpreter : Interpreter σ} {limit : Option Nat}
    {i : Instruction} {value : Value} {steps : Nat} {s s' : σ} (hvalues : i.pending? = none)
    (h : (Program.perform i).run interpreter limit s = ⟨.yielded value, steps, s'⟩) :
    interpreter 1 i s = (some (.ok value), s') := by
  unfold Program.run at h
  rw [Machine.run_eq] at h
  unfold Machine.step at h
  cases hlimit : Machine.exceeded? limit 1 with
  | some limit =>
    simp only [hlimit] at h
    cases h
  | none =>
    simp only [hlimit, Unfolding.split, Program.split, Program.splitOnto, Machine.dispatch,
      Machine.perform, Unfolding.pending?, hvalues] at h
    rcases hcall : interpreter 1 i s with ⟨_ | result, s₁⟩
    · simp only [Nat.zero_add, hcall] at h
      cases h
    · simp only [Nat.zero_add, hcall] at h
      cases result with
      | ok found =>
        cases h
        rfl
      | error interrupt => cases interrupt <;> cases h

theorem Program.run_perform_of_ok {σ : Type} {interpreter : Interpreter σ} {i : Instruction}
    {value : Value} {s s' : σ} (hvalues : i.pending? = none)
    (h : interpreter 1 i s = (some (.ok value), s')) :
    (Program.perform i).run interpreter none s = ⟨.yielded value, 1, s'⟩ := by
  unfold Program.run
  rw [Machine.run_eq]
  unfold Machine.step
  simp only [Machine.exceeded?, Unfolding.split, Program.split, Program.splitOnto, Machine.dispatch,
    Machine.perform, Unfolding.pending?, hvalues, Nat.zero_add, h]
  rfl

/-- If the run of an instruction without programs ends well, so does the instruction. -/
theorem Exec.runProgram_perform {settings : Settings}
    {interpreter : Instruction → Exec (Except Interrupt Value)} {i : Instruction} {value : Value}
    {w w' : World} (hvalues : i.pending? = none)
    (h : runProgram settings interpreter (.perform i) w = (some (.ok value), w')) :
    ∃ journal w₁, interpreter i { w with journal } = (some (.ok value), w₁) ∧
      ∃ journal', w' = { w₁ with journal := journal' } := by
  have hget : (get : Exec World) w = (some w, w) := rfl
  rcases hrun : (Program.perform i).run (announced settings interpreter) settings.stepLimit w with
    ⟨outcome, steps, last⟩
  unfold runProgram at h
  rw [bind_eq_of_eq_some hget, hrun] at h
  cases outcome with
  | yielded found =>
    cases h
    have hcall := Program.run_perform_yielded hvalues hrun
    unfold announced at hcall
    dsimp only at hcall
    split at hcall
    · exact ⟨_, last, hcall, _, rfl⟩
    · exact ⟨w.journal, last, hcall, _, rfl⟩
  | raised | exhausted | aborted | unanswered => cases h

namespace Binding

variable {b : Binding} {w w' : World}

/-- Between batches: the watch exists, and the property is what the value is now. -/
structure Bound (b : Binding) (w : World) : Prop where
  stands : b.Stands w
  calm : w.Calm
  live : w.graph.contains b.watch
  shown_eq : b.shown w.toScene = w.graph.resolve b.value

theorem Bound.of_journal (h : b.Bound w) (journal : Array Entry) : b.Bound { w with journal } where
  stands :=
    { wellFormed := ⟨h.stands.wellFormed.graph, h.stands.wellFormed.targets⟩
      wired := h.stands.wired
      watch := h.stands.watch
      element := h.stands.element }
  calm := h.calm
  live := h.live
  shown_eq := h.shown_eq

end Binding

namespace Session

open Binding

variable {session : Session} {hooks : Hooks} {value : Value} {element : ElementId} {property : String}
  {w w' : World}

/-- A new watch of the value has written the property. -/
theorem bound_of_created {id : SignalId} {grown graph : Graph} {inputs : List Value} {stored : Value}
    {document : Document} (hwell : w.toScene.WellFormed) (hwired : w.graph.Wired) (hcalm : w.Calm)
    (hinsert : w.graph.insert (.watch value (Catalog.Elements.writing element property))
      (value.collectSignals []) = .ok (id, grown))
    (hinputs : grown.inputsOf (.watch value (Catalog.Elements.writing element property)) = .ok inputs)
    (hset : w.document.setProperty element property (inputs.headD .unit) = .ok document)
    (hstore : grown.settle id stored = .ok graph) (journal : Array Entry) (past : List Moment) :
    Bound ⟨id, value, element, property⟩ { w with graph, document, journal, past } := by
  let b : Binding := ⟨id, value, element, property⟩
  have hgrows : Steps w { w with graph := grown } := .single (.insert (by simp) hinsert)
  have hstores : Steps { w with graph := grown } { w with graph } := .single (.store hstore)
  obtain ⟨rank, -, hfresh⟩ := Graph.grows_insert
    (NodeKind.watch value (Catalog.Elements.writing element property)).nodup_dependencies hinsert
  have hgrown : b.watching.Stands { w with graph := grown } := by
    refine ⟨hgrows.scene_wellFormed hwell, hgrows.wired hwired, Graph.index_lt hfresh.node?_self,
      fun node hnode => ?_⟩
    obtain rfl := Option.some.inj (hfresh.node?_self.symm.trans hnode)
    rfl
  have hlive : graph.contains id := by
    have hvalue := Graph.value_of_settle hstore
    cases hnode : graph.node? id with
    | none =>
      rw [Graph.value_of_node?_eq_none hnode] at hvalue
      cases hvalue
    | some node => exact Graph.contains_iff.2 ⟨node, hnode⟩
  have hgrownLive : grown.contains id := Graph.contains_iff.2 ⟨_, hfresh.node?_self⟩
  have hstands := hgrown.steps hstores
  obtain ⟨found, helement⟩ : ∃ found, w.document.get element = .ok found := by
    cases hget : w.document.get element with
    | error failure => simp [Document.setProperty, hget, Except.map] at hset
    | ok found => exact ⟨found, rfl⟩
  obtain ⟨document', hset', hsame, hproperty⟩ :=
    Document.exists_setProperty helement property (inputs.headD .unit)
  obtain rfl := Except.ok.inj (hset.symm.trans hset')
  refine ⟨⟨⟨⟨hstands.wellFormed.graph, hstands.wellFormed.targets⟩, hstands.wired, hstands.watch⟩, ?_⟩,
    hcalm, hlive, ?_⟩
  · exact hsame.size_eq.symm ▸ (Array.getElem?_eq_some_iff.1 (Document.get_eq_ok.1 helement)).1
  · -- The signals that the value depends on are older than the watch.
    have hresolve : graph.resolve value = grown.resolve value :=
      hgrown.resolve_eq hstores hlive fun hold =>
        Watching.value_eq_of_settle hstore (hgrown.not_mem_signals hold)
    obtain ⟨current, hcurrent, hgiven⟩ := hgrown.exists_resolve hgrownLive
    obtain rfl := Except.ok.inj (hgiven.symm.trans hinputs)
    exact (hproperty element property).trans ((if_pos ⟨rfl, rfl⟩).trans (hresolve.trans hcurrent).symm)

theorem create_bound (hwell : w.toScene.WellFormed) (hwired : w.graph.Wired) (hcalm : w.Calm) :
    (create (.watch value (Catalog.Elements.writing element property)) (value.collectSignals [])
      (effectOn fun current =>
        (Catalog.Elements.writing element property current).exec session hooks)).Leaves
      (fun result w' => ∀ id, result = .ok id →
        Bound ⟨⟨w.graph.mark⟩, value, element, property⟩ w') (fun _ => True) w := by
  refine create_leaves (fun _ _ id heq => by cases heq) fun id graph hinsert => ?_
  have hfailed (v : World) (interrupt : Interrupt) : (finishFirst id (.error interrupt)).Leaves
      (fun finished w' => ∀ k, (finished.map fun () => id) = .ok k →
        Bound ⟨⟨w.graph.mark⟩, value, element, property⟩ w') (fun _ => True) v := by
    refine finishFirst_leaves (fun _ _ k heq => by cases heq) (fun _ _ heq => by cases heq) ?_
    exact fun _ _ _ _ _ k heq => by cases heq
  refine evaluateOn_cases (fun failure _ => hfailed _ _) fun inputs hinputs => ?_
  refine leaves_bind.2 (writing_leaves (fun document hset => ?_) fun failure _ => hfailed _ _)
  refine leaves_pure.2 (finishFirst_leaves (fun _ _ k heq => by cases heq) ?_ ?_)
  · intro stored graph' _ hstore _ _
    obtain ⟨rank, -, hid, -⟩ := Graph.insert_eq_ok.1 hinsert
    have hbound := bound_of_created hwell hwired hcalm hinsert hinputs hset hstore
    rw [hid] at hbound
    exact hbound _ _
  · exact fun _ _ _ heq => by cases heq

/-- Watching a value with signals binds the property to it. -/
theorem watch_bound (hreactive : value.isReactive = true) (hwell : w.toScene.WellFormed)
    (hwired : w.graph.Wired) (hcalm : w.Calm) :
    (Exec.watch value (.watch value (Catalog.Elements.writing element property)) fun current =>
      (Catalog.Elements.writing element property current).exec session hooks).Leaves
      (fun created w' => ∀ id?, created = .ok id? →
        Bound ⟨⟨w.graph.mark⟩, value, element, property⟩ w') (fun _ => True) w := by
  unfold Exec.watch
  rw [if_pos hreactive]
  refine leaves_bind.2 ((create_bound hwell hwired hcalm).mono fun created w' hbound => ?_)
  refine leaves_pure.2 fun id? heq => ?_
  cases created with
  | error interrupt => cases heq
  | ok id => exact hbound id rfl

/-- The instruction that sets a property. -/
def propertySetting (property : String) (value : Value) (element : ElementId) : Instruction :=
  ⟨"dom.set_property", [("prop", .value (.text property)), ("value", .value value),
    ("target", .value (.element element))], .unit⟩

/-- The program that only sets a property. -/
def settingProperty (property : String) (value : Value) (element : ElementId) : Program :=
  Catalog.Elements.setProperty (.value (.text property)) (.value value) (.value (.element element))

/-- The instruction binds the property to a value with signals. -/
theorem dispatch_bound (hhandler : Keyed.get? "dom.set_property" session.handlers =
      some Catalog.Elements.handleSetProperty)
    (hreactive : value.isReactive = true) (hwell : w.toScene.WellFormed) (hwired : w.graph.Wired)
    (hcalm : w.Calm) :
    (dispatch session hooks (propertySetting property value element)).Leaves
      (fun result w' => ∀ found, result = .ok found →
        Bound ⟨⟨w.graph.mark⟩, value, element, property⟩ w') (fun _ => True) w := by
  have htag : Keyed.get? (propertySetting property value element).tag session.handlers =
      some Catalog.Elements.handleSetProperty := hhandler
  unfold dispatch
  rw [htag]
  refine leaves_bind.2 (leaves_bind.2 ?_)
  refine (watch_bound hreactive hwell hwired hcalm).mono fun created w' hbound => ?_
  cases created with
  | error interrupt => exact leaves_pure.2 (leaves_pure.2 fun _ heq => by cases heq)
  | ok id? =>
    refine leaves_pure.2 ?_
    dsimp only
    split
    · exact (checkShape_leaves (.inl rfl)).mono fun _ _ hsame _ _ => hsame.2 ▸ hbound id? rfl
    · exact leaves_pure.2 fun _ _ => hbound id? rfl

/-- Setting a property to a value with signals binds it, if nothing fails. -/
theorem Reachable.bound (h : session.Reachable w)
    (hhandler : Keyed.get? "dom.set_property" session.handlers =
      some Catalog.Elements.handleSetProperty)
    (hreactive : value.isReactive = true) {level : Nat} {result : Value}
    (hrun : session.execute level (Routine.run (settingProperty property value element)).script w =
      some (.ok result, w')) : Bound ⟨⟨w.graph.mark⟩, value, element, property⟩ w' := by
  have hended := session.advance_eq_of_execute_eq hrun
  rcases hran : runProgram session.settings (session.hooksAt level).dispatch
    (settingProperty property value element) w with ⟨_ | reply, last⟩
  · cases (bind_eq_of_eq_none hran).symm.trans hended
  have hgoes := (bind_eq_of_eq_some hran).symm.trans hended
  cases reply with
  | error failure => cases hgoes
  | ok found =>
    cases hgoes
    obtain ⟨journal, w₁, hdispatch, journal', rfl⟩ :=
      runProgram_perform (i := propertySetting property value element) rfl hran
    cases level with
    | zero => cases hdispatch
    | succ n =>
      have hwell : (World.toScene { w with journal }).WellFormed :=
        ⟨h.wellFormed.now.graph, h.wellFormed.now.targets⟩
      have hdispatched : dispatch session (session.hooksAt n) (propertySetting property value element)
          { w with journal } = (some (.ok result), w₁) := hdispatch
      exact ((dispatch_bound hhandler hreactive hwell (h.visits.wired (.inl rfl)) h.calm).of_eq_some
        hdispatched result rfl).of_journal journal'

end Session

/-! ## Following the value -/

namespace Binding

variable {b : Binding} {since : List Moment} {w₀ w' : World} {session : Session}

/-- The state was one between batches: the last one, or one in which a computation started. -/
def Calmly (since : List Moment) (w' : World) (scene : Scene) : Prop :=
  scene = w'.toScene ∨ ∃ m ∈ since, m.StartsCalmly ∧ m.scene.value = scene

/-- Nothing but the watch wrote the property: it was not written more often than the watch was
evaluated. -/
def WritesAlone (b : Binding) (since : List Moment) (w₀ w' : World) : Prop :=
  b.writes w'.toScene ≤ b.writes w₀.toScene + b.runs since

/-- If only the watch has written the property, then whenever the watch existed between batches, the
property was what the value was. -/
theorem Bound.in_step (h : b.Bound w₀) (hlater : session.Later w₀ w')
    (hpast : w'.past = since ++ w₀.past) (halone : b.WritesAlone since w₀ w') {scene : Scene}
    (hscene : Calmly since w' scene) (hlive : scene.graph.contains b.watch) :
    ∃ x, scene.graph.resolve b.value = .ok x ∧ b.shown scene = .ok x := by
  obtain ⟨before, hbefore, -⟩ := h.stands.exists_resolve h.live
  have hshown : b.shown w₀.toScene = .ok before := h.shown_eq.trans hbefore
  obtain ⟨since', hpast', hsaw, hsees⟩ := ((h.stands.inStep h.calm).later hlater).current
  obtain rfl : since' = since := List.append_cancel_right (hpast'.symm.trans hpast)
  obtain ⟨-, since'', hpast'', hchain⟩ := (hlater.accounts b).2 h.stands
  obtain rfl : since'' = since' := List.append_cancel_right (hpast''.symm.trans hpast)
  rw [show w₀.graph.resolve b.watching.input = .ok before from hbefore] at hsaw hsees
  -- It is enough that value and property are both what the watch was last given.
  have hboth (given : List Moment)
      (hresolve : scene.graph.resolve b.value = b.watching.seen (.ok before) given)
      (hproperty : b.shown scene = b.watching.seen (b.shown w₀.toScene) given) :
      ∃ x, scene.graph.resolve b.value = .ok x ∧ b.shown scene = .ok x := by
    obtain ⟨x, hx⟩ := b.watching.exists_seen before given
    rw [hshown] at hproperty
    exact ⟨x, hresolve.trans hx, hproperty.trans hx⟩
  rcases hscene with rfl | ⟨m, hm, hcalm, rfl⟩
  · exact hboth since'' (hsees hlive) (hchain.shows.shown_eq halone)
  · obtain ⟨later, earlier, rfl⟩ := List.append_of_mem hm
    exact hboth earlier (hsaw.of_mem rfl hcalm hlive)
      (hchain.split.1.shows.shown_eq (hchain.writes_le_earlier later halone))

/-- If only the watch has written the property, then it stays the same from when a signal of the value
is gone. -/
theorem Bound.stays (h : b.Bound w₀) (hlater : session.Later w₀ w')
    (hpast : w'.past = since ++ w₀.past) (halone : b.WritesAlone since w₀ w') :
    (w'.toScene :: since.map (·.scene.value)).Pairwise fun after before =>
      (∃ k ∈ b.value.collectSignals [], ¬ before.graph.contains k) →
        b.shown after = b.shown before := by
  have haccounts := hlater.accounts b
  obtain ⟨-, since', hpast', hchain⟩ := haccounts.2 h.stands
  obtain rfl : since' = since := List.append_cancel_right (hpast'.symm.trans hpast)
  have hsignals : ∀ scene ∈ w'.toScene :: since'.map (·.scene.value),
      scene.graph.contains b.watch → ∀ k ∈ b.watching.signals, scene.graph.contains k := by
    refine List.forall_mem_cons.2 ⟨fun hlive k hk => ?_, List.forall_mem_map.2 fun m hm => ?_⟩
    · exact ((h.stands.accounts haccounts).signals_older hlive k hk).1
    · exact (hchain.attaches m hm).2
  refine (hchain.stays halone).imp_of_mem fun _ hbefore hstays => ?_
  rintro ⟨k, hk, hgone⟩
  exact (hstays fun hlive => hgone (hsignals _ hbefore hlive k hk)).2

end Binding

namespace Session

open Binding

variable {session : Session} {value : Value} {element : ElementId} {property : String}
  {w w₀ w' : World} {since : List Moment} {level : Nat}

/-- **A property that was set to a value with signals follows it.** In a state between two scripts, let
a program that sets a property to a value with signals end well, and let the host execute whatever
scripts it likes afterwards, whether they fail or not. The program leaves a watch of the value. As long
as nothing else writes the property, whenever the watch exists between batches, the property is the
value with the current values of the signals in it; and from when one of these signals is gone, the
property stays as it is. -/
theorem Reachable.property_follows (h : session.Reachable w)
    (hhandler : Keyed.get? "dom.set_property" session.handlers =
      some Catalog.Elements.handleSetProperty)
    (hreactive : value.isReactive = true) {result : Value}
    (hrun : session.execute level (Routine.run (settingProperty property value element)).script w =
      some (.ok result, w₀))
    (hlater : session.Later w₀ w') (hpast : w'.past = since ++ w₀.past)
    (halone : WritesAlone ⟨⟨w.graph.mark⟩, value, element, property⟩ since w₀ w') :
    (∃ node, w₀.graph.node? ⟨w.graph.mark⟩ = some node ∧
      node.kind = .watch value (Catalog.Elements.writing element property)) ∧
    (∀ scene, Calmly since w' scene → scene.graph.contains ⟨w.graph.mark⟩ →
      ∃ x, scene.graph.resolve value = .ok x ∧ scene.document.property element property = .ok x) ∧
    (w'.toScene :: since.map (·.scene.value)).Pairwise fun after before =>
      (∃ k ∈ value.collectSignals [], ¬ before.graph.contains k) →
        after.document.property element property = before.document.property element property := by
  have hbound := h.bound hhandler hreactive hrun
  obtain ⟨node, hnode⟩ := Graph.contains_iff.1 hbound.live
  refine ⟨⟨node, hnode, hbound.stands.kind_eq hnode⟩, fun scene hscene hlive => ?_, ?_⟩
  · exact hbound.in_step hlater hpast halone hscene hlive
  · exact hbound.stays hlater hpast halone

/-- A session that can set properties. -/
private def setter : Session where
  handlers := [("dom.set_property", Catalog.Elements.handleSetProperty)]

/-- A list with a cell, to which a property is set. -/
private def titled : Value := .list [.signal ⟨0⟩]

/-- There is a cell, and an element. -/
private def untitled : World :=
  (setter.advance 0 (.ask (.cell (.bool true)) fun _ => .done (.ok .unit))
    { document := (Document.empty.create "p" "title").2 }).2

/-- The property of the element was set. -/
private def entitled : World :=
  (dispatch setter (setter.hooksAt 0) (propertySetting "title" titled ⟨0⟩) untitled).2.report
    (.programFinished 1)

private def retitling : Script := .set ⟨0⟩ (.bool false) fun _ => .done (.ok .unit)

/-- The cell was written. -/
private def retitled : World := (setter.advance 2 retitling entitled).2

/-- If the instruction succeeds, so does the program that only performs it. -/
private theorem execute_setting {w w₁ : World} (h : dispatch setter (setter.hooksAt 0)
    (propertySetting property value element) w = (some (.ok .unit), w₁)) :
    setter.execute 1 (Routine.run (settingProperty property value element)).script w =
      some (.ok .unit, w₁.report (.programFinished 1)) := by
  have hget : (get : Exec World) w = (some w, w) := rfl
  have hrun : (settingProperty property value element).run
      (announced setter.settings (setter.hooksAt 1).dispatch) setter.settings.stepLimit w =
        ⟨.yielded .unit, 1, w₁⟩ :=
    Program.run_perform_of_ok (i := propertySetting property value element) rfl h
  have hran : runProgram setter.settings (setter.hooksAt 1).dispatch
      (settingProperty property value element) w =
        (some (.ok .unit), w₁.report (.programFinished 1)) := by
    unfold runProgram
    rw [bind_eq_of_eq_some hget, hrun]
    rfl
  have hended : (Routine.run (settingProperty property value element)).script.exec setter
      (setter.hooksAt 1) w = (some (.ok .unit), w₁.report (.programFinished 1)) :=
    (bind_eq_of_eq_some hran).trans rfl
  unfold execute advance
  rw [hended]

theorem Reachable.property_follows_titled : Reachable setter untitled ∧
    setter.execute 1 (Routine.run (settingProperty "title" titled ⟨0⟩)).script untitled =
      some (.ok .unit, entitled) ∧
    setter.Later entitled retitled ∧ retitled.past = retitled.past.take 4 ++ entitled.past ∧
    WritesAlone ⟨⟨1⟩, titled, ⟨0⟩, "title"⟩ (retitled.past.take 4) entitled retitled ∧
    ∃ x, retitled.graph.resolve titled = .ok x ∧ retitled.document.property ⟨0⟩ "title" = .ok x := by
  have hreach : Reachable setter untitled := by
    have hrun : setter.execute 0 (.ask (.cell (.bool true)) fun _ => .done (.ok .unit))
      { document := (Document.empty.create "p" "title").2 } = some (.ok .unit, untitled) := rfl
    exact .run (.start _ #[]) hrun
  have hrun : setter.execute 1 (Routine.run (settingProperty "title" titled ⟨0⟩)).script untitled =
      some (.ok .unit, entitled) := execute_setting rfl
  have hended : (setter.advance 2 retitling entitled).1 = some (.ok .unit) := by cbv
  have hset : setter.execute 2 retitling entitled = some (.ok .unit, retitled) := by
    have hadvanced : setter.advance 2 retitling entitled = (some (.ok .unit), retitled) :=
      Prod.ext hended rfl
    rw [execute, hadvanced]
  have hlater : setter.Later entitled retitled := .single ⟨2, retitling, .ok .unit, hset⟩
  have hpast : retitled.past = retitled.past.take 4 ++ entitled.past := by cbv
  have hlive : retitled.graph.contains ⟨1⟩ := by cbv
  have halone : WritesAlone ⟨⟨1⟩, titled, ⟨0⟩, "title"⟩ (retitled.past.take 4) entitled retitled := by
    cbv
  refine ⟨hreach, hrun, hlater, hpast, halone, ?_⟩
  exact (hreach.property_follows rfl rfl hrun hlater hpast halone).2.1 _ (.inl rfl) hlive

end Session

end EffectGraph
