import EffectGraph.Proofs.Session.Scripts

/-!
# A pass makes everything below its roots current

A pass first goes through the derived nodes below its roots, by rank. As their computations are
pure, nothing but values changes meanwhile, and every node finds its inputs computed before it: what
is still to be computed is always closed under edges to derived nodes (`Graph.IsAgenda`). The watches
that follow find everything current; their effects are scripts, and may do anything.
-/

namespace EffectGraph

open Exec World

namespace Graph

/-- Derived nodes in the order of their ranks, with all that is derived from them. -/
structure IsAgenda (graph : Graph) (todo : List SignalId) : Prop where
  derived : ∀ id ∈ todo, ∃ node operands compute,
    graph.node? id = some node ∧ node.kind = .derived operands compute
  sorted : todo.Pairwise fun a b => graph.rank a ≤ graph.rank b
  closed : ∀ id ∈ todo, ∀ k child operands compute, graph.node? k = some child →
    child.kind = .derived operands compute → id ∈ child.inputs → k ∈ todo

namespace IsAgenda

variable {graph graph' : Graph} {id : SignalId} {todo : List SignalId}

theorem of_wiring (h : graph.IsAgenda todo) (hsame : SameWiring graph graph') :
    graph'.IsAgenda todo where
  derived k hk := by
    obtain ⟨node, operands, compute, hnode, hkind⟩ := h.derived k hk
    obtain ⟨node', hnode', hkind', -⟩ := hsame.symm.node? hnode
    exact ⟨node', operands, compute, hnode', hkind'.symm.trans hkind⟩
  sorted := by simpa only [hsame.rank_eq] using h.sorted
  closed k hk c child' operands compute hchild' hkind' hinput := by
    obtain ⟨child, hchild, hkind, -, hinputs, -⟩ := hsame.node? hchild'
    rw [hinputs] at hinput
    exact h.closed k hk c child operands compute hchild (hkind.symm.trans hkind') hinput

variable (hgraph : graph.WellFormed)

include hgraph

/-- What is derived from the first node comes after it. -/
theorem children (h : graph.IsAgenda (id :: todo)) {k : SignalId} {child : Node}
    {operands : List Value} {compute : List Value → Script} (hchild : graph.node? k = some child)
    (hkind : child.kind = .derived operands compute) (hinput : id ∈ child.inputs) : k ∈ todo := by
  have hmem := h.closed id List.mem_cons_self k child operands compute hchild hkind hinput
  have hrank := hgraph.rank_lt_of_feeds (hgraph.feeds_of_mem_inputs hchild hinput)
  rcases List.mem_cons.1 hmem with rfl | hmem
  · exact absurd hrank (lt_irrefl _)
  · exact hmem

/-- Without its first node an agenda is an agenda. -/
theorem tail (h : graph.IsAgenda (id :: todo)) : graph.IsAgenda todo where
  derived k hk := h.derived k (List.mem_cons_of_mem _ hk)
  sorted := (List.pairwise_cons.1 h.sorted).2
  closed k hk c child operands compute hchild hkind hinput := by
    have hmem := h.closed k (List.mem_cons_of_mem _ hk) c child operands compute hchild hkind hinput
    have hlt := hgraph.rank_lt_of_feeds (hgraph.feeds_of_mem_inputs hchild hinput)
    have hle := (List.pairwise_cons.1 h.sorted).1 k hk
    rcases List.mem_cons.1 hmem with rfl | hmem
    · exact absurd (hle.trans_lt hlt) (lt_irrefl _)
    · exact hmem

/-- The inputs of the first node are not on the agenda. -/
theorem inputs (h : graph.IsAgenda (id :: todo)) {node : Node} (hnode : graph.node? id = some node)
    {p : SignalId} (hp : p ∈ node.inputs) : p ∉ id :: todo := by
  intro hmem
  have hlt := hgraph.rank_lt_of_feeds (hgraph.feeds_of_mem_inputs hnode hp)
  rcases List.mem_cons.1 hmem with rfl | hmem
  · exact lt_irrefl _ hlt
  · have hle := (List.pairwise_cons.1 h.sorted).1 p hmem
    exact lt_irrefl _ (hle.trans_lt hlt)

end IsAgenda

/-- The derived nodes of a plan are an agenda, if no root is derived. -/
theorem isAgenda_plan {graph : Graph} (hgraph : graph.WellFormed) {roots : List SignalId}
    (hroots : ∀ r ∈ roots, graph.OnlyEver (· = .cell) r) :
    graph.IsAgenda ((graph.plan roots).filter fun id => !Session.isWatch graph id) where
  derived id hid := by
    obtain ⟨hplan, hwatch⟩ := List.mem_filter.1 hid
    obtain ⟨node, hnode, hcell⟩ :=
      hgraph.node?_of_below ((mem_plan_of_cells hgraph hroots).1 hplan)
    cases hkind : node.kind with
    | cell => exact absurd hkind hcell
    | derived operands compute => exact ⟨node, operands, compute, hnode, hkind⟩
    | watch input effect => simp [Session.isWatch, hnode, hkind, NodeKind.isWatch] at hwatch
  sorted := (plan_pairwise graph roots).filter _
  closed id hid k child operands compute hchild hkind hinput := by
    have hbelow := (mem_plan_of_cells hgraph hroots).1 (List.mem_filter.1 hid).1
    refine List.mem_filter.2 ⟨(mem_plan_of_cells hgraph hroots).2 ?_, ?_⟩
    · exact hbelow.feeds (hgraph.feeds_of_mem_inputs hchild hinput)
    · simp [Session.isWatch, hchild, hkind, NodeKind.isWatch]

end Graph

namespace Session

variable {session : Session}

/-- Evaluating some nodes and then others collects the failures of both. -/
theorem evaluateAll_append (hooks : Hooks) (ids ids' : List SignalId) :
    evaluateAll session hooks (ids ++ ids') = (do
      let failures ← evaluateAll session hooks ids
      let failures' ← evaluateAll session hooks ids'
      return failures ++ failures') := by
  induction ids with
  | nil => simp [evaluateAll]
  | cons id rest ih =>
    simp only [List.cons_append, evaluateAll, bind_assoc]
    refine bind_congr fun w => ?_
    split
    · rw [bind_assoc]
      refine bind_congr fun result => ?_
      cases result with
      | ok _ => exact ih
      | error failure => simp [ih]
    · exact ih

/-- Evaluating some nodes and then others leaves what the others leave. -/
theorem evaluateAll_append_leaves {hooks : Hooks} {w : World} {ids ids' : List SignalId}
    {Q : List Failure → World → Prop} {E : World → Prop}
    (h : (evaluateAll session hooks ids).Leaves (fun failures =>
      (evaluateAll session hooks ids').Leaves (fun failures' => Q (failures ++ failures')) E) E w) :
    (evaluateAll session hooks (ids ++ ids')).Leaves Q E w := by
  rw [evaluateAll_append]
  refine leaves_bind.2 (h.mono fun failures w₁ h₁ => leaves_bind.2 ?_)
  exact h₁.mono fun failures' w₂ hQ => leaves_pure.2 hQ

/-- Evaluating a node that exists and is no cell evaluates it on its inputs, and stores the result. -/
theorem evaluate_leaves {hooks : Hooks} {w : World} {id : SignalId} {node : Node}
    {Q : Except Failure Unit → World → Prop} {E : World → Prop} (hgraph : w.graph.WellFormed)
    (hwired : w.graph.Wired) (hnode : w.graph.node? id = some node)
    (hcell : node.kind.isCell = false)
    (h : ∀ inputs, w.graph.inputsOf node.kind = .ok inputs →
      (computation session hooks node.kind inputs).Leaves
        (fun result => (store id result).Leaves Q E) E (w.begin (.evaluating id inputs))) :
    (evaluate session hooks id).Leaves Q E w := by
  have hlive := hwired.operands_live hgraph hnode
  refine leaves_bind.2 (leaves_get.2 ?_)
  simp only [Graph.node_eq_ok.2 hnode, hcell, Bool.false_eq_true, if_false]
  exact leaves_bind.2 (evaluateOn_leaves hlive h)

section

variable {level : Nat} {roots todo : List SignalId} {w : World} {id : SignalId}

/-- Computing the first node of an agenda makes it current. -/
theorem evaluate_derived_leaves (h : session.Sound roots (id :: todo) w)
    (hagenda : w.graph.IsAgenda (id :: todo)) :
    (evaluate session (session.hooksAt level) id).Leaves (fun _ w' =>
      (session.Sound roots todo w' ∧ w'.settling = w.settling) ∧
        Graph.SameWiring w.graph w'.graph) (fun w' => session.AllGood w'.past) w := by
  have hgraph := h.wellFormed.now.graph
  obtain ⟨node, operands, compute, hnode, hkind⟩ := hagenda.derived id List.mem_cons_self
  refine evaluate_leaves hgraph h.regular.inputs_eq hnode (by simp [hkind, NodeKind.isCell])
    fun inputs hinputs => ?_
  have hbegun := h.begin_evaluating hnode hinputs
    (fun p hp => hagenda.inputs hgraph hnode hp) (.inl List.mem_cons_self)
  rw [hkind] at hinputs ⊢
  have hpure := h.regular.isPure hnode hkind
  refine hpure.leaves (fun result journal hyields => ?_) fun _ => hbegun.allGood
  have hdone := hbegun.journal journal
  cases result with
  | error interrupt =>
    exact leaves_pure.2 ⟨⟨hdone.keep_failed hnode hkind hinputs hyields, rfl⟩, .refl _⟩
  | ok value =>
    refine settleNode_leaves (fun graph hstore => ⟨⟨?_, rfl⟩, ?_⟩) fun failure hnone => ?_
    · refine hdone.store_derived hnode hkind hinputs hyields ?_ hstore
      exact fun k child _ _ hchild hderived hinput =>
        hagenda.children hgraph hchild hderived hinput
    · obtain ⟨-, rfl⟩ := Graph.settle_eq_ok.1 hstore
      exact Graph.sameWiring_modify w.graph id value
    · exact absurd hnone (Graph.node_ne_error hnode)

/-- Computing all nodes of an agenda makes all of them current. -/
theorem evaluateAll_derived_leaves (h : session.Sound roots todo w)
    (hagenda : w.graph.IsAgenda todo) :
    (evaluateAll session (session.hooksAt level) todo).Leaves
      (fun _ w' => session.Sound roots [] w' ∧ w'.settling = w.settling)
      (fun w' => session.AllGood w'.past) w := by
  let Known (rest : List SignalId) (w' : World) : Prop :=
    session.Sound roots rest w' ∧ w'.settling = w.settling ∧ w'.graph.IsAgenda rest
  refine (evaluateAll_keeps session (I := Known) ?_ ?_ ?_ ⟨h, rfl, hagenda⟩).mono
    fun _ w' h' => ⟨h'.1, h'.2.1⟩
  · -- Storing a value keeps the wiring, so what is left of the agenda stays an agenda.
    rintro id rest w₁ ⟨h₁, hsettling₁, hagenda₁⟩ -
    refine (evaluate_derived_leaves h₁ hagenda₁).mono ?_
    rintro _ w₂ ⟨⟨h₂, hsettling₂⟩, hsame⟩
    exact ⟨h₂, hsettling₂.trans hsettling₁, (hagenda₁.tail h₁.wellFormed.now.graph).of_wiring hsame⟩
  · exact fun event ⟨h₁, hsettling₁, hagenda₁⟩ => ⟨h₁.report event, hsettling₁, hagenda₁⟩
  · rintro id rest w₁ ⟨-, -, hagenda₁⟩ hgone
    obtain ⟨node, _, _, hnode, -⟩ := hagenda₁.derived id List.mem_cons_self
    exact absurd (Graph.contains_iff.2 ⟨node, hnode⟩) hgone

variable (hhooks : (session.hooksAt level).Steady session)

include hhooks

/-- Running the effect of a watch is steady. -/
theorem ensures_evaluate_watch (h : session.Sound roots [] w)
    (hwatch : w.graph.OnlyEver (fun kind => kind.isWatch) id) :
    session.Ensures (evaluate session (session.hooksAt level) id)
      (fun _ w' => session.Sound roots [] w' ∧ w'.settling = w.settling) w := by
  cases hnode : w.graph.node? id with
  | none =>
    have hgone := Graph.node_eq_error.2 ⟨hnode, rfl⟩
    refine leaves_bind.2 (leaves_get.2 ?_)
    simp only [hgone]
    exact ensures_pure ⟨h, rfl⟩
  | some node =>
    have hkind := hwatch.2 node hnode
    cases hwatching : node.kind with
    | cell => rw [hwatching] at hkind; cases hkind
    | derived operands compute => rw [hwatching] at hkind; cases hkind
    | watch input effect =>
      refine evaluate_leaves h.wellFormed.now.graph h.regular.inputs_eq hnode
        (by simp [hwatching, NodeKind.isCell]) fun inputs hinputs => ?_
      have hbegun := h.begin_evaluating hnode hinputs
        (fun _ _ hmem => absurd hmem List.not_mem_nil) (.inr (by rw [hwatching]; rfl))
      rw [hwatching]
      have hrun (value : Value) := Script.exec_steady hhooks (effect value)
      refine leaves_bind.2 ?_
      refine (Leaves.and ((hrun _).sound hbegun) ((hrun _).stepwise _)).imp
        (fun result w₂ hleft => leaves_pure.2 ?_) fun _ hbroken => hbroken.1
      obtain ⟨h₂, hran⟩ := hleft
      have hwatch₂ := hwatch.follows (Steps.follows ((steps_begin _ _).trans hran))
      cases result with
      | error interrupt => exact leaves_pure.2 h₂
      | ok value =>
        refine settleNode_leaves (fun graph hstore hpure => ?_) fun _ _ => h₂
        obtain ⟨h₂, hsettling⟩ := h₂ hpure
        exact ⟨h₂.store_unit hwatch₂ hstore, hsettling⟩

/-- Running the effects of watches is steady. -/
theorem ensures_evaluateAll_watches {ids : List SignalId} (h : session.Sound roots [] w)
    (hids : ∀ id ∈ ids, w.graph.OnlyEver (fun kind => kind.isWatch) id) :
    session.Ensures (evaluateAll session (session.hooksAt level) ids)
      (fun _ w' => session.Sound roots [] w' ∧ w'.settling = w.settling) w := by
  induction ids generalizing w with
  | nil => exact ensures_pure ⟨h, rfl⟩
  | cons id rest ih =>
    have hrest : ∀ k ∈ rest, w.graph.OnlyEver (fun kind => kind.isWatch) k :=
      fun k hk => hids k (List.mem_cons_of_mem _ hk)
    have hsteps := stepwise_evaluateAll session hhooks.stepwise rest
    refine ensures_get_bind ?_
    split
    · have hfirst := (ensures_evaluate_watch hhooks h (hids id List.mem_cons_self)).and_steps
        (stepwise_evaluate session hhooks.stepwise id)
      refine ensures_bind hfirst (fun result => ?_) fun result w₁ ⟨⟨h₁, hsettling⟩, hran⟩ => ?_
      · cases result with
        | ok _ => exact hsteps
        | error failure => exact (stepwise_report _).bind fun _ => hsteps.bind fun _ => stepwise_pure _
      · have hlater {w₂ : World} (h₂ : session.Sound roots [] w₂) (hgraph : w₂.graph = w₁.graph)
            (hsettling₂ : w₂.settling = w₁.settling) :
            session.Ensures (evaluateAll session (session.hooksAt level) rest)
              (fun _ w' => session.Sound roots [] w' ∧ w'.settling = w.settling) w₂ := by
          have hids₂ : ∀ k ∈ rest, w₂.graph.OnlyEver (fun kind => kind.isWatch) k := by
            rw [hgraph]
            exact fun k hk => (hrest k hk).follows hran.follows
          refine (ih h₂ hids₂).mono fun _ w' ⟨h', hsettling'⟩ => ⟨h', ?_⟩
          rw [hsettling', hsettling₂, hsettling]
        cases result with
        | ok _ => exact hlater h₁ rfl rfl
        | error failure =>
          refine leaves_bind.2 (leaves_modify.2 ?_)
          refine ensures_bind (hlater (h₁.report (.recomputationFailed id failure)) rfl rfl)
            (fun _ => stepwise_pure _) fun _ _ h' => ensures_pure h'
    · exact ih h hrest

/-- A pass settles what was written to its roots. -/
theorem ensures_propagate {roots' : List SignalId} (h : session.Sound (roots ++ roots') [] w) :
    session.Ensures (propagate session (session.hooksAt level) roots)
      (fun _ w' => session.Sound roots' [] w' ∧ w'.settling = w.settling) w := by
  have hgraph := h.wellFormed.now.graph
  have hroots : ∀ r ∈ roots, w.graph.OnlyEver (· = .cell) r :=
    fun r hr => h.roots_cells r (.inl (List.mem_append_left _ hr))
  have hagenda := Graph.isAgenda_plan hgraph hroots
  refine propagate_leaves (fun hempty _ => ⟨by simpa [hempty] using h, rfl⟩) fun _ => ?_
  unfold passOrder
  generalize hderived : (w.graph.plan roots).filter (fun id => !isWatch w.graph id) = derived
    at hagenda ⊢
  generalize hwatches : (w.graph.plan roots).filter (isWatch w.graph) = watches
  have hbegun : session.Sound roots' derived
      ((w.report (passEvent w.graph roots)).begin (.propagating roots)) := by
    refine (h.report _).begin_propagating fun id node operands compute hnode hkind hbelow => ?_
    change w.graph.node? id = some node at hnode
    rw [← hderived]
    refine List.mem_filter.2 ⟨(Graph.mem_plan_of_cells hgraph hroots).2 hbelow, ?_⟩
    simp [isWatch, hnode, hkind, NodeKind.isWatch]
  -- An effect may remove a watch that is still to run, but never puts anything in its place.
  have hwatch : ∀ id ∈ watches, w.graph.OnlyEver (fun kind => kind.isWatch) id := by
    intro id hid
    rw [← hwatches] at hid
    obtain ⟨hplan, hwatch⟩ := List.mem_filter.1 hid
    obtain ⟨node, hnode, -⟩ :=
      hgraph.node?_of_below ((Graph.mem_plan_of_cells hgraph hroots).1 hplan)
    refine ⟨Graph.index_lt hnode, fun node' hnode' => ?_⟩
    simpa [isWatch, hnode'] using hwatch
  have hsteps := stepwise_evaluateAll session hhooks.stepwise derived
  refine evaluateAll_append_leaves ((Leaves.and (evaluateAll_derived_leaves hbegun hagenda)
    (hsteps _)).imp (fun failures w₁ hleft => ?_) fun _ hbroken _ => hbroken.1)
  obtain ⟨⟨h₁, hsettling₁⟩, hran⟩ := hleft
  have hfollows : Follows w w₁ := Steps.follows (.head (step_report w _) ((steps_begin _ _).trans hran))
  have hwatch₁ : ∀ id ∈ watches, w₁.graph.OnlyEver (fun kind => kind.isWatch) id :=
    fun id hid => (hwatch id hid).follows hfollows
  refine (ensures_evaluateAll_watches hhooks h₁ hwatch₁).mono ?_
  exact fun _ w₂ ⟨h₂, hsettling₂⟩ => ⟨h₂, hsettling₂.trans hsettling₁⟩

end

end Session

end EffectGraph
