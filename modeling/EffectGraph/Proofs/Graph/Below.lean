import EffectGraph.Proofs.Graph.Wiring
import EffectGraph.Proofs.Graph.Walk

/-!
# The nodes below others

In a well-formed graph `Graph.dependents` finds exactly the nodes that can be reached along edges
(`mem_dependents`). They exist, ranks ascend along edges, and so a plan lists every node after those
of its inputs that are in the plan as well (`plan_pairwise`).
-/

namespace EffectGraph

namespace Graph

open Relation

variable {graph : Graph}

/-- One node is an input of another. -/
def Feeds (graph : Graph) (p c : SignalId) : Prop := c ∈ graph.outputs p

/-- A node depends on one of some others. -/
def Below (graph : Graph) (roots : List SignalId) (id : SignalId) : Prop :=
  ∃ r ∈ roots, TransGen graph.Feeds r id

theorem feeds_iff {p c : SignalId} :
    graph.Feeds p c ↔ ∃ node, graph.node? p = some node ∧ c ∈ node.outputs := by
  unfold Feeds outputs
  cases graph.node? p <;> simp

namespace WellFormed

variable (h : graph.WellFormed)

include h

/-- Both ends of an edge exist, and both know of it. -/
theorem feeds {p c : SignalId} (hfeeds : graph.Feeds p c) :
    ∃ parent child, graph.node? p = some parent ∧ graph.node? c = some child ∧
      p ∈ child.inputs := by
  obtain ⟨parent, hparent, hmem⟩ := feeds_iff.1 hfeeds
  obtain ⟨child, hchild⟩ := contains_iff.1 (h.outputs_live hparent c hmem)
  exact ⟨parent, child, hparent, hchild, (h.linked hparent hchild).2 hmem⟩

theorem feeds_of_mem_inputs {p c : SignalId} {child : Node} (hchild : graph.node? c = some child)
    (hp : p ∈ child.inputs) : graph.Feeds p c := by
  obtain ⟨parent, hparent⟩ := contains_iff.1 (h.inputs_live hchild p hp)
  exact feeds_iff.2 ⟨parent, hparent, (h.linked hparent hchild).1 hp⟩

/-- Ranks ascend along edges. -/
theorem rank_lt_of_feeds {p c : SignalId} (hfeeds : graph.Feeds p c) :
    graph.rank p < graph.rank c := by
  obtain ⟨parent, child, hparent, hchild, hmem⟩ := h.feeds hfeeds
  rw [rank_of_node? hchild]
  exact (h.rank_eq hchild).2.1 p hmem

/-- A node below others exists and is no cell. -/
theorem node?_of_below {roots : List SignalId} {id : SignalId} (hbelow : graph.Below roots id) :
    ∃ node, graph.node? id = some node ∧ node.kind ≠ .cell := by
  obtain ⟨r, -, hreach⟩ := hbelow
  obtain ⟨p, -, hfeeds⟩ := (TransGen.tail'_iff).1 hreach
  obtain ⟨parent, child, hparent, hchild, hmem⟩ := h.feeds hfeeds
  refine ⟨child, hchild, fun hcell => ?_⟩
  rw [h.cell_inputs hchild hcell] at hmem
  exact absurd hmem List.not_mem_nil

end WellFormed

/-! ## Paths -/

theorem Below.feeds {roots : List SignalId} {p c : SignalId} (h : graph.Below roots p)
    (hfeeds : graph.Feeds p c) : graph.Below roots c := by
  obtain ⟨r, hr, hreach⟩ := h
  exact ⟨r, hr, hreach.tail hfeeds⟩

/-! ## The walk finds them -/

/-- The walk goes along edges. -/
private theorem reach_of_leads {j k : Nat} (h : ReflTransGen graph.roads.Leads j k) :
    ReflTransGen graph.Feeds ⟨j⟩ ⟨k⟩ := by
  induction h with
  | refl => exact .refl
  | tail _ hlead ih =>
    obtain ⟨item, hmem, hplace, -⟩ := hlead
    obtain rfl := Option.some.inj hplace
    exact ih.tail hmem

/-- A dependent is a node below the roots that is no root itself. -/
theorem mem_dependents (h : graph.WellFormed) {roots : List SignalId} {id : SignalId} :
    id ∈ graph.dependents roots ↔ graph.Below roots id ∧ id ∉ roots := by
  have henter {c : SignalId} {node : Node} (hc : graph.node? c = some node) :
      graph.roads.Enters c c.index := ⟨rfl, index_lt hc⟩
  simp only [dependents, List.mem_filter, List.mem_map, decide_eq_true_eq]
  refine and_congr_left fun hnew => ?_
  constructor
  · rintro ⟨k, hk, rfl⟩
    rcases Reach.mem_walk hk with hroot | ⟨item, hmem, j, ⟨hplace, -⟩, hreach⟩
    · obtain ⟨r, hr, hindex⟩ := List.mem_map.1 hroot
      rw [SignalId.index_inj (b := ⟨k⟩)] at hindex
      exact absurd (hindex ▸ hr) hnew
    · obtain rfl := Option.some.inj hplace
      obtain ⟨r, hr, hfeeds⟩ := List.mem_flatMap.1 hmem
      exact ⟨r, hr, .head' hfeeds (reach_of_leads hreach)⟩
  · -- The walk enters what the roots feed, and leaves nothing behind.
    rintro ⟨r, hr, hreach⟩
    refine ⟨id.index, ?_, rfl⟩
    induction hreach with
    | single hfeeds =>
      obtain ⟨-, child, -, hchild, -⟩ := h.feeds hfeeds
      exact Reach.mem_walk_of_enters (List.mem_flatMap.2 ⟨r, hr, hfeeds⟩) (henter hchild)
    | @tail p c _ hfeeds ih =>
      obtain ⟨-, child, -, hchild, -⟩ := h.feeds hfeeds
      have hlead : graph.roads.Leads p.index c.index := ⟨c, hfeeds, henter hchild⟩
      by_cases hp : p ∈ roots
      · exact Reach.mem_walk_of_enters (List.mem_flatMap.2 ⟨p, hp, hfeeds⟩) (henter hchild)
      · refine Reach.walk_closed (fun k hk j hj => ?_) (ih hp) hlead
        obtain ⟨root, hroot, rfl⟩ := List.mem_map.1 hk
        obtain ⟨item, hmem, hitem⟩ := hj
        exact .inr ⟨item, List.mem_flatMap.2 ⟨root, hroot, hmem⟩, hitem⟩

theorem dependents_nodup (graph : Graph) (roots : List SignalId) :
    (graph.dependents roots).Nodup := by
  obtain ⟨entered, hwalk, hnodup, -⟩ := Reach.walk_entered graph.roads
    (roots.flatMap graph.outputs) (roots.map (·.index)) []
  -- The roots themselves are filtered out, however often they are listed.
  have hroots : ((roots.map (·.index)).map SignalId.mk).filter (· ∉ roots) = [] := by
    simp
  have hentered : graph.dependents roots = (entered.map SignalId.mk).filter (· ∉ roots) := by
    simp only [dependents, hwalk, List.map_append, List.filter_append, hroots, List.append_nil]
  rw [hentered]
  exact (hnodup.map fun _ _ heq => SignalId.mk.inj heq).filter _

/-! ## Plans -/

theorem mem_plan (h : graph.WellFormed) {roots : List SignalId} {id : SignalId} :
    id ∈ graph.plan roots ↔ graph.Below roots id ∧ id ∉ roots := by
  rw [plan, List.mem_mergeSort, mem_dependents h]

theorem plan_nodup (graph : Graph) (roots : List SignalId) : (graph.plan roots).Nodup :=
  (List.mergeSort_perm _ _).nodup_iff.2 (dependents_nodup graph roots)

/-- A plan goes through nodes by rank, and by age within a rank. -/
theorem plan_sorted (graph : Graph) (roots : List SignalId) :
    (graph.plan roots).Pairwise fun a b => graph.before a b = true := by
  refine List.pairwise_mergeSort (fun a b c hab hbc => ?_) (fun a b => ?_) _
  · simp only [before, Bool.or_eq_true, Bool.and_eq_true, decide_eq_true_eq] at *
    omega
  · simp only [before, Bool.or_eq_true, Bool.and_eq_true, decide_eq_true_eq] at *
    omega

theorem plan_pairwise (graph : Graph) (roots : List SignalId) :
    (graph.plan roots).Pairwise fun a b => graph.rank a ≤ graph.rank b := by
  refine (plan_sorted graph roots).imp fun {a b} hab => ?_
  simp only [before, Bool.or_eq_true, Bool.and_eq_true, decide_eq_true_eq] at hab
  omega

/-- No two nodes come before each other. -/
theorem before_antisymm {a b : SignalId} (hab : graph.before a b = true)
    (hba : graph.before b a = true) : a = b := by
  simp only [before, Bool.or_eq_true, Bool.and_eq_true, decide_eq_true_eq] at hab hba
  refine SignalId.index_inj.1 ?_
  omega

/-! ## Subtrees -/

theorem mem_subtree (h : graph.WellFormed) {root id : SignalId} :
    id ∈ graph.subtree root ↔ id = root ∨ graph.Below [root] id := by
  rw [subtree, List.mem_mergeSort, List.mem_cons, mem_dependents h]
  by_cases hid : id = root
  · simp [hid]
  · simp [hid]

theorem subtree_nodup (h : graph.WellFormed) (root : SignalId) : (graph.subtree root).Nodup := by
  have hnew : root ∉ graph.dependents [root] := fun hmem =>
    ((mem_dependents h).1 hmem).2 List.mem_cons_self
  exact (List.mergeSort_perm _ _).nodup_iff.2
    (List.nodup_cons.2 ⟨hnew, dependents_nodup graph [root]⟩)

theorem subtree_live (h : graph.WellFormed) {root id : SignalId} (hroot : graph.contains root)
    (hid : id ∈ graph.subtree root) : graph.contains id := by
  rcases (mem_subtree h).1 hid with rfl | hbelow
  · exact hroot
  · obtain ⟨node, hnode, -⟩ := h.node?_of_below hbelow
    exact contains_iff.2 ⟨node, hnode⟩

/-- What a node of a subtree feeds is in the subtree. -/
theorem subtree_closed (h : graph.WellFormed) {root p c : SignalId} (hp : p ∈ graph.subtree root)
    (hfeeds : graph.Feeds p c) : c ∈ graph.subtree root := by
  refine (mem_subtree h).2 (.inr ?_)
  rcases (mem_subtree h).1 hp with rfl | hbelow
  · exact ⟨p, List.mem_cons_self, .single hfeeds⟩
  · exact hbelow.feeds hfeeds

end Graph

end EffectGraph
