import EffectGraph.Proofs.Graph.Growth
import EffectGraph.Proofs.Graph.Removal

/-!
# Nodes older than a mark

The mark of a graph is the slot that its next node takes. Whatever is added later stands in later
slots, and all that depends on a later node is later too. So as long as only later nodes are removed,
the older ones stay and keep their kinds, their ranks and their inputs, and they lose and gain later
outputs only (`AgreeUpTo`). When all later nodes are gone again, nothing is left of them
(`AgreeUpTo.wiring_eq`).
-/

namespace EffectGraph

namespace Graph

open Relation

variable {graph graph' graph'' : Graph} {mark : Nat}

/-- What ties a node to others, without its outputs in slots from a mark on. -/
def cutOff (mark : Nat) : NodeKind × Nat × List SignalId × List SignalId →
    NodeKind × Nat × List SignalId × List SignalId
  | (kind, rank, inputs, outputs) => (kind, rank, inputs, outputs.filter (·.index < mark))

theorem cutOff_cutOff {mark' : Nat} (hle : mark ≤ mark')
    (w : NodeKind × Nat × List SignalId × List SignalId) :
    cutOff mark (cutOff mark' w) = cutOff mark w := by
  obtain ⟨kind, rank, inputs, outputs⟩ := w
  simp only [cutOff, List.filter_filter, Prod.mk.injEq, true_and]
  refine List.filter_congr fun id _ => ?_
  by_cases hid : id.index < mark
  · simp [hid, hid.trans_le hle]
  · simp [hid]

/-- The graphs have the same nodes in the slots before the mark, apart from their values and from
their outputs in later slots. -/
def AgreeUpTo (mark : Nat) (graph graph' : Graph) : Prop :=
  ∀ id, id.index < mark → (graph'.node? id).map (cutOff mark ∘ wiring) =
    (graph.node? id).map (cutOff mark ∘ wiring)

namespace AgreeUpTo

theorem refl (mark : Nat) (graph : Graph) : AgreeUpTo mark graph graph := fun _ _ => rfl

theorem trans (h : AgreeUpTo mark graph graph') (h' : AgreeUpTo mark graph' graph'') :
    AgreeUpTo mark graph graph'' := fun id hid => (h' id hid).trans (h id hid)

theorem mono {mark' : Nat} (h : AgreeUpTo mark' graph graph') (hle : mark ≤ mark') :
    AgreeUpTo mark graph graph' := by
  intro id hid
  have hcut : cutOff mark ∘ wiring = cutOff mark ∘ (cutOff mark' ∘ wiring) :=
    funext fun node => (cutOff_cutOff hle (wiring node)).symm
  rw [hcut, ← Option.map_map, h id (hid.trans_le hle), Option.map_map]

/-- Storing values changes nothing. -/
theorem of_wiring (h : SameWiring graph graph') : AgreeUpTo mark graph graph' := by
  intro id _
  rw [← Option.map_map, ← Option.map_map, h.wiring_eq]

/-- A new node is later than all marks so far. -/
theorem of_grows {id : SignalId} {node : Node} (hg : Grows graph graph' id node)
    (hmark : mark ≤ graph.slots.size) : AgreeUpTo mark graph graph' := by
  intro k hk
  have hnew : ¬ id.index < mark := by
    rw [hg.id_eq]
    exact hmark.not_gt
  have hne : k ≠ id := fun heq => hnew (heq ▸ hk)
  rw [hg.node?_eq, if_neg hne, Option.map_map]
  refine congrArg (Option.map · (graph.node? k)) (funext fun old => ?_)
  simp only [Function.comp_apply, wiring, cutOff, joined_kind, joined_rank, joined_inputs,
    joined_outputs]
  split
  · simp [hnew]
  · rfl

/-- Removing later nodes takes nothing away that counts. -/
theorem of_erase {removed : List SignalId} (hremoved : ∀ k ∈ removed, mark ≤ k.index) :
    AgreeUpTo mark graph (graph.erase removed) := by
  intro k hk
  have hstays : k ∉ removed := fun hmem => (hremoved k hmem).not_gt hk
  rw [node?_erase, if_neg hstays, Option.map_map]
  refine congrArg (Option.map · (graph.node? k)) (funext fun old => ?_)
  simp only [Function.comp_apply, wiring, cutOff, pruned, List.filter_filter]
  refine Prod.ext rfl (Prod.ext rfl (Prod.ext rfl (List.filter_congr fun c _ => ?_)))
  by_cases hc : c.index < mark
  · have hkept : c ∉ removed := fun hmem => (hremoved c hmem).not_gt hc
    simp [hc, hkept]
  · simp [hc]

end AgreeUpTo

/-! ## Removing later nodes -/

/-- Edges lead to later nodes. -/
theorem WellFormed.index_lt_of_feeds (h : graph.WellFormed) {p c : SignalId}
    (hfeeds : graph.Feeds p c) : p.index < c.index := by
  obtain ⟨-, child, -, hchild, hinput⟩ := h.feeds hfeeds
  exact h.inputs_older hchild p hinput

/-- Whatever is below a node is later. -/
theorem WellFormed.le_of_mem_subtree (h : graph.WellFormed) {root id : SignalId}
    (hid : id ∈ graph.subtree root) : root.index ≤ id.index := by
  rcases (mem_subtree h).1 hid with rfl | ⟨r, hr, hreach⟩
  · exact le_rfl
  · rw [List.mem_singleton.1 hr] at hreach
    clear hid
    induction hreach with
    | single hfeeds => exact (h.index_lt_of_feeds hfeeds).le
    | tail _ hfeeds ih => exact ih.trans (h.index_lt_of_feeds hfeeds).le

/-- Removing a later node removes later nodes only. -/
theorem WellFormed.remove_later (h : graph.WellFormed) {id : SignalId} {removed : List SignalId}
    (hremove : graph.remove id = .ok (removed, graph')) (hid : mark ≤ id.index) :
    (∀ k ∈ removed, mark ≤ k.index) ∧ AgreeUpTo mark graph graph' := by
  obtain ⟨-, rfl, rfl⟩ := remove_eq_ok.1 hremove
  have hlater : ∀ k ∈ graph.subtree id, mark ≤ k.index := fun k hk =>
    hid.trans (h.le_of_mem_subtree hk)
  exact ⟨hlater, .of_erase hlater⟩

/-! ## When all later nodes are gone -/

namespace AgreeUpTo

/-- If all nodes of a graph are older than the mark, so are all outputs of a node. -/
private theorem map_cutOff (h : graph.WellFormed)
    (hold : ∀ id, graph.contains id → id.index < mark) (id : SignalId) :
    (graph.node? id).map (cutOff mark ∘ wiring) = (graph.node? id).map wiring := by
  cases hnode : graph.node? id with
  | none => rfl
  | some node =>
    have houtputs : ∀ c ∈ node.outputs, c.index < mark := fun c hc =>
      hold c (h.outputs_live hnode c hc)
    have hall : node.outputs.filter (·.index < mark) = node.outputs :=
      List.filter_eq_self.2 fun c hc => decide_eq_true (houtputs c hc)
    simp only [Option.map_some, Function.comp_apply, wiring, cutOff, hall]

/-- When all that was added has been removed, every node is tied to others as before. -/
theorem wiring_eq (hagree : AgreeUpTo graph.slots.size graph graph') (h : graph.WellFormed)
    (h' : graph'.WellFormed) (hold : ∀ id, graph'.contains id → id.index < graph.slots.size)
    (id : SignalId) : (graph'.node? id).map wiring = (graph.node? id).map wiring := by
  by_cases hid : id.index < graph.slots.size
  · have hbefore : ∀ k, graph.contains k → k.index < graph.slots.size := fun k hk => by
      obtain ⟨node, hnode⟩ := contains_iff.1 hk
      exact index_lt hnode
    rw [← map_cutOff h' hold, ← map_cutOff h hbefore]
    exact hagree id hid
  · have hnone : graph.node? id = none := node?_of_size_le (not_lt.1 hid)
    have hnone' : graph'.node? id = none := by
      rw [Option.eq_none_iff_forall_ne_some]
      exact fun node hnode => hid (hold id (contains_iff.2 ⟨node, hnode⟩))
    rw [hnone, hnone']

end AgreeUpTo

/-- No node is created since the present moment. -/
theorem createdSince_mark (graph : Graph) : graph.createdSince graph.mark = [] := by
  refine List.filter_eq_nil_iff.2 fun id hid => ?_
  obtain ⟨node, hnode⟩ := contains_iff.1 (mem_liveIds.1 hid)
  have hlt : id.index < graph.mark := index_lt hnode
  simpa using hlt

/-- Graphs with the same nodes list them alike, however many slots have been used up. -/
theorem liveIds_eq_of_contains (hsize : graph.slots.size ≤ graph'.slots.size)
    (h : ∀ id, graph'.contains id = graph.contains id) : graph'.liveIds = graph.liveIds := by
  obtain ⟨extra, hextra⟩ := Nat.exists_eq_add_of_le hsize
  have hnone : (((List.range extra).map (graph.slots.size + ·)).map SignalId.mk).filter
      graph.contains = [] := by
    refine List.filter_eq_nil_iff.2 fun id hid => ?_
    simp only [List.map_map, List.mem_map, Function.comp_apply] at hid
    obtain ⟨k, -, rfl⟩ := hid
    have habsent : graph.node? ⟨graph.slots.size + k⟩ = none :=
      node?_of_size_le (Nat.le_add_right _ _)
    simp [contains, habsent]
  unfold liveIds
  rw [funext h, hextra, List.range_add, List.map_append, List.filter_append, hnone, List.append_nil]

end Graph

end EffectGraph
