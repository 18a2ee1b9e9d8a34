import EffectGraph.Proofs.Graph.Below

/-!
# Adding nodes

A cell and any other node are added in one way: `Graph.Grows` says that a graph is another one and a
new node, which has become the last output of each of its inputs. A well-formed graph that grows by
a node whose inputs exist, whose rank follows them and which has no inputs if it is a cell is
well-formed again (`WellFormed.grow`).
-/

namespace EffectGraph

namespace Graph

/-! ## Ranks of new nodes -/

/-- What the ranks of some inputs make of a rank that was found so far. -/
private theorem foldlM_rank {graph : Graph} {inputs : List SignalId} {start rank : Nat}
    (h : inputs.foldlM (fun rank id =>
      (graph.node id).map fun node => max rank (node.rank + 1)) start = .ok rank) :
    (∀ p ∈ inputs, graph.contains p) ∧ start ≤ rank ∧ (∀ p ∈ inputs, graph.rank p < rank) ∧
      (rank = start ∨ ∃ p ∈ inputs, rank = graph.rank p + 1) := by
  induction inputs generalizing start with
  | nil =>
    obtain rfl : start = rank := by simpa [pure, Except.pure] using h
    simp
  | cons input rest ih =>
    cases hnode : graph.node input with
    | error failure =>
      simp [hnode, Except.map, bind, Except.bind] at h
    | ok node =>
      have hsome := node_eq_ok.1 hnode
      simp only [List.foldlM_cons, hnode, Except.map, bind, Except.bind] at h
      obtain ⟨hlive, hstart, hbelow, htop⟩ := ih h
      have hrank : graph.rank input = node.rank := rank_of_node? hsome
      refine ⟨?_, by omega, ?_, ?_⟩
      · intro p hp
        rcases List.mem_cons.1 hp with rfl | hp
        · exact contains_iff.2 ⟨node, hsome⟩
        · exact hlive p hp
      · intro p hp
        rcases List.mem_cons.1 hp with rfl | hp
        · omega
        · exact hbelow p hp
      · rcases htop with htop | ⟨p, hp, htop⟩
        · by_cases hle : node.rank + 1 ≤ start
          · exact .inl (by omega)
          · exact .inr ⟨input, List.mem_cons_self, by omega⟩
        · exact .inr ⟨p, List.mem_cons_of_mem _ hp, htop⟩

/-- The rank of a new node follows its inputs, which all exist. -/
theorem rankAbove_eq_ok {graph : Graph} {inputs : List SignalId} {rank : Nat}
    (h : graph.rankAbove inputs = .ok rank) :
    (∀ p ∈ inputs, graph.contains p) ∧ graph.IsRankAbove inputs rank := by
  obtain ⟨hlive, -, hbelow, htop⟩ := foldlM_rank h
  refine ⟨hlive, ?_, hbelow, ?_⟩
  · rintro rfl
    simpa using htop
  · intro hne
    rcases htop with rfl | htop
    · obtain ⟨p, hp⟩ := List.exists_mem_of_ne_nil inputs hne
      exact absurd (hbelow p hp) (by omega)
    · exact htop

/-- A node can be added below nodes that exist. -/
theorem exists_insert_eq_ok {graph : Graph} {inputs : List SignalId}
    (h : ∀ p ∈ inputs, graph.contains p) (kind : NodeKind) :
    ∃ id graph', graph.insert kind inputs = .ok (id, graph') := by
  have hrank (start : Nat) : ∃ rank, inputs.foldlM (fun rank id =>
      (graph.node id).map fun node => max rank (node.rank + 1)) start = .ok rank := by
    induction inputs generalizing start with
    | nil => exact ⟨start, rfl⟩
    | cons input rest ih =>
      obtain ⟨node, hnode⟩ := contains_iff.1 (h input List.mem_cons_self)
      obtain ⟨rank, hrank⟩ := ih (fun p hp => h p (List.mem_cons_of_mem _ hp))
        (max start (node.rank + 1))
      refine ⟨rank, ?_⟩
      rw [List.foldlM_cons, node_eq_ok.2 hnode]
      exact hrank
  obtain ⟨rank, hrank⟩ := hrank 0
  exact ⟨_, _, insert_eq_ok.2 ⟨rank, hrank, rfl, rfl⟩⟩

/-! ## Growing graphs -/

/-- What becomes of an old node when a node with some inputs is added. -/
def joined (inputs : List SignalId) (id k : SignalId) (old : Node) : Node :=
  if k ∈ inputs then addOutput id old else old

section

variable (inputs : List SignalId) (id k : SignalId) (old : Node)

@[simp] theorem joined_kind : (joined inputs id k old).kind = old.kind := by
  unfold joined
  split <;> rfl

@[simp] theorem joined_value : (joined inputs id k old).value = old.value := by
  unfold joined
  split <;> rfl

@[simp] theorem joined_rank : (joined inputs id k old).rank = old.rank := by
  unfold joined
  split <;> rfl

@[simp] theorem joined_inputs : (joined inputs id k old).inputs = old.inputs := by
  unfold joined
  split <;> rfl

theorem joined_outputs : (joined inputs id k old).outputs =
    if k ∈ inputs then old.outputs ++ [id] else old.outputs := by
  unfold joined
  split <;> rfl

end

/-- A graph has one node more than another, the last output of each of its inputs. -/
structure Grows (graph graph' : Graph) (id : SignalId) (node : Node) : Prop where
  id_eq : id = ⟨graph.slots.size⟩
  size_eq : graph'.slots.size = graph.slots.size + 1
  live_eq : graph'.live = graph.live + 1
  outputs_eq : node.outputs = []
  node?_eq : ∀ k, graph'.node? k =
    if k = id then some node else (graph.node? k).map (joined node.inputs id k)

theorem grows_insertCell (graph : Graph) (value : Value) :
    Grows graph (graph.insertCell value).2 (graph.insertCell value).1 (cellNode value) where
  id_eq := rfl
  size_eq := size_insertCell graph value
  live_eq := rfl
  outputs_eq := rfl
  node?_eq k := by
    have hsame : joined [] (graph.insertCell value).1 k = fun old => old := rfl
    rw [node?_insertCell]
    simp only [cellNode, hsame, Option.map_id']
    rfl

/-- The node of a kind before its first evaluation. -/
def freshNode (kind : NodeKind) (inputs : List SignalId) (rank : Nat) : Node :=
  { kind, rank, inputs }

theorem grows_insert {graph graph' : Graph} {kind : NodeKind} {inputs : List SignalId}
    {id : SignalId} (hnodup : inputs.Nodup) (h : graph.insert kind inputs = .ok (id, graph')) :
    ∃ rank, graph.rankAbove inputs = .ok rank ∧
      Grows graph graph' id (freshNode kind inputs rank) := by
  obtain ⟨rank, hrank, hid, hsize, hlive, hnode⟩ := node?_insert hnodup h
  refine ⟨rank, hrank, hid, hsize, hlive, rfl, fun k => ?_⟩
  rw [hnode]
  by_cases hk : k ∈ inputs
  · have hjoined : joined inputs id k = addOutput id := by
      funext old
      exact if_pos hk
    simp only [freshNode, hjoined, if_pos hk]
  · have hjoined : joined inputs id k = fun old => old := by
      funext old
      exact if_neg hk
    simp only [freshNode, hjoined, if_neg hk, Option.map_id']

namespace Grows

variable {graph graph' : Graph} {id : SignalId} {node : Node}

theorem node?_self (h : Grows graph graph' id node) : graph'.node? id = some node := by
  rw [h.node?_eq, if_pos rfl]

/-- The new node stands in a slot that was not there. -/
theorem absent (h : Grows graph graph' id node) : graph.node? id = none := by
  refine node?_of_size_le ?_
  rw [h.id_eq]

theorem ne_of_node? (h : Grows graph graph' id node) {k : SignalId} {old : Node}
    (hk : graph.node? k = some old) : k ≠ id := by
  rintro rfl
  simp [h.absent] at hk

theorem ne_of_contains (h : Grows graph graph' id node) {k : SignalId} (hk : graph.contains k) :
    k ≠ id := by
  obtain ⟨old, hold⟩ := contains_iff.1 hk
  exact h.ne_of_node? hold

/-- An old node has kept all but perhaps one more output. -/
theorem node?_old (h : Grows graph graph' id node) {k : SignalId} {old : Node}
    (hk : graph.node? k = some old) :
    graph'.node? k = some (joined node.inputs id k old) := by
  rw [h.node?_eq, if_neg (h.ne_of_node? hk), hk]
  rfl

/-- Every node is the new one or an old one, with perhaps one more output. -/
theorem cases (h : Grows graph graph' id node) {k : SignalId} {node' : Node}
    (hk : graph'.node? k = some node') :
    (k = id ∧ node' = node) ∨
      ∃ old, graph.node? k = some old ∧ node' = joined node.inputs id k old := by
  by_cases hid : k = id
  · subst hid
    exact .inl ⟨rfl, Option.some.inj (hk.symm.trans h.node?_self)⟩
  · rw [h.node?_eq, if_neg hid] at hk
    obtain ⟨old, hold, rfl⟩ := Option.map_eq_some_iff.1 hk
    exact .inr ⟨old, hold, rfl⟩

theorem contains_self (h : Grows graph graph' id node) : graph'.contains id :=
  contains_iff.2 ⟨node, h.node?_self⟩

theorem contains_old (h : Grows graph graph' id node) {k : SignalId} (hk : graph.contains k) :
    graph'.contains k := by
  obtain ⟨old, hold⟩ := contains_iff.1 hk
  exact contains_iff.2 ⟨_, h.node?_old hold⟩

theorem contains_iff_of_ne (h : Grows graph graph' id node) {k : SignalId} (hk : k ≠ id) :
    graph'.contains k ↔ graph.contains k := by
  refine ⟨fun hc => ?_, h.contains_old⟩
  obtain ⟨node', hnode'⟩ := contains_iff.1 hc
  rcases h.cases hnode' with ⟨rfl, -⟩ | ⟨old, hold, -⟩
  · exact absurd rfl hk
  · exact contains_iff.2 ⟨old, hold⟩

theorem rank_old (h : Grows graph graph' id node) {k : SignalId} (hk : graph.contains k) :
    graph'.rank k = graph.rank k := by
  obtain ⟨old, hold⟩ := contains_iff.1 hk
  rw [rank_of_node? (h.node?_old hold), rank_of_node? hold, joined_rank]

/-- Every input of a node was there before the graph grew, also those of the new node. -/
theorem contains_of_mem_inputs (h : Grows graph graph' id node) (hgraph : graph.WellFormed)
    (hlive : ∀ p ∈ node.inputs, graph.contains p) {k p : SignalId} {node' : Node}
    (hk : graph'.node? k = some node') (hp : p ∈ node'.inputs) : graph.contains p := by
  rcases h.cases hk with ⟨-, rfl⟩ | ⟨old, hold, rfl⟩
  · exact hlive p hp
  · rw [joined_inputs] at hp
    exact hgraph.inputs_live hold p hp

/-- An edge of a grown graph is kept at both ends. -/
theorem linked (h : Grows graph graph' id node) (hgraph : graph.WellFormed)
    (hlive : ∀ p ∈ node.inputs, graph.contains p) {p c : SignalId} {parent child : Node}
    (hp : graph'.node? p = some parent) (hc : graph'.node? c = some child) :
    p ∈ child.inputs ↔ c ∈ parent.outputs := by
  rcases h.cases hp with ⟨rfl, rfl⟩ | ⟨oldp, holdp, rfl⟩
  · -- Nothing has the new node as an input.
    have hnone : p ∉ child.inputs := fun hmem =>
      h.ne_of_contains (h.contains_of_mem_inputs hgraph hlive hc hmem) rfl
    simp [hnone, h.outputs_eq]
  · rw [joined_outputs]
    rcases h.cases hc with ⟨rfl, rfl⟩ | ⟨oldc, holdc, rfl⟩
    · -- The new node is an output of its inputs and of nothing else.
      have hnew : c ∉ oldp.outputs := fun hmem =>
        h.ne_of_contains (hgraph.outputs_live holdp c hmem) rfl
      split
      · simp [*]
      · simp [*]
    · have hcne := h.ne_of_node? holdc
      rw [joined_inputs, hgraph.linked holdp holdc]
      split
      · simp [hcne]
      · rfl

/-- What was below some nodes still is. -/
theorem below (h : Grows graph graph' id node) {roots : List SignalId} {k : SignalId}
    (hbelow : graph.Below roots k) : graph'.Below roots k := by
  have hfeeds : graph.Feeds ≤ graph'.Feeds := by
    intro p c hpc
    obtain ⟨parent, hparent, hmem⟩ := feeds_iff.1 hpc
    refine feeds_iff.2 ⟨_, h.node?_old hparent, ?_⟩
    rw [joined_outputs]
    split
    · exact List.mem_append_left _ hmem
    · exact hmem
  obtain ⟨r, hr, hreach⟩ := hbelow
  exact ⟨r, hr, Relation.TransGen.mono hfeeds r k hreach⟩

theorem liveIds_eq (h : Grows graph graph' id node) : graph'.liveIds = graph.liveIds ++ [id] := by
  have hold : ((List.range graph.slots.size).map SignalId.mk).filter graph'.contains =
      graph.liveIds := by
    refine List.filter_congr fun k hk => ?_
    obtain ⟨i, hi, rfl⟩ := List.mem_map.1 hk
    have hne : SignalId.mk i ≠ id := by
      rw [h.id_eq]
      intro heq
      have := SignalId.mk.inj heq
      have := List.mem_range.1 hi
      omega
    exact Bool.eq_iff_iff.2 (h.contains_iff_of_ne hne)
  have hself := h.contains_self
  rw [h.id_eq] at hself
  unfold liveIds at hold ⊢
  rw [h.size_eq, List.range_succ, List.map_append, List.filter_append, hold, h.id_eq]
  simp [hself]

end Grows

/-- A rank follows inputs that all existed before the graph grew. -/
private theorem IsRankAbove.grow {graph graph' : Graph} {id : SignalId} {node : Node}
    {inputs : List SignalId} {rank : Nat} (hg : Grows graph graph' id node)
    (hlive : ∀ p ∈ inputs, graph.contains p) (h : graph.IsRankAbove inputs rank) :
    graph'.IsRankAbove inputs rank := by
  obtain ⟨hzero, hbelow, htop⟩ := h
  refine ⟨hzero, fun p hp => ?_, fun hne => ?_⟩
  · rw [hg.rank_old (hlive p hp)]
    exact hbelow p hp
  · obtain ⟨p, hp, hrank⟩ := htop hne
    exact ⟨p, hp, by rw [hg.rank_old (hlive p hp), hrank]⟩

/-- A well-formed graph stays so when it grows by a node whose inputs exist. -/
theorem WellFormed.grow {graph graph' : Graph} {id : SignalId} {node : Node}
    (h : graph.WellFormed) (hg : Grows graph graph' id node) (hnodup : node.inputs.Nodup)
    (hlive : ∀ p ∈ node.inputs, graph.contains p)
    (hrank : graph.IsRankAbove node.inputs node.rank)
    (hcell : node.kind = .cell → node.inputs = []) : graph'.WellFormed where
  live_eq := by rw [hg.live_eq, hg.liveIds_eq, List.length_append, h.live_eq]; rfl
  inputs_live hk _ hp := hg.contains_old (hg.contains_of_mem_inputs h hlive hk hp)
  outputs_live hk c hc := by
    rcases hg.cases hk with ⟨rfl, rfl⟩ | ⟨old, hold, rfl⟩
    · simp [hg.outputs_eq] at hc
    · rw [joined_outputs] at hc
      split at hc
      · rcases List.mem_append.1 hc with hc | hc
        · exact hg.contains_old (h.outputs_live hold c hc)
        · rw [List.mem_singleton.1 hc]
          exact hg.contains_self
      · exact hg.contains_old (h.outputs_live hold c hc)
  linked hp hc := hg.linked h hlive hp hc
  inputs_nodup hk := by
    rcases hg.cases hk with ⟨rfl, rfl⟩ | ⟨old, hold, rfl⟩
    · exact hnodup
    · rw [joined_inputs]
      exact h.inputs_nodup hold
  outputs_nodup hk := by
    rcases hg.cases hk with ⟨rfl, rfl⟩ | ⟨old, hold, rfl⟩
    · simp [hg.outputs_eq]
    · rw [joined_outputs]
      split
      · refine List.nodup_append.2 ⟨h.outputs_nodup hold, List.nodup_singleton _, ?_⟩
        rintro c hc d hd rfl
        exact hg.ne_of_contains (h.outputs_live hold c hc) (List.mem_singleton.1 hd)
      · exact h.outputs_nodup hold
  inputs_older hk p hp := by
    rcases hg.cases hk with ⟨rfl, rfl⟩ | ⟨old, hold, rfl⟩
    · obtain ⟨old, hold⟩ := contains_iff.1 (hlive p hp)
      rw [hg.id_eq]
      exact index_lt hold
    · rw [joined_inputs] at hp
      exact h.inputs_older hold p hp
  rank_eq hk := by
    rcases hg.cases hk with ⟨rfl, rfl⟩ | ⟨old, hold, rfl⟩
    · exact hrank.grow hg hlive
    · rw [joined_inputs, joined_rank]
      exact (h.rank_eq hold).grow hg (h.inputs_live hold)
  cell_inputs hk hkind := by
    rcases hg.cases hk with ⟨rfl, rfl⟩ | ⟨old, hold, rfl⟩
    · exact hcell hkind
    · rw [joined_kind] at hkind
      rw [joined_inputs]
      exact h.cell_inputs hold hkind

/-- Adding a cell keeps a graph well-formed. -/
theorem WellFormed.insertCell {graph : Graph} (h : graph.WellFormed) (value : Value) :
    (graph.insertCell value).2.WellFormed :=
  h.grow (grows_insertCell graph value) List.nodup_nil (fun _ hp => absurd hp List.not_mem_nil)
    ⟨fun _ => rfl, fun _ hp => absurd hp List.not_mem_nil, fun hne => absurd rfl hne⟩ fun _ => rfl

/-- Adding a node keeps a graph well-formed. -/
theorem WellFormed.insert {graph graph' : Graph} {kind : NodeKind} {inputs : List SignalId}
    {id : SignalId} (h : graph.WellFormed) (hnodup : inputs.Nodup) (hkind : kind ≠ .cell)
    (hinsert : graph.insert kind inputs = .ok (id, graph')) : graph'.WellFormed := by
  obtain ⟨rank, hrank, hg⟩ := grows_insert hnodup hinsert
  obtain ⟨hlive, habove⟩ := rankAbove_eq_ok hrank
  exact h.grow hg hnodup hlive habove fun heq => absurd heq hkind

end Graph

end EffectGraph
