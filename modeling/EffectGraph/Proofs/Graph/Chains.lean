import EffectGraph.Proofs.Graph.Growth

/-!
# Graphs that grow at their end

`Graph.ofNodes` is the graph in whose slots a list of nodes stands. A new cell is put at the end of
the list. So is a node whose only input is the last one, and once it has its value it is the last one
itself: a chain of nodes can be followed from one end to the other without looking at what stands in
front of it.
-/

namespace EffectGraph

namespace Graph

/-- The graph with some nodes in its first slots, and with no others. -/
def ofNodes (nodes : List Node) : Graph := ⟨(nodes.map some).toArray, nodes.length⟩

variable {nodes : List Node}

@[simp] theorem size_ofNodes (nodes : List Node) : (ofNodes nodes).slots.size = nodes.length := by
  simp [ofNodes]

theorem node?_ofNodes (nodes : List Node) (id : SignalId) :
    (ofNodes nodes).node? id = nodes[id.index]? := by
  simp only [node?, ofNodes, List.getElem?_toArray, List.getElem?_map]
  cases nodes[id.index]? <;> rfl

/-- All the slots are in use. -/
theorem liveIds_ofNodes (nodes : List Node) :
    (ofNodes nodes).liveIds = (List.range nodes.length).map SignalId.mk := by
  unfold liveIds
  rw [size_ofNodes, List.filter_eq_self]
  intro id hid
  obtain ⟨k, hk, rfl⟩ := List.mem_map.1 hid
  rw [contains, node?_ofNodes, List.getElem?_eq_getElem (List.mem_range.1 hk)]
  rfl

theorem insertCell_ofNodes (nodes : List Node) (value : Value) :
    (ofNodes nodes).insertCell value = (⟨nodes.length⟩, ofNodes (nodes ++ [cellNode value])) := by
  simp [insertCell, ofNodes, cellNode]

/-! ## The last node -/

section

variable {front : List Node} {n : Nat} (hlength : front.length = n) (last : Node)

include hlength

theorem node?_last : (ofNodes (front ++ [last])).node? ⟨n⟩ = some last := by
  subst hlength
  rw [node?_ofNodes, List.getElem?_concat_length]

theorem modify_last (f : Node → Node) :
    (ofNodes (front ++ [last])).modify ⟨n⟩ f = ofNodes (front ++ [f last]) := by
  subst hlength
  have hslots : (front.map some ++ [some last]).modify front.length (Option.map f) =
      front.map some ++ [some (f last)] := by
    rw [List.modify_eq_take_drop]
    simp
  simp [modify, ofNodes, hslots]

theorem settle_last (value : Value) :
    (ofNodes (front ++ [last])).settle ⟨n⟩ value =
      .ok (ofNodes (front ++ [settledNode value last])) :=
  settle_eq_ok.2 ⟨⟨last, node?_last hlength last⟩, (modify_last hlength last _).symm⟩

end

/-! ## Below the last node -/

/-- The nodes with a new one of some kind below the last one, which is in slot `n`. -/
def belowLast (front : List Node) (last : Node) (n : Nat) (kind : NodeKind) : List Node :=
  (front ++ [addOutput ⟨n + 1⟩ last]) ++ [freshNode kind [⟨n⟩] (last.rank + 1)]

/-- The nodes with a new one below the last one that has its first value. -/
def belowLastWith (front : List Node) (last : Node) (n : Nat) (kind : NodeKind) (value : Value) :
    List Node :=
  (front ++ [addOutput ⟨n + 1⟩ last]) ++ [settledNode value (freshNode kind [⟨n⟩] (last.rank + 1))]

section

variable {front : List Node} {n : Nat} (hlength : front.length = n) (last : Node) (kind : NodeKind)

include hlength

theorem insert_below_last : (ofNodes (front ++ [last])).insert kind [⟨n⟩] =
    .ok (⟨n + 1⟩, ofNodes (belowLast front last n kind)) := by
  have hrank : (ofNodes (front ++ [last])).rankAbove [⟨n⟩] = .ok (last.rank + 1) := by
    unfold rankAbove
    rw [List.foldlM_cons, node_eq_ok.2 (node?_last hlength last)]
    simp [Except.map, bind, Except.bind, pure, Except.pure]
  have hlink : (ofNodes (front ++ [last])).link [⟨n⟩] ⟨n + 1⟩ =
      ofNodes (front ++ [addOutput ⟨n + 1⟩ last]) := modify_last hlength last (addOutput ⟨n + 1⟩)
  refine insert_eq_ok.2 ⟨_, hrank, by simp [hlength], ?_⟩
  rw [hlink]
  simp [ofNodes, belowLast, freshNode]

/-- The input of the new node has kept its value. -/
theorem value_below_last : (ofNodes (belowLast front last n kind)).value ⟨n⟩ = .ok last.value := by
  have hnode : (ofNodes (belowLast front last n kind)).node? ⟨n⟩ = some (addOutput ⟨n + 1⟩ last) := by
    subst hlength
    rw [node?_ofNodes, belowLast, List.getElem?_append_left (by simp), List.getElem?_concat_length]
  rw [value, node_eq_ok.2 hnode]
  rfl

theorem settle_below_last (value : Value) :
    (ofNodes (belowLast front last n kind)).settle ⟨n + 1⟩ value =
      .ok (ofNodes (belowLastWith front last n kind value)) :=
  settle_last (by simp [hlength]) (freshNode kind [⟨n⟩] (last.rank + 1)) value

end

/-! ## A stretch of nodes -/

section

variable {front nodes : List Node} {n i : Nat} {node : Node} (hlength : front.length = n)
  (back : List Node) (hnode : nodes[i]? = some node)

include hlength hnode

theorem node?_within : (ofNodes (front ++ nodes ++ back)).node? ⟨n + i⟩ = some node := by
  subst hlength
  have hi : i < nodes.length := (List.getElem?_eq_some_iff.1 hnode).1
  rw [node?_ofNodes, List.append_assoc, List.getElem?_append_right (Nat.le_add_right _ _),
    Nat.add_sub_cancel_left, List.getElem?_append_left hi, hnode]

theorem value_within : (ofNodes (front ++ nodes ++ back)).value ⟨n + i⟩ = .ok node.value := by
  rw [value, node_eq_ok.2 (node?_within hlength back hnode)]
  rfl

/-- A node of the stretch gets a value, and what is in front of it and behind it stays. -/
theorem settle_within (value : Value) : (ofNodes (front ++ nodes ++ back)).settle ⟨n + i⟩ value =
    .ok (ofNodes (front ++ nodes.modify i (settledNode value) ++ back)) := by
  refine settle_eq_ok.2 ⟨⟨node, node?_within hlength back hnode⟩, ?_⟩
  subst hlength
  have hi : i < nodes.length := (List.getElem?_eq_some_iff.1 hnode).1
  have hslots : ((front ++ nodes ++ back).map some).modify (front.length + i)
      (Option.map (settledNode value)) =
        (front ++ nodes.modify i (settledNode value) ++ back).map some := by
    refine List.ext_getElem? fun k => ?_
    grind
  unfold modify ofNodes
  rw [List.modify_toArray, hslots]
  simp

end

/-! ## Plans -/

/-- The node without all that plans do not depend on. -/
def bare (node : Node) : Node := { kind := .cell, rank := node.rank, outputs := node.outputs }

/-- What a change has to pass through depends on ranks and outputs only. -/
theorem plan_bare (nodes : List Node) (roots : List SignalId) :
    (ofNodes nodes).plan roots = (ofNodes (nodes.map bare)).plan roots := by
  have houtputs (id : SignalId) :
      (ofNodes (nodes.map bare)).outputs id = (ofNodes nodes).outputs id := by
    unfold outputs
    rw [node?_ofNodes, node?_ofNodes, List.getElem?_map]
    cases nodes[id.index]? <;> rfl
  have hrank (id : SignalId) : (ofNodes (nodes.map bare)).rank id = (ofNodes nodes).rank id := by
    unfold rank
    rw [node?_ofNodes, node?_ofNodes, List.getElem?_map]
    cases nodes[id.index]? <;> rfl
  have hroads : (ofNodes (nodes.map bare)).roads = (ofNodes nodes).roads := by
    unfold roads
    simp only [houtputs, size_ofNodes, List.length_map]
  have hbefore : (ofNodes (nodes.map bare)).before = (ofNodes nodes).before := by
    funext a b
    simp only [before, hrank]
  unfold plan dependents
  rw [hroads, hbefore, funext houtputs]

end Graph

end EffectGraph
