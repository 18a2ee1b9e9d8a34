import EffectGraph.Proofs.Graph.Below
import EffectGraph.Proofs.Graph.Resolving
import EffectGraph.Session.Settling

/-!
# What is up to date

A derived node is *current* if it holds what its computation gives for the current values of its
inputs, or if the computation fails on them. A write of a cell makes the nodes that read it stale.
It stays *open* until a pass over the graph starts from the cell, and a node has not *read* it until
the pass starts or the node is evaluated for some other reason. `Session.IsGood` says what can be
relied on when the evaluation of a node, a reducer or a listener begins: every node is current that
has read all writes of its inputs.
-/

namespace EffectGraph

/-- The cells that the settling of a change starts from. -/
def Change.roots : Change → List SignalId
  | .written cell => [cell]
  | .fired .. => []

/-- Only a write can wait already. -/
theorem Change.waitsIn_iff {change : Change} {queue : List Change} :
    change.waitsIn queue = true ↔ ∃ cell, change = .written cell ∧ .written cell ∈ queue := by
  cases change with
  | fired source payload => simp [waitsIn]
  | written cell =>
    simp only [waitsIn, List.any_eq_true, Change.written.injEq, exists_eq_left']
    constructor
    · rintro ⟨waiting, hmem, hwrite⟩
      cases waiting with
      | fired source payload => cases hwrite
      | written other =>
        obtain rfl : other = cell := by simpa [isWrite] using hwrite
        exact hmem
    · exact fun hmem => ⟨_, hmem, by simp [isWrite]⟩

theorem Change.written_mem_of_waitsIn {change : Change} {queue : List Change} {cell : SignalId}
    (hwaits : change.waitsIn queue = true) (hcell : cell ∈ change.roots) :
    .written cell ∈ queue := by
  obtain ⟨waiting, rfl, hmem⟩ := waitsIn_iff.1 hwaits
  rwa [List.mem_singleton.1 hcell]

/-- The cells written since a pass last started from them. -/
def openWrites : List Moment → List SignalId
  | [] => []
  | ⟨.wrote cell _, _⟩ :: earlier => cell :: openWrites earlier
  | ⟨.propagating roots, _⟩ :: earlier => (openWrites earlier).filter (· ∉ roots)
  | _ :: earlier => openWrites earlier

/-- The cells written since a pass last started from them, and since the node was last evaluated. -/
def unread (reader : SignalId) : List Moment → List SignalId
  | [] => []
  | ⟨.wrote cell _, _⟩ :: earlier => cell :: unread reader earlier
  | ⟨.propagating roots, _⟩ :: earlier => (unread reader earlier).filter (· ∉ roots)
  | ⟨.evaluating id _, _⟩ :: earlier => if reader = id then [] else unread reader earlier
  | _ :: earlier => unread reader earlier

/-- What the node has not read was written, and no pass has started from it. -/
theorem unread_subset_openWrites (reader : SignalId) (past : List Moment) :
    unread reader past ⊆ openWrites past := by
  induction past with
  | nil => exact List.Subset.refl _
  | cons m earlier ih =>
    obtain ⟨activity, scene⟩ := m
    cases activity with
    | wrote cell value => exact List.cons_subset_cons cell ih
    | propagating roots =>
      intro cell hcell
      obtain ⟨hunread, hroot⟩ := List.mem_filter.1 hcell
      exact List.mem_filter.2 ⟨ih hunread, hroot⟩
    | evaluating id inputs =>
      unfold unread
      split
      · exact List.nil_subset _
      · exact ih
    | queued | applied | reducing | listening => exact ih

/-- The node has read all writes of its inputs. -/
def HasRead (past : List Moment) (id : SignalId) (node : Node) : Prop :=
  ∀ cell ∈ node.inputs, cell ∉ unread id past

namespace Session

variable (session : Session)

/-- Executed somewhere, the script ends with the result. -/
def Yields (script : Script) (result : Except Interrupt Value) : Prop :=
  ∃ level w w', session.execute level script w = some (result, w')

/-- A computation is pure if its result is a function of its inputs, and it does nothing but write
into the journal, whether it ends or not. -/
def IsPure (compute : List Value → Script) : Prop :=
  ∃ f : List Value → Except Interrupt Value, ∀ inputs level w,
    (∀ result ∈ (session.advance level (compute inputs) w).1, result = f inputs) ∧
      ∃ journal, (session.advance level (compute inputs) w).2 = { w with journal }

/-- Everything that was ever derived is computed in a pure way. -/
def PureSoFar (past : List Moment) : Prop :=
  ∀ m ∈ past, ∀ id node operands compute, m.scene.value.graph.node? id = some node →
    node.kind = .derived operands compute → session.IsPure compute

/-- If the node is derived, it holds what its computation gives for the current values of its
inputs, or the computation fails on them. -/
def IsCurrent (graph : Graph) (node : Node) : Prop :=
  ∀ operands compute, node.kind = .derived operands compute →
    ∃ inputs, operands.mapM graph.resolve = .ok inputs ∧
      (session.Yields (compute inputs) (.ok node.value) ∨
        ∃ interrupt, session.Yields (compute inputs) (.error interrupt))

/-- All nodes are current that have read the writes of their inputs, but for some exceptions. -/
def IsFresh (graph : Graph) (past : List Moment) (exceptions : List SignalId) : Prop :=
  ∀ id node, graph.node? id = some node → id ∉ exceptions → HasRead past id node →
    session.IsCurrent graph node

/-- What can be relied on at a moment. -/
def IsGood (m : Moment) (earlier : List Moment) : Prop :=
  match m.activity with
  | .evaluating id inputs =>
    ∃ node, m.scene.value.graph.node? id = some node ∧
      m.scene.value.graph.inputsOf node.kind = .ok inputs ∧
      ∀ p ∈ node.inputs, ∀ input, m.scene.value.graph.node? p = some input →
        HasRead earlier p input → session.IsCurrent m.scene.value.graph input
  | .reducing .. | .listening _ => session.IsFresh m.scene.value.graph earlier []
  | _ => True

/-- All moments of a past are good. -/
def AllGood : List Moment → Prop
  | [] => True
  | m :: earlier => session.IsGood m earlier ∧ AllGood earlier

variable {session}

theorem AllGood.isGood {past later earlier : List Moment} {m : Moment} (h : session.AllGood past)
    (hpast : past = later ++ m :: earlier) : session.IsGood m earlier := by
  subst hpast
  induction later with
  | nil => exact h.1
  | cons _ rest ih => exact ih h.2

theorem PureSoFar.of_suffix {past past' : List Moment} (h : session.PureSoFar past')
    (hsuffix : past <:+ past') : session.PureSoFar past :=
  fun m hm => h m (hsuffix.subset hm)

/-- Being current depends on the kind and the value of a node and on the values of its inputs. -/
theorem IsCurrent.congr {graph graph' : Graph} {node node' : Node}
    (h : session.IsCurrent graph node) (hkind : node'.kind = node.kind)
    (hvalue : node'.value = node.value)
    (hinputs : ∀ p ∈ node.kind.dependencies, graph.value p = graph'.value p) :
    session.IsCurrent graph' node' := by
  intro operands compute hderived
  rw [hkind] at hderived
  rw [hderived] at hinputs
  obtain ⟨inputs, hresolved, hyields⟩ := h operands compute hderived
  refine ⟨inputs, ?_, by rwa [hvalue]⟩
  rw [← Graph.mapM_resolve_congr hinputs]
  exact hresolved

end Session

end EffectGraph
