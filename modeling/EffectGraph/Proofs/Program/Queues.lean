import EffectGraph.Program.Machine
import Mathlib.Data.List.Infix
import Mathlib.Data.List.ReduceOption
import Mathlib.Logic.Relation

/-!
# Queues that wait as one queue

`Pending` keeps the queue being drained and the suspended ones apart, so that no queue is ever copied. Who
pushes queues and pops continuations cannot tell this from one list that the queues are put in front of
(`Pending.queues_are_one_queue`): every operation does to `Pending.toList` what it does to a list.

No suspended queue is empty (`Pending.Tight`): a queue is suspended only if there is something left in it. All
queues that wait in a run arise by pushing and popping from none, also those saved with a handler
(`Machine.queuesArise_of_steps`).
-/

namespace EffectGraph

namespace Pending

/-- What is done to the continuations that wait. -/
inductive Operation where
  /-- A queue is pushed. -/
  | push (queue : List Continuation)
  /-- The first one is popped. -/
  | pop

namespace Operation

/-- The continuations that an operation brings. -/
def brought : Operation → List Continuation
  | .push queue => queue
  | .pop => []

/-- What an operation pops from a list, and the list after it. -/
def onList (waiting : List Continuation) : Operation → Option Continuation × List Continuation
  | .push queue => (none, queue ++ waiting)
  | .pop => (waiting.head?, waiting.tail)

/-- What an operation pops from queues, and the queues after it. Looking in vain for a continuation uses up
all queues. -/
def onQueues (p : Pending) : Operation → Option Continuation × Pending
  | .push queue => (none, p.push queue)
  | .pop =>
    match p.pop with
    | some (k, rest) => (some k, rest)
    | none => (none, empty)

end Operation

/-- What operations pop, one after the other, and what they lead to. -/
def inTurn {σ : Type} (operate : σ → Operation → Option Continuation × σ) (s : σ) :
    List Operation → List (Option Continuation) × σ
  | [] => ([], s)
  | operation :: rest =>
    let (popped, s') := operate s operation
    let (others, last) := inTurn operate s' rest
    (popped :: others, last)

/-- What operations pop if nothing waits at first. -/
def answers (operations : List Operation) : List (Option Continuation) :=
  (inTurn Operation.onQueues empty operations).1

/-- The queues after operations if nothing waits at first. -/
def after (operations : List Operation) : Pending :=
  (inTurn Operation.onQueues empty operations).2

variable {p q : Pending} {k : Continuation}

/-! ## The list of all that wait -/

/-- The first of all that wait is what is popped, and the others are what waits after it. -/
theorem toList_eq_cons_iff {rest : List Continuation} :
    p.toList = k :: rest ↔ ∃ q, p.pop = some (k, q) ∧ q.toList = rest := by
  constructor
  · intro hall
    cases hpop : p.pop with
    | none => exact absurd (hall.symm.trans (pop_eq_none.1 hpop)) (List.cons_ne_nil k rest)
    | some popped =>
      obtain ⟨rfl, hrest⟩ := List.cons.inj ((pop_eq_some hpop).symm.trans hall)
      exact ⟨popped.2, rfl, hrest⟩
  · rintro ⟨q, hpop, rfl⟩
    exact pop_eq_some hpop

theorem toList_onQueues (p : Pending) (operation : Operation) :
    ((operation.onQueues p).1, (operation.onQueues p).2.toList) = operation.onList p.toList := by
  cases operation with
  | push queue => simp only [Operation.onQueues, Operation.onList, toList_push]
  | pop =>
    unfold Operation.onQueues Operation.onList
    cases hpop : p.pop with
    | none => simp [pop_eq_none.1 hpop]
    | some popped => simp [pop_eq_some hpop]

/-- Operations on queues pop what they pop from the list of all that wait, and lead to queues with the list
that they lead to. -/
theorem inTurn_onQueues (p : Pending) (operations : List Operation) :
    ((inTurn Operation.onQueues p operations).1, (inTurn Operation.onQueues p operations).2.toList) =
      inTurn Operation.onList p.toList operations := by
  induction operations generalizing p with
  | nil => rfl
  | cons operation rest ih =>
    rw [inTurn, inTurn, ← toList_onQueues]
    dsimp only
    rw [← ih]

/-- What was popped and what still waits are what waited before and what was brought. -/
theorem inTurn_onList_perm (waiting : List Continuation) (operations : List Operation) :
    ((inTurn Operation.onList waiting operations).1.reduceOption ++
      (inTurn Operation.onList waiting operations).2).Perm
      (operations.flatMap Operation.brought ++ waiting) := by
  induction operations generalizing waiting with
  | nil => exact .refl _
  | cons operation rest ih =>
    rw [List.flatMap_cons, inTurn]
    cases operation with
    | push queue =>
      have hrest := ih (queue ++ waiting)
      rw [← List.append_assoc] at hrest
      exact hrest.trans (List.perm_append_comm.append_right waiting)
    | pop =>
      cases waiting with
      | nil => exact ih []
      | cons k waiting => exact ((ih waiting).cons k).trans List.perm_middle.symm

/-! ## No suspended queue is empty -/

theorem tight_empty : (empty : Pending).Tight := fun _ hqueue => absurd hqueue List.not_mem_nil

theorem Tight.push (h : p.Tight) (queue : List Continuation) : (p.push queue).Tight := by
  unfold Pending.push
  split
  · exact h
  · split
    · exact h
    · rename_i hcurrent
      exact List.forall_mem_cons.2 ⟨by simpa using hcurrent, h⟩

/-- Popping suspends no queue. -/
theorem suspended_subset_of_popFrom {queues : List (List Continuation)}
    (h : popFrom queues = some (k, p)) : p.suspended ⊆ queues.tail := by
  induction queues with
  | nil => simp [popFrom] at h
  | cons queue rest ih =>
    cases queue with
    -- An empty queue is dropped, and the search goes on in those behind it.
    | nil => exact List.Subset.trans (ih h) (List.tail_subset rest)
    | cons first queue =>
      simp only [popFrom, Option.some.injEq, Prod.mk.injEq] at h
      obtain ⟨-, rfl⟩ := h
      exact List.Subset.refl rest

theorem Tight.pop (h : p.Tight) (hpop : p.pop = some (k, q)) : q.Tight :=
  fun queue hqueue => h queue (suspended_subset_of_popFrom hpop hqueue)

/-- Queues with nothing in them are all used up. -/
theorem Tight.eq_empty (h : p.Tight) (hnone : p.toList = []) : p = empty := by
  obtain ⟨hcurrent, hsuspended⟩ := List.append_eq_nil_iff.1 hnone
  have hall : p.suspended = [] := List.eq_nil_iff_forall_not_mem.2 fun queue hqueue =>
    h queue hqueue (List.flatten_eq_nil_iff.1 hsuspended queue hqueue)
  cases p
  cases hcurrent
  cases hall
  rfl

/-! ## Queues that arise -/

/-- The queues arise by operations from none. -/
def Arises (p : Pending) : Prop := ∃ operations, after operations = p

theorem after_concat (operations : List Operation) (operation : Operation) :
    after (operations ++ [operation]) = (operation.onQueues (after operations)).2 := by
  unfold after
  -- The first operation changes what the others start from.
  generalize empty = p
  induction operations generalizing p with
  | nil => rfl
  | cons first rest ih => exact ih (first.onQueues p).2

theorem arises_empty : (empty : Pending).Arises := ⟨[], rfl⟩

theorem Arises.push (h : p.Arises) (queue : List Continuation) : (p.push queue).Arises := by
  obtain ⟨operations, rfl⟩ := h
  exact ⟨operations ++ [.push queue], after_concat operations (.push queue)⟩

theorem Arises.pop (h : p.Arises) (hpop : p.pop = some (k, q)) : q.Arises := by
  obtain ⟨operations, rfl⟩ := h
  refine ⟨operations ++ [.pop], (after_concat operations .pop).trans ?_⟩
  rw [Operation.onQueues, hpop]

theorem Arises.tight (h : p.Arises) : p.Tight := by
  obtain ⟨operations, rfl⟩ := h
  induction operations using List.reverseRecOn with
  | nil => exact tight_empty
  | append_singleton rest operation ih =>
    rw [after_concat]
    cases operation with
    | push queue => exact ih.push queue
    | pop =>
      unfold Operation.onQueues
      cases hpop : (after rest).pop with
      | none => exact tight_empty
      | some popped => exact ih.pop hpop

/-- **The queues are one queue.** After any operations, those that wait are the queue being drained and then
the suspended queues, the latest first. Pushing a queue puts it in front of them; popping gives the first of
them and leaves the others, and gives nothing exactly if none is left, and nothing of the queues either. No
suspended queue is empty. So the operations have popped what they pop from one list, and what was popped and
what still waits are together what was pushed, each continuation as often as it was. -/
theorem queues_are_one_queue (operations : List Operation) :
    (after operations).toList =
      (after operations).current ++ (after operations).suspended.flatten ∧
    (∀ queue, ((after operations).push queue).toList = queue ++ (after operations).toList) ∧
    (∀ k rest, (after operations).toList = k :: rest ↔
      ∃ q, (after operations).pop = some (k, q) ∧ q.toList = rest) ∧
    ((after operations).pop = none ↔ (after operations).toList = []) ∧
    ((after operations).toList = [] ↔ after operations = empty) ∧
    (after operations).Tight ∧
    inTurn Operation.onList [] operations = (answers operations, (after operations).toList) ∧
    ((answers operations).reduceOption ++ (after operations).toList).Perm
      (operations.flatMap Operation.brought) := by
  have htight : (after operations).Tight := Arises.tight ⟨operations, rfl⟩
  have hlist : inTurn Operation.onList [] operations = (answers operations, (after operations).toList) :=
    (inTurn_onQueues empty operations).symm
  have hperm := inTurn_onList_perm [] operations
  rw [hlist, List.append_nil] at hperm
  exact ⟨rfl, toList_push _, fun _ _ => toList_eq_cons_iff, pop_eq_none,
    ⟨htight.eq_empty, fun h => h ▸ rfl⟩, htight, hlist, hperm⟩

/-- A queue that was suspended is drained after the one that was pushed over it. -/
example (a b c : Continuation) :
    answers [.push [a, c], .pop, .push [b], .push [], .pop, .pop, .pop] =
      [none, some a, none, none, some b, some c, none] := rfl

end Pending

/-! ## Queues in runs -/

/-- The queues that wait arise by operations, and so do those saved with a handler. -/
structure Machine.QueuesArise {σ : Type} (m : Machine σ) : Prop where
  pending : m.pending.Arises
  saved : ∀ guard ∈ m.guards, guard.saved.Arises

/-- The queues that the transition leads to arise by operations. -/
def Transition.QueuesArise {σ : Type} : Transition σ → Prop
  | .next m => m.QueuesArise
  | .halt _ => True

namespace Machine

variable {σ : Type} {pending : Pending} {guards : List Guard}

theorem queuesArise_resume (hpending : pending.Arises) (hguards : ∀ guard ∈ guards, guard.saved.Arises)
    (value : Value) (steps : Nat) (s : σ) : (resume value pending guards steps s).QueuesArise := by
  unfold resume
  split
  · rename_i hpop
    exact ⟨hpending.pop hpop, hguards⟩
  · split
    · exact ⟨hguards _ List.mem_cons_self, fun g hg => hguards g (List.mem_cons_of_mem _ hg)⟩
    · trivial

theorem queuesArise_raise (hguards : ∀ guard ∈ guards, guard.saved.Arises) (payload : Value)
    (steps : Nat) (s : σ) : (raise payload guards steps s).QueuesArise := by
  unfold raise
  split
  · exact ⟨hguards _ List.mem_cons_self, fun g hg => hguards g (List.mem_cons_of_mem _ hg)⟩
  · trivial

variable {interpreter : Interpreter σ} {limit : Option Nat}

/-- A step pushes the queue of the program and that of an operand, pops a continuation, or saves the queues and
starts with none. -/
theorem QueuesArise.step {m : Machine σ} (h : m.QueuesArise) :
    (step interpreter limit m).QueuesArise := by
  unfold Machine.step
  split
  · trivial
  · dsimp only
    have hwaits : (m.pending.push m.program.split.2).Arises := h.pending.push _
    cases m.program.split.1 with
    | pure value => exact queuesArise_resume hwaits h.saved _ _ _
    | throw payload => exact queuesArise_raise h.saved _ _ _
    | attempt body handler =>
      exact ⟨Pending.arises_empty, List.forall_mem_cons.2 ⟨hwaits, h.saved⟩⟩
    | perform i =>
      simp only [dispatch, perform]
      split
      · rename_i operand fill _
        exact ⟨hwaits.push [fun value => .perform (fill value)], h.saved⟩
      · split
        · trivial
        · exact queuesArise_resume hwaits h.saved _ _ _
        · exact queuesArise_raise h.saved _ _ _
        · trivial

/-- Wherever a run of a program gets to, the queues that wait there and those saved with the handlers arise by
operations. -/
theorem queuesArise_of_steps {program : Program} {state : σ} {m : Machine σ}
    (h : Relation.ReflTransGen (fun m m' => Next interpreter limit m' m) { program, state } m) :
    m.QueuesArise := by
  induction h with
  | refl => exact ⟨Pending.arises_empty, fun _ hguard => absurd hguard List.not_mem_nil⟩
  | @tail m₁ m₂ _ hnext ih =>
    have hstep : (Machine.step interpreter limit m₁).QueuesArise := ih.step
    rw [hnext] at hstep
    exact hstep

end Machine

end EffectGraph
