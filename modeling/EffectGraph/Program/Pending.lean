import EffectGraph.Program.Basic

/-!
# Continuations that wait

While a program runs, continuations wait for values. They come in queues: each program brings its
own, and what a continuation returns brings another one that has to be drained first. `Pending`
keeps the queue being drained and a stack of suspended queues, so that a queue is taken over as it
is and never copied.

Seen from outside, `Pending` is one list, `Pending.toList`: pushing a queue puts it in front, and
popping takes the first continuation.
-/

namespace EffectGraph

/-- The continuations that wait for a value. -/
structure Pending (P : Type := Program) where
  /-- The queue being drained. -/
  current : List (Continuation P) := []
  /-- The queues to drain after it, the next one first. -/
  suspended : List (List (Continuation P)) := []

namespace Pending

variable {P : Type}

/-- Nothing waits. -/
def empty : Pending P := {}

/-- Puts a queue in front of all that wait. -/
def push (p : Pending P) (queue : List (Continuation P)) : Pending P :=
  if queue.isEmpty then p
  else ⟨queue, if p.current.isEmpty then p.suspended else p.current :: p.suspended⟩

/-- The first continuation of a stack of queues, and what waits after it. -/
def popFrom : List (List (Continuation P)) → Option (Continuation P × Pending P)
  | [] => none
  | [] :: rest => popFrom rest
  | (k :: queue) :: rest => some (k, ⟨queue, rest⟩)

/-- The first continuation, and what waits after it. -/
def pop (p : Pending P) : Option (Continuation P × Pending P) := popFrom (p.current :: p.suspended)

/-- All that wait, the first one first. -/
def toList (p : Pending P) : List (Continuation P) := p.current ++ p.suspended.flatten

/-- No suspended queue is empty. -/
def Tight (p : Pending P) : Prop := ∀ queue ∈ p.suspended, queue ≠ []

@[simp] theorem toList_empty : (empty : Pending P).toList = [] := rfl

@[simp] theorem toList_push (p : Pending P) (queue : List (Continuation P)) :
    (p.push queue).toList = queue ++ p.toList := by
  unfold push toList
  split
  · rename_i h
    rw [List.isEmpty_iff.1 h, List.nil_append]
  · split
    · rename_i h
      rw [List.isEmpty_iff.1 h, List.nil_append]
    · simp

theorem popFrom_eq_none {queues : List (List (Continuation P))} :
    popFrom queues = none ↔ queues.flatten = [] := by
  induction queues with
  | nil => simp [popFrom]
  | cons queue rest ih => cases queue <;> simp [popFrom, ih]

theorem popFrom_eq_some {queues : List (List (Continuation P))} {k : Continuation P} {p : Pending P}
    (h : popFrom queues = some (k, p)) : queues.flatten = k :: p.toList := by
  induction queues with
  | nil => simp [popFrom] at h
  | cons queue rest ih =>
    cases queue with
    | nil => simpa using ih h
    | cons k' queue =>
      simp only [popFrom, Option.some.injEq, Prod.mk.injEq] at h
      obtain ⟨rfl, rfl⟩ := h
      simp [toList]

/-- Nothing can be popped exactly when nothing waits. -/
theorem pop_eq_none {p : Pending P} : p.pop = none ↔ p.toList = [] := by
  simp [pop, popFrom_eq_none, toList]

/-- Popping removes the first of all that wait. -/
theorem pop_eq_some {p q : Pending P} {k : Continuation P} (h : p.pop = some (k, q)) :
    p.toList = k :: q.toList := by
  simpa [pop, toList] using popFrom_eq_some h

end Pending

end EffectGraph
