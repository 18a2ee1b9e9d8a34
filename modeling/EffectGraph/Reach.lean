/-!
# Depth-first walks

A walk goes through a list of items. Some items lead on to a numbered place; the first time a place
is met, the items found there are walked in its stead, and after that it is passed over. All other
items are collected in the order in which they are met. Places that lead back to themselves do no
harm: every place below the bound is entered at most once, and the others are never entered.

The dependents of signals and the subscribers of merged event sources are both found this way.
-/

namespace EffectGraph

namespace Reach

variable {α : Type}

/-- Where items lead. -/
structure Roads (α : Type) where
  /-- The place that an item leads to, if it leads on. -/
  place? : α → Option Nat
  /-- The items found at a place. -/
  items : Nat → List α
  /-- All places that can be entered are below this number. -/
  bound : Nat

/-- The number of places that can still be entered. -/
def unvisited (bound : Nat) (visited : List Nat) : Nat :=
  ((List.range bound).filter fun k => k ∉ visited).length

theorem unvisited_cons_lt {bound k : Nat} {visited : List Nat} (hk : k < bound)
    (hnew : k ∉ visited) : unvisited bound (k :: visited) < unvisited bound visited := by
  have hsub : ((List.range bound).filter fun j => j ∉ k :: visited) =
      ((List.range bound).filter fun j => j ∉ visited).filter fun j => j ≠ k := by
    rw [List.filter_filter]
    congr 1
    funext j
    simp [not_or]
  unfold unvisited
  rw [hsub]
  refine Nat.lt_of_le_of_ne (List.length_filter_le _ _) fun heq => ?_
  have hall := List.length_filter_eq_length_iff.1 heq
  have hmem : k ∈ (List.range bound).filter fun j => j ∉ visited := by simp [hk, hnew]
  simpa using hall k hmem

/-- Walks the items in order. The places entered so far and the items collected so far, both the
latest first, are carried along and returned. -/
def walk (roads : Roads α) (work : List α) (visited : List Nat) (found : List α) :
    List Nat × List α :=
  match work with
  | [] => (visited, found)
  | item :: rest =>
    match roads.place? item with
    | none => walk roads rest visited (item :: found)
    | some k =>
      if _hnew : k ∉ visited ∧ k < roads.bound then
        walk roads (roads.items k ++ rest) (k :: visited) found
      else
        walk roads rest visited found
termination_by (unvisited roads.bound visited, work.length)
decreasing_by
  · exact Prod.Lex.right _ (Nat.lt_succ_self _)
  · exact Prod.Lex.left _ _ (unvisited_cons_lt _hnew.2 _hnew.1)
  · exact Prod.Lex.right _ (Nat.lt_succ_self _)

end Reach

end EffectGraph
