/-!
# Keyed lists

A keyed list is a list of pairs in strictly ascending order of their string keys. Records, element
properties and handler tables are keyed lists. `Keyed.insert` keeps the order and replaces the value
of a key that is there already; `Keyed.Sorted` is the order as a predicate.
-/

namespace EffectGraph

namespace Keyed

variable {α : Type}

/-- The value of a key. -/
def get? (key : String) : List (String × α) → Option α
  | [] => none
  | (k, v) :: rest => if k = key then some v else get? key rest

/-- The list with a key set to a value. -/
def insert (key : String) (value : α) : List (String × α) → List (String × α)
  | [] => [(key, value)]
  | (k, v) :: rest =>
    if key < k then (key, value) :: (k, v) :: rest
    else if key = k then (key, value) :: rest
    else (k, v) :: insert key value rest

/-- The keyed list of some pairs; of pairs with the same key the last one counts. -/
def ofList (pairs : List (String × α)) : List (String × α) :=
  pairs.foldl (fun sorted pair => insert pair.1 pair.2 sorted) []

/-- The keys ascend strictly. -/
def Sorted (pairs : List (String × α)) : Prop := pairs.Pairwise fun a b => a.1 < b.1

theorem sorted_nil : Sorted ([] : List (String × α)) := List.Pairwise.nil

/-- The keys of the list after an insertion are the old ones and the new one. -/
theorem mem_keys_insert {key k : String} {value : α} {pairs : List (String × α)} :
    k ∈ (insert key value pairs).map (·.1) ↔ k = key ∨ k ∈ pairs.map (·.1) := by
  induction pairs with
  | nil => simp [insert]
  | cons pair rest ih =>
    obtain ⟨k', v⟩ := pair
    unfold insert
    split
    · simp
    · split
      · rename_i h
        subst h
        simp
      · simp only [List.map_cons, List.mem_cons, ih]
        exact or_left_comm

theorem Sorted.insert {key : String} {value : α} {pairs : List (String × α)} (h : Sorted pairs) :
    Sorted (insert key value pairs) := by
  induction pairs with
  | nil => exact List.pairwise_singleton _ _
  | cons pair rest ih =>
    obtain ⟨k, v⟩ := pair
    have hrest : Sorted rest := (List.pairwise_cons.1 h).2
    have hhead := (List.pairwise_cons.1 h).1
    unfold Keyed.insert
    split
    · rename_i hlt
      refine List.pairwise_cons.2 ⟨fun b hb => ?_, h⟩
      rcases List.mem_cons.1 hb with rfl | hb
      · exact hlt
      · exact String.lt_trans hlt (hhead b hb)
    · rename_i hge
      split
      · rename_i heq
        subst heq
        exact List.pairwise_cons.2 ⟨hhead, hrest⟩
      · rename_i hne
        refine List.pairwise_cons.2 ⟨fun b hb => ?_, ih hrest⟩
        have hkey : k < key := by
          rcases Decidable.em (k < key) with hlt | hnlt
          · exact hlt
          · exact absurd (String.le_antisymm (String.not_lt.1 hnlt) (String.not_lt.1 hge)) hne
        have := mem_keys_insert.1 (List.mem_map_of_mem (f := (·.1)) hb)
        rcases this with heq | hmem
        · exact heq ▸ hkey
        · obtain ⟨c, hc, heq⟩ := List.mem_map.1 hmem
          exact heq ▸ hhead c hc

theorem sorted_ofList (pairs : List (String × α)) : Sorted (ofList pairs) := by
  suffices ∀ acc : List (String × α), Sorted acc →
      Sorted (pairs.foldl (fun sorted pair => insert pair.1 pair.2 sorted) acc) from
    this [] sorted_nil
  induction pairs with
  | nil => exact fun acc h => h
  | cons pair rest ih => exact fun acc h => ih _ h.insert

end Keyed

end EffectGraph
