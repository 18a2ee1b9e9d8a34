import EffectGraph.Reach
import Mathlib.Logic.Relation
import Mathlib.Tactic

/-!
# The places that a walk enters

A walk enters exactly the places that can be reached: it enters no others (`mem_walk`), it enters
every place that an item of its work leads to (`mem_walk_of_enters`), and it leaves no place behind
without having entered what that place leads to (`walk_closed`).
-/

namespace EffectGraph

namespace Reach

variable {α : Type} {roads : Roads α}

/-- The item leads to the place, and the place can be entered. -/
def Roads.Enters (roads : Roads α) (item : α) (k : Nat) : Prop :=
  roads.place? item = some k ∧ k < roads.bound

/-- One place leads to another. -/
def Roads.Leads (roads : Roads α) (j k : Nat) : Prop :=
  ∃ item ∈ roads.items j, roads.Enters item k

/-- A walk forgets no place. -/
theorem subset_walk (roads : Roads α) (work : List α) (visited : List Nat) (found : List α) :
    visited ⊆ (walk roads work visited found).1 := by
  fun_induction walk roads work visited found with
  | case1 => exact List.Subset.refl _
  | case2 visited found item rest _ ih => exact ih
  | case3 visited found item rest k _ _ ih => exact fun j hj => ih (List.mem_cons_of_mem _ hj)
  | case4 visited found item rest k _ _ ih => exact ih

/-- A walk enters no place twice, and none that was entered before. -/
theorem walk_entered (roads : Roads α) (work : List α) (visited : List Nat) (found : List α) :
    ∃ entered, (walk roads work visited found).1 = entered ++ visited ∧ entered.Nodup ∧
      ∀ k ∈ entered, k ∉ visited := by
  fun_induction walk roads work visited found with
  | case1 => exact ⟨[], rfl, List.nodup_nil, fun k hk => absurd hk List.not_mem_nil⟩
  | case2 visited found item rest _ ih => exact ih
  | case3 visited found item rest k _ hnew ih =>
    obtain ⟨entered, hwalk, hnodup, hfresh⟩ := ih
    have hk : k ∉ entered := fun hmem => hfresh k hmem List.mem_cons_self
    refine ⟨entered ++ [k], by simp [hwalk], ?_, fun j hj hold => ?_⟩
    · exact hnodup.append (List.nodup_singleton k) (List.disjoint_singleton.2 hk)
    · rcases List.mem_append.1 hj with hj | hj
      · exact hfresh j hj (List.mem_cons_of_mem _ hold)
      · rw [List.mem_singleton.1 hj] at hold
        exact hnew.1 hold
  | case4 visited found item rest k _ _ ih => exact ih

/-- Items that lead nowhere are collected as they come. -/
theorem walk_direct {work : List α} (h : ∀ item ∈ work, roads.place? item = none) (visited : List Nat)
    (found : List α) : walk roads work visited found = (visited, work.reverse ++ found) := by
  induction work generalizing found with
  | nil => rw [walk, List.reverse_nil, List.nil_append]
  | cons item rest ih =>
    have hrest := ih (fun other hother => h other (List.mem_cons_of_mem _ hother)) (item :: found)
    rw [walk, h item List.mem_cons_self]
    simpa using hrest

/-- Every item that a walk collects was there at its start or is found at some place. -/
theorem mem_walk_found {work : List α} {visited : List Nat} {found : List α} {item : α}
    (h : item ∈ (walk roads work visited found).2) :
    item ∈ found ∨ item ∈ work ∨ ∃ k, item ∈ roads.items k := by
  fun_induction walk roads work visited found with
  | case1 => exact .inl h
  | case2 visited found first rest _ ih =>
    rcases ih h with hfound | hwork | hitems
    · rcases List.mem_cons.1 hfound with rfl | hfound
      · exact .inr (.inl List.mem_cons_self)
      · exact .inl hfound
    · exact .inr (.inl (List.mem_cons_of_mem _ hwork))
    · exact .inr (.inr hitems)
  | case3 visited found first rest k _ _ ih =>
    rcases ih h with hfound | hwork | hitems
    · exact .inl hfound
    · rcases List.mem_append.1 hwork with hwork | hwork
      · exact .inr (.inr ⟨k, hwork⟩)
      · exact .inr (.inl (List.mem_cons_of_mem _ hwork))
    · exact .inr (.inr hitems)
  | case4 visited found first rest k _ _ ih =>
    rcases ih h with hfound | hwork | hitems
    · exact .inl hfound
    · exact .inr (.inl (List.mem_cons_of_mem _ hwork))
    · exact .inr (.inr hitems)

/-- A walk collects what is found at the places it enters, once for each, next to what its work holds
already. -/
theorem walk_collects (keep : α → Bool) (hkeep : ∀ item, keep item → roads.place? item = none)
    {work : List α} {visited : List Nat} {found : List α} {entered : List Nat}
    (h : (walk roads work visited found).1 = entered ++ visited) :
    ((walk roads work visited found).2.filter keep).Perm
      (entered.flatMap (fun k => (roads.items k).filter keep) ++ work.filter keep ++
        found.filter keep) := by
  -- Items that lead on are not kept.
  have hdrop {item : α} {k : Nat} (hplace : roads.place? item = some k) : keep item = false := by
    by_contra hkept
    have hnone := hkeep item (by simpa using hkept)
    rw [hplace] at hnone
    cases hnone
  fun_induction walk roads work visited found generalizing entered with
  | case1 visited found =>
    have hnil : entered = [] := List.append_left_eq_self.1 h.symm
    rw [hnil]
    exact .refl _
  | case2 visited found item rest _ ih =>
    refine (ih h).trans ?_
    by_cases hitem : keep item = true
    · rw [List.filter_cons_of_pos hitem, List.filter_cons_of_pos hitem, List.append_assoc,
        List.append_assoc]
      exact List.Perm.append_left _ List.perm_middle
    · rw [List.filter_cons_of_neg hitem, List.filter_cons_of_neg hitem]
  | case3 visited found item rest k hplace _ ih =>
    obtain ⟨later, hlater, -⟩ := walk_entered roads (roads.items k ++ rest) (k :: visited) found
    have hentered : entered = later ++ [k] := by
      rw [hlater] at h
      have hsplit : (later ++ [k]) ++ visited = entered ++ visited := by simpa using h
      exact (List.append_cancel_right hsplit).symm
    have hitem : ¬ keep item = true := by simp [hdrop hplace]
    have hrest := ih hlater
    rw [hentered, List.flatMap_append, List.filter_cons_of_neg hitem]
    simpa [List.filter_append] using hrest
  | case4 visited found item rest k hplace _ ih =>
    have hitem : ¬ keep item = true := by simp [hdrop hplace]
    rw [List.filter_cons_of_neg hitem]
    exact ih h

/-- Every place that a walk enters can be reached from its work. -/
theorem mem_walk {work : List α} {visited : List Nat} {found : List α} {k : Nat}
    (h : k ∈ (walk roads work visited found).1) :
    k ∈ visited ∨ ∃ item ∈ work, ∃ j, roads.Enters item j ∧
      Relation.ReflTransGen roads.Leads j k := by
  fun_induction walk roads work visited found with
  | case1 => exact .inl h
  | case2 visited found item rest _ ih =>
    rcases ih h with hk | ⟨item', hmem, hreach⟩
    · exact .inl hk
    · exact .inr ⟨item', List.mem_cons_of_mem _ hmem, hreach⟩
  | case3 visited found item rest place hplace hnew ih =>
    have henter : roads.Enters item place := ⟨hplace, hnew.2⟩
    rcases ih h with hk | ⟨item', hmem, j, hj, hreach⟩
    · rcases List.mem_cons.1 hk with rfl | hk
      · exact .inr ⟨item, List.mem_cons_self, k, henter, .refl⟩
      · exact .inl hk
    · rcases List.mem_append.1 hmem with hmem | hmem
      · exact .inr ⟨item, List.mem_cons_self, place, henter, .head ⟨item', hmem, hj⟩ hreach⟩
      · exact .inr ⟨item', List.mem_cons_of_mem _ hmem, j, hj, hreach⟩
  | case4 visited found item rest place _ _ ih =>
    rcases ih h with hk | ⟨item', hmem, hreach⟩
    · exact .inl hk
    · exact .inr ⟨item', List.mem_cons_of_mem _ hmem, hreach⟩

/-- A walk enters every place that its work leads to. -/
theorem mem_walk_of_enters {work : List α} {visited : List Nat} {found : List α} {item : α}
    {k : Nat} (hmem : item ∈ work) (henter : roads.Enters item k) :
    k ∈ (walk roads work visited found).1 := by
  fun_induction walk roads work visited found with
  | case1 => simp at hmem
  | case2 visited found first rest hplace ih =>
    rcases List.mem_cons.1 hmem with rfl | hmem
    · simp [henter.1] at hplace
    · exact ih hmem
  | case3 visited found first rest place hplace hnew ih =>
    rcases List.mem_cons.1 hmem with rfl | hmem
    · obtain rfl : place = k := Option.some.inj (hplace.symm.trans henter.1)
      exact subset_walk roads _ _ _ List.mem_cons_self
    · exact ih (List.mem_append_right _ hmem)
  | case4 visited found first rest place hplace hold ih =>
    rcases List.mem_cons.1 hmem with rfl | hmem
    · obtain rfl : place = k := Option.some.inj (hplace.symm.trans henter.1)
      have hvisited : place ∈ visited := by
        by_contra hnot
        exact hold ⟨hnot, henter.2⟩
      exact subset_walk roads _ _ _ hvisited
    · exact ih hmem

/-- What has been left behind: everything that the place leads to is entered already or is still to
be entered from the work. -/
def Roads.Done (roads : Roads α) (work : List α) (visited : List Nat) (k : Nat) : Prop :=
  ∀ j, roads.Leads k j → j ∈ visited ∨ ∃ item ∈ work, roads.Enters item j

/-- A walk that leaves nothing behind at its start leaves nothing behind at its end. -/
theorem walk_closed {work : List α} {visited : List Nat} {found : List α}
    (h : ∀ k ∈ visited, roads.Done work visited k) {k j : Nat}
    (hk : k ∈ (walk roads work visited found).1) (hj : roads.Leads k j) :
    j ∈ (walk roads work visited found).1 := by
  fun_induction walk roads work visited found with
  | case1 =>
    rcases h k hk j hj with hmem | ⟨item, hmem, _⟩
    · exact hmem
    · simp at hmem
  | case2 visited found first rest hplace ih =>
    refine ih (fun k hk j hj => ?_) hk
    rcases h k hk j hj with hmem | ⟨item, hmem, henter⟩
    · exact .inl hmem
    · rcases List.mem_cons.1 hmem with rfl | hmem
      · simp [henter.1] at hplace
      · exact .inr ⟨item, hmem, henter⟩
  | case3 visited found first rest place hplace hnew ih =>
    refine ih (fun k hk j hj => ?_) hk
    rcases List.mem_cons.1 hk with rfl | hk
    · obtain ⟨item, hmem, henter⟩ := hj
      exact .inr ⟨item, List.mem_append_left _ hmem, henter⟩
    · rcases h k hk j hj with hmem | ⟨item, hmem, henter⟩
      · exact .inl (List.mem_cons_of_mem _ hmem)
      · rcases List.mem_cons.1 hmem with rfl | hmem
        · obtain rfl : place = j := Option.some.inj (hplace.symm.trans henter.1)
          exact .inl List.mem_cons_self
        · exact .inr ⟨item, List.mem_append_right _ hmem, henter⟩
  | case4 visited found first rest place hplace hold ih =>
    refine ih (fun k hk j hj => ?_) hk
    rcases h k hk j hj with hmem | ⟨item, hmem, henter⟩
    · exact .inl hmem
    · rcases List.mem_cons.1 hmem with rfl | hmem
      · obtain rfl : place = j := Option.some.inj (hplace.symm.trans henter.1)
        by_cases hvisited : place ∈ visited
        · exact .inl hvisited
        · exact absurd ⟨hvisited, henter.2⟩ hold
      · exact .inr ⟨item, hmem, henter⟩

end Reach

end EffectGraph
