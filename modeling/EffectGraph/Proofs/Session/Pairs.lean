import EffectGraph.Proofs.Session.Actions

/-!
# Two actions side by side

`Exec.Pairs x y Q w w'` says that the actions `x` and `y`, the one started in `w` and the other in `w'`,
either both end, with results and states that are related by `Q`, or are both cut off. Like a single
action, a pair of actions is taken apart at its calls.
-/

namespace EffectGraph

namespace Exec

variable {α β γ δ : Type}

/-- The actions both end, and are related then, or are both cut off. -/
def Pairs (x : Exec α) (y : Exec β) (Q : α → World → β → World → Prop) (w w' : World) : Prop :=
  match x w, y w' with
  | (some a, v), (some b, v') => Q a v b v'
  | (none, _), (none, _) => True
  | _, _ => False

section

variable {x : Exec α} {y : Exec β} {Q R : α → World → β → World → Prop} {w w' : World}

theorem pairs_of_eq_some {a : α} {b : β} {v v' : World} (hx : x w = (some a, v))
    (hy : y w' = (some b, v')) : x.Pairs y Q w w' ↔ Q a v b v' := by
  unfold Pairs
  rw [hx, hy]

theorem pairs_of_eq_none {v v' : World} (hx : x w = (none, v)) (hy : y w' = (none, v')) :
    x.Pairs y Q w w' := by
  unfold Pairs
  rw [hx, hy]
  trivial

/-- Two actions both end or are both cut off. -/
theorem Pairs.cases (h : x.Pairs y Q w w') :
    (∃ v v', x w = (none, v) ∧ y w' = (none, v')) ∨
      ∃ a v b v', x w = (some a, v) ∧ y w' = (some b, v') ∧ Q a v b v' := by
  unfold Pairs at h
  rcases hx : x w with ⟨_ | a, v⟩ <;> rcases hy : y w' with ⟨_ | b, v'⟩ <;> rw [hx, hy] at h
  · exact .inl ⟨v, v', rfl, rfl⟩
  · exact h.elim
  · exact h.elim
  · exact .inr ⟨a, v, b, v', rfl, rfl, h⟩

theorem Pairs.mono (h : x.Pairs y Q w w') (hsub : ∀ a v b v', Q a v b v' → R a v b v') :
    x.Pairs y R w w' := by
  rcases h.cases with ⟨v, v', hx, hy⟩ | ⟨a, v, b, v', hx, hy, hQ⟩
  · exact pairs_of_eq_none hx hy
  · exact (pairs_of_eq_some hx hy).2 (hsub a v b v' hQ)

end

variable {x : Exec α} {w w' : World}

theorem pairs_bind {y : Exec β} {f : α → Exec γ} {g : β → Exec δ} {Q : γ → World → δ → World → Prop}
    (h : x.Pairs y (fun a v b v' => (f a).Pairs (g b) Q v v') w w') :
    (x >>= f).Pairs (y >>= g) Q w w' := by
  rcases h.cases with ⟨v, v', hx, hy⟩ | ⟨a, v, b, v', hx, hy, hrest⟩
  · exact pairs_of_eq_none (bind_eq_of_eq_none hx) (bind_eq_of_eq_none hy)
  · unfold Pairs at hrest ⊢
    rw [bind_eq_of_eq_some hx, bind_eq_of_eq_some hy]
    exact hrest

/-- The second action starts on its own. -/
theorem pairs_right {y : Exec β} {g : β → Exec γ} {Q : α → World → γ → World → Prop}
    (h : y.Leaves (fun b v' => x.Pairs (g b) Q w v') (fun _ => False) w') :
    x.Pairs (y >>= g) Q w w' := by
  obtain ⟨b, v', hy, hrest⟩ := h.exists
  unfold Pairs at hrest ⊢
  rw [bind_eq_of_eq_some hy]
  exact hrest

/-- The second action goes on alone. -/
theorem Pairs.bind_right {y : Exec β} {g : β → Exec γ} {Q : α → World → γ → World → Prop}
    (h : x.Pairs y (fun a v b v' => (g b).Leaves (Q a v) (fun _ => False) v') w w') :
    x.Pairs (y >>= g) Q w w' := by
  rcases h.cases with ⟨v, v', hx, hy⟩ | ⟨a, v, b, v', hx, hy, hrest⟩
  · exact pairs_of_eq_none hx (bind_eq_of_eq_none hy)
  · obtain ⟨c, u', hg, hQ⟩ := hrest.exists
    exact (pairs_of_eq_some hx ((bind_eq_of_eq_some hy).trans hg)).2 hQ

@[simp] theorem pairs_get {Q : World → World → World → World → Prop} :
    (get : Exec World).Pairs (get : Exec World) Q w w' ↔ Q w w w' w' := Iff.rfl

@[simp] theorem pairs_modifyGet {f : World → α × World} {g : World → β × World}
    {Q : α → World → β → World → Prop} :
    (modifyGet f : Exec α).Pairs (modifyGet g : Exec β) Q w w' ↔
      Q (f w).1 (f w).2 (g w').1 (g w').2 := Iff.rfl

@[simp] theorem pairs_set {v v' : World} {Q : PUnit → World → PUnit → World → Prop} :
    (set v : Exec PUnit).Pairs (set v' : Exec PUnit) Q w w' ↔ Q ⟨⟩ v ⟨⟩ v' := Iff.rfl

@[simp] theorem pairs_modify {f g : World → World} {Q : PUnit → World → PUnit → World → Prop} :
    (modify f : Exec PUnit).Pairs (modify g : Exec PUnit) Q w w' ↔ Q ⟨⟩ (f w) ⟨⟩ (g w') := Iff.rfl

end Exec

end EffectGraph
