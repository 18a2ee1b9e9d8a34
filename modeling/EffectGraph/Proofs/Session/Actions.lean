import EffectGraph.Session.Settling

/-!
# What an action leaves behind

`Exec.Leaves x Q E w` says that whatever the action `x` ends with when it starts in `w` has the
property `Q`, and that the state it has got to if it does not end has the property `E`. The lemmas
below take an action apart at its calls, so that what is known of the parts gives what is known of
the whole.
-/

namespace EffectGraph

namespace Exec

variable {α β : Type}

/-- If the action ends, then with the first property. If it does not end, it has got to a state with
the second one. -/
def Leaves (x : Exec α) (Q : α → World → Prop) (E : World → Prop) (w : World) : Prop :=
  match x w with
  | (some a, w') => Q a w'
  | (none, w') => E w'

section

variable {x : Exec α} {Q R : α → World → Prop} {E F : World → Prop} {w w' : World}

theorem Leaves.of_eq_some (h : x.Leaves Q E w) {a : α} (heq : x w = (some a, w')) : Q a w' := by
  unfold Leaves at h
  rwa [heq] at h

theorem Leaves.of_eq_none (h : x.Leaves Q E w) (heq : x w = (none, w')) : E w' := by
  unfold Leaves at h
  rwa [heq] at h

theorem leaves_of_eq_some {a : α} (heq : x w = (some a, w')) (h : Q a w') : x.Leaves Q E w := by
  unfold Leaves
  rw [heq]
  exact h

theorem leaves_of_eq (hended : ∀ a w', x w = (some a, w') → Q a w')
    (hbroken : ∀ w', x w = (none, w') → E w') : x.Leaves Q E w := by
  unfold Leaves
  rcases hx : x w with ⟨_ | a, w'⟩
  · exact hbroken w' hx
  · exact hended a w' hx

/-- An action that is certain to end does so. -/
theorem Leaves.exists (h : x.Leaves Q (fun _ => False) w) :
    ∃ a w', x w = (some a, w') ∧ Q a w' := by
  rcases hx : x w with ⟨_ | a, w'⟩
  · exact (h.of_eq_none hx).elim
  · exact ⟨a, w', rfl, h.of_eq_some hx⟩

/-- What holds in any case holds of the state that the action leaves. -/
theorem Leaves.left (h : x.Leaves (fun _ => E) E w) : E (x w).2 := by
  rcases hx : x w with ⟨_ | a, w'⟩
  · exact h.of_eq_none hx
  · exact h.of_eq_some hx

theorem Leaves.imp (h : x.Leaves Q E w) (hsub : ∀ a w', Q a w' → R a w')
    (hbroken : ∀ w', E w' → F w') : x.Leaves R F w :=
  leaves_of_eq (fun a w' heq => hsub a w' (h.of_eq_some heq))
    fun w' heq => hbroken w' (h.of_eq_none heq)

/-- All that is known of an action is what it ends with. -/
theorem leaves_self (x : Exec α) (w : World) :
    x.Leaves (fun a w' => x w = (some a, w')) (fun _ => True) w :=
  leaves_of_eq (fun _ _ heq => heq) fun _ _ => trivial

theorem Leaves.mono (h : x.Leaves Q E w) (hsub : ∀ a w', Q a w' → R a w') : x.Leaves R E w :=
  h.imp hsub fun _ hE => hE

theorem Leaves.and (hQ : x.Leaves Q E w) (hR : x.Leaves R F w) :
    x.Leaves (fun a w' => Q a w' ∧ R a w') (fun w' => E w' ∧ F w') w :=
  leaves_of_eq (fun _ _ heq => ⟨hQ.of_eq_some heq, hR.of_eq_some heq⟩)
    fun _ heq => ⟨hQ.of_eq_none heq, hR.of_eq_none heq⟩

end

variable {w : World} {E : World → Prop}

@[simp] theorem leaves_pure {a : α} {Q : α → World → Prop} :
    (pure a : Exec α).Leaves Q E w ↔ Q a w := Iff.rfl

theorem bind_eq_of_eq_some {x : Exec α} {f : α → Exec β} {a : α} {w₁ : World}
    (h : x w = (some a, w₁)) : (x >>= f) w = f a w₁ := by
  simp only [Bind.bind, OptionT.bind, OptionT.mk, StateT.bind, h]

theorem bind_eq_of_eq_none {x : Exec α} {f : α → Exec β} {w₁ : World}
    (h : x w = (none, w₁)) : (x >>= f) w = (none, w₁) := by
  simp only [Bind.bind, OptionT.bind, OptionT.mk, StateT.bind, h]
  rfl

/-- What comes after looking at the state is done with the state as it is. -/
theorem get_bind_eq (f : World → Exec α) (w : World) : ((get : Exec World) >>= f) w = f w w := rfl

@[simp] theorem leaves_bind {x : Exec α} {f : α → Exec β} {Q : β → World → Prop} :
    (x >>= f).Leaves Q E w ↔ x.Leaves (fun a w₁ => (f a).Leaves Q E w₁) E w := by
  unfold Leaves
  rcases hx : x w with ⟨_ | a, w₁⟩
  · rw [bind_eq_of_eq_none hx]
  · rw [bind_eq_of_eq_some hx]

@[simp] theorem leaves_get {Q : World → World → Prop} :
    (get : Exec World).Leaves Q E w ↔ Q w w := Iff.rfl

@[simp] theorem leaves_modifyGet {f : World → α × World} {Q : α → World → Prop} :
    (modifyGet f : Exec α).Leaves Q E w ↔ Q (f w).1 (f w).2 := Iff.rfl

@[simp] theorem leaves_set {w₁ : World} {Q : PUnit → World → Prop} :
    (set w₁ : Exec PUnit).Leaves Q E w ↔ Q ⟨⟩ w₁ := Iff.rfl

@[simp] theorem leaves_modify {f : World → World} {Q : PUnit → World → Prop} :
    (modify f : Exec PUnit).Leaves Q E w ↔ Q ⟨⟩ (f w) := Iff.rfl

@[simp] theorem leaves_failure {Q : α → World → Prop} :
    (failure : Exec α).Leaves Q E w ↔ E w := Iff.rfl

/-- An action that may fail either succeeds or changes nothing. -/
theorem leaves_tryWorld {β : Type} {f : World → Except Failure β} {g : World → β → α × World}
    {Q : Except Failure α → World → Prop} (hok : ∀ b, f w = .ok b → Q (.ok (g w b).1) (g w b).2)
    (herror : ∀ failure, f w = .error failure → Q (.error failure) w) :
    (tryWorld fun w => (f w).map (g w)).Leaves Q E w := by
  unfold Leaves tryWorld
  cases hf : f w with
  | error failure =>
    simp only [hf, Except.map]
    exact herror failure hf
  | ok b =>
    simp only [hf, Except.map]
    exact hok b hf

end Exec

end EffectGraph
