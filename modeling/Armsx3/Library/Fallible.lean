import Mathlib

/-!
# Fallible — pre- and postconditions of computations that can fail

`Meets x P E` says that the value of `x` meets `P` if there is one, and that otherwise its error meets `E`.
-/

namespace Fallible

universe u v

variable {ε : Type v} {α β : Type u} {x : Except ε α} {f : α → Except ε β} {P P' : α → Prop} {Q : β → Prop}
  {E : ε → Prop}

def Meets (x : Except ε α) (P : α → Prop) (E : ε → Prop) : Prop :=
  match x with
  | .ok a => P a
  | .error e => E e

theorem Meets.ok {a : α} (h : P a) : Meets (.ok a) P E := h

theorem Meets.bind (hx : Meets x P E) (hf : ∀ a, x = .ok a → P a → Meets (f a) Q E) : Meets (x >>= f) Q E := by
  cases x with
  | ok a => exact hf a rfl hx
  | error => exact hx

theorem Meets.map {g : α → β} (hx : Meets x (fun a => Q (g a)) E) : Meets (x.map g) Q E := by
  cases x with
  | ok => exact hx
  | error => exact hx

theorem Meets.mono (hx : Meets x P E) (h : ∀ a, P a → P' a) : Meets x P' E := by
  cases x with
  | ok a => exact h a hx
  | error => exact hx

theorem Meets.ite {c : Prop} [Decidable c] {y : Except ε α} (hx : c → Meets x P E) (hy : ¬c → Meets y P E) :
    Meets (if c then x else y) P E := by
  by_cases hc : c
  · rw [if_pos hc]
    exact hx hc
  · rw [if_neg hc]
    exact hy hc

theorem Meets.value (h : Meets x P E) {a : α} (hx : x = .ok a) : P a := by
  rw [hx] at h
  exact h

theorem Meets.fault (h : Meets x P E) {e : ε} (hx : x = .error e) : E e := by
  rw [hx] at h
  exact h

theorem Meets.exists_ok (h : Meets x P fun _ => False) : ∃ a, x = .ok a ∧ P a := by
  cases x with
  | ok a => exact ⟨a, rfl, h⟩
  | error => exact h.elim

theorem Meets.foldlM {σ : Type u} {ι : Type*} {step : σ → ι → Except ε σ} {R : List ι → σ → Prop}
    (hstep : ∀ i is s, R (i :: is) s → Meets (step s i) (R is) E) {is : List ι} {s : σ} (h : R is s) :
    Meets (is.foldlM step s) (R []) E := by
  induction is generalizing s with
  | nil => exact Meets.ok h
  | cons i is ih =>
    rw [List.foldlM_cons]
    exact (hstep i is s h).bind fun t _ ht => ih ht

theorem bind_eq_ok {b : β} : x >>= f = .ok b ↔ ∃ a, x = .ok a ∧ f a = .ok b := by
  cases x with
  | ok => simp [bind, Except.bind]
  | error => simp [bind, Except.bind]

theorem bind_eq_error {e : ε} : x >>= f = .error e ↔ x = .error e ∨ ∃ a, x = .ok a ∧ f a = .error e := by
  cases x with
  | ok => simp [bind, Except.bind]
  | error => simp [bind, Except.bind]

/-- A fold fails at one of its steps, and the steps before that one succeed. -/
theorem foldlM_eq_error {σ : Type u} {ι : Type*} {step : σ → ι → Except ε σ} {is : List ι} {s : σ} {e : ε} :
    is.foldlM step s = .error e ↔
      ∃ before i after t, is = before ++ i :: after ∧ before.foldlM step s = .ok t ∧ step t i = .error e := by
  induction is generalizing s with
  | nil => simp [pure, Except.pure]
  | cons j is ih =>
    rw [List.foldlM_cons, bind_eq_error]
    constructor
    · rintro (hj | ⟨t, hj, ht⟩)
      · exact ⟨[], j, is, s, rfl, rfl, hj⟩
      · obtain ⟨before, i, after, u, rfl, hb, hi⟩ := ih.mp ht
        exact ⟨j :: before, i, after, u, rfl, bind_eq_ok.mpr ⟨t, hj, hb⟩, hi⟩
    · rintro ⟨before, i, after, t, his, hb, hi⟩
      cases before with
      | nil =>
        cases his
        cases hb
        exact .inl hi
      | cons b before =>
        cases his
        obtain ⟨u, hu, hb⟩ := bind_eq_ok.mp hb
        exact .inr ⟨u, hu, ih.mpr ⟨before, i, after, t, rfl, hb, hi⟩⟩

end Fallible
