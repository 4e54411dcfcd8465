import Mathlib

/-!
# Loop — loops that need not end

A step of a loop goes on with another state or returns from the loop.  The loop is run with fuel, and the rule says
when it returns and what holds of the result.
-/

namespace Loop

inductive Outcome (σ ρ : Type*)
  | next (s : σ)
  | done (r : ρ)

variable {σ ρ : Type*} {step : σ → Outcome σ ρ} {s s' : σ} {r : ρ}

def run (step : σ → Outcome σ ρ) : Nat → σ → Option ρ
  | 0, _ => none
  | fuel + 1, s =>
    match step s with
    | .next s' => run step fuel s'
    | .done r => some r

def Returns (step : σ → Outcome σ ρ) (s : σ) (r : ρ) : Prop := ∃ fuel, run step fuel s = some r

theorem Returns.of_done (h : step s = .done r) : Returns step s r := by
  refine ⟨1, ?_⟩
  rw [run, h]

theorem Returns.of_next (h : step s = .next s') (hr : Returns step s' r) : Returns step s r := by
  rcases hr with ⟨fuel, hrun⟩
  refine ⟨fuel + 1, ?_⟩
  rw [run, h]
  exact hrun

theorem Returns.total {I : σ → Nat → Prop} {Q : ρ → Prop} (hstep : ∀ s n, I s n →
      (∃ r, step s = .done r ∧ Q r) ∨ ∃ s' m, step s = .next s' ∧ m < n ∧ I s' m)
    {n : Nat} (h : I s n) : ∃ r, Returns step s r ∧ Q r := by
  induction n using Nat.strongRecOn generalizing s with
  | ind n ih =>
    rcases hstep s n h with ⟨r, hr, hq⟩ | ⟨s', m, hs, hm, hi⟩
    · exact ⟨r, .of_done hr, hq⟩
    · have ⟨r, hr, hq⟩ := ih m hm hi
      exact ⟨r, hr.of_next hs, hq⟩

/-- A loop over the elements of a list, with what holds behind each part of it. -/
theorem foldl_rule {α : Type*} {f : σ → α → σ} {P : List α → σ → Prop} {l : List α} (h : P [] s)
    (hstep : ∀ pre x post s, l = pre ++ x :: post → P pre s → P (pre ++ [x]) (f s x)) : P l (l.foldl f s) := by
  suffices hrest : ∀ post pre s, l = pre ++ post → P pre s → P l (post.foldl f s) from hrest l [] s rfl h
  intro post
  induction post with
  | nil =>
    intro pre s hl hpre
    rw [hl, List.append_nil]
    exact hpre
  | cons x post ih =>
    intro pre s hl hpre
    exact ih (pre ++ [x]) (f s x) (by rw [hl, List.append_cons]) (hstep pre x post s hl hpre)

end Loop
