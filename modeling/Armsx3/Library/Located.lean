import Mathlib

/-!
# Located — lists of the elements that are in one place

`Located l loc a` says that `l` is the list of the elements at `a`; since `loc` is a function, lists of
different places are disjoint without further ado, and a move is one update.
-/

variable {α β : Type*} [DecidableEq α]

structure Located (l : List α) (loc : α → β) (a : β) : Prop where
  nodup : l.Nodup
  mem_iff : ∀ x, x ∈ l ↔ loc x = a

namespace Located

open List Function

variable {l l' : List α} {loc : α → β} {a b : β} {x : α}

omit [DecidableEq α] in
theorem nil (h : ∀ x, loc x ≠ a) : Located [] loc a := ⟨nodup_nil, fun x => iff_of_false not_mem_nil (h x)⟩

theorem skip (h : Located l loc a) (hold : loc x ≠ a) (hnew : b ≠ a) : Located l (update loc x b) a := by
  apply Located.mk h.nodup
  intro y
  rw [h.mem_iff, update_apply]
  split_ifs with hyx
  · rw [hyx]
    exact iff_of_false hold hnew
  · exact Iff.rfl

theorem cons (h : Located l loc a) (hold : loc x ≠ a) : Located (x :: l) (update loc x a) a := by
  apply Located.mk
  · exact nodup_cons.mpr ⟨fun hx => hold ((h.mem_iff x).mp hx), h.nodup⟩
  · intro y
    rw [mem_cons, h.mem_iff, update_apply]
    split_ifs with hyx
    · exact iff_of_true (Or.inl hyx) rfl
    · exact or_iff_right hyx

theorem remove (h : Located l loc a) (hp : l.Perm (x :: l')) (hnew : b ≠ a) : Located l' (update loc x b) a := by
  have hnd := nodup_cons.mp (hp.nodup_iff.mp h.nodup)
  apply Located.mk hnd.2
  intro y
  rw [update_apply]
  split_ifs with hyx
  · rw [hyx]
    exact iff_of_false hnd.1 hnew
  · rw [← h.mem_iff, hp.mem_iff, mem_cons]
    exact (or_iff_right hyx).symm

end Located
