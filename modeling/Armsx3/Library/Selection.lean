import Mathlib

/-!
# Selection — taking the last minimum again and again is a stable sort

A scan along a list that keeps the current element whenever its key is not larger ends on the last minimum.
-/

namespace Selection

open List

variable {α : Type*}

def scan (key : α → Int) (it : Option α) : List α → Option α
  | [] => it
  | x :: xs =>
    match it with
    | none => scan key (some x) xs
    | some y => scan key (some (if key x ≤ key y then x else y)) xs

def extract [DecidableEq α] (key : α → Int) : Nat → List α → List α
  | 0, _ => []
  | n + 1, l =>
    match scan key none l with
    | none => []
    | some x => x :: extract key n (l.erase x)

theorem scan_some (key : α → Int) (z : α) (l : List α) : (scan key (some z) l = some z ∧ ∀ y ∈ l, key z < key y) ∨
      ∃ x a b, scan key (some z) l = some x ∧ l = a ++ x :: b ∧ key x ≤ key z ∧
        (∀ y ∈ a, key x ≤ key y) ∧ ∀ y ∈ b, key x < key y := by
  induction l generalizing z with
  | nil => exact .inl ⟨rfl, nofun⟩
  | cons w l ih =>
    by_cases hw : key w ≤ key z
    · have hstep : scan key (some z) (w :: l) = scan key (some w) l := by simp only [scan, if_pos hw]
      rw [hstep]
      rcases ih w with ⟨hscan, hall⟩ | ⟨x, a, b, hscan, hl, hx, ha, hb⟩
      · exact .inr ⟨w, [], l, hscan, rfl, hw, forall_mem_nil _, hall⟩
      refine .inr ⟨x, w :: a, b, hscan, by rw [hl]; rfl, by omega, fun y hy => ?_, hb⟩
      rcases mem_cons.mp hy with hy | hy
      · rw [hy]; exact hx
      · exact ha y hy
    · have hstep : scan key (some z) (w :: l) = scan key (some z) l := by simp only [scan, if_neg hw]
      rw [hstep]
      rcases ih z with ⟨hscan, hall⟩ | ⟨x, a, b, hscan, hl, hx, ha, hb⟩
      · refine .inl ⟨hscan, fun y hy => ?_⟩
        rcases mem_cons.mp hy with hy | hy
        · rw [hy]; omega
        · exact hall y hy
      · refine .inr ⟨x, w :: a, b, hscan, by rw [hl]; rfl, hx, fun y hy => ?_, hb⟩
        rcases mem_cons.mp hy with hy | hy
        · rw [hy]; omega
        · exact ha y hy

theorem scan_split (key : α → Int) {l : List α} (hl : l ≠ []) :
    ∃ x a b, scan key none l = some x ∧ l = a ++ x :: b ∧ (∀ y ∈ a, key x ≤ key y) ∧ ∀ y ∈ b, key x < key y := by
  cases l with
  | nil => exact absurd rfl hl
  | cons z l =>
    have hstep : scan key none (z :: l) = scan key (some z) l := rfl
    rw [hstep]
    rcases scan_some key z l with ⟨hscan, hall⟩ | ⟨x, a, b, hscan, hl, hx, ha, hb⟩
    · exact ⟨z, [], l, hscan, rfl, forall_mem_nil _, hall⟩
    refine ⟨x, z :: a, b, hscan, by rw [hl]; rfl, fun y hy => ?_, hb⟩
    rcases mem_cons.mp hy with hy | hy
    · rw [hy]; exact hx
    · exact ha y hy

theorem insertionSort_first (key : α → Int) (x : α) (a b : List α) (ha : ∀ y ∈ a, key x < key y)
    (hb : ∀ y ∈ b, key x ≤ key y) : insertionSort (fun u v => key u ≤ key v) (a ++ x :: b) =
      x :: insertionSort (fun u v => key u ≤ key v) (a ++ b) := by
  induction a with
  | nil =>
    rw [nil_append, nil_append, insertionSort_cons]
    cases hs : insertionSort (fun u v => key u ≤ key v) b with
    | nil => rfl
    | cons y =>
      have hy : y ∈ b := by
        rw [← mem_insertionSort (fun u v => key u ≤ key v), hs]
        exact mem_cons_self
      rw [orderedInsert_cons, if_pos (hb y hy)]
  | cons c a ih =>
    have hc := ha c mem_cons_self
    rw [cons_append, insertionSort_cons, ih fun y hy => ha y (mem_cons_of_mem c hy),
      orderedInsert_cons, if_neg (by omega), cons_append, insertionSort_cons]

theorem extract_eq_insertionSort [DecidableEq α] (key : α → Int) {n : Nat} {l : List α}
    (hnd : l.Nodup) (hn : l.length = n) : extract key n l = insertionSort (fun u v => key u ≤ key v) l.reverse := by
  induction n generalizing l with
  | zero =>
    rw [length_eq_zero_iff.mp hn]
    rfl
  | succ n ih =>
    have hne : l ≠ [] := by
      intro hl
      rw [hl] at hn
      cases hn
    have ⟨x, a, b, hscan, hl, ha, hb⟩ := scan_split key hne
    have herase : l.erase x = a ++ b := by
      have hxa : x ∉ a := by
        intro hxa
        rw [hl] at hnd
        exact (nodup_append.mp hnd).2.2 x hxa x mem_cons_self rfl
      rw [hl, erase_append_right _ hxa, erase_cons_head]
    have hlen : (a ++ b).length = n := by
      rw [hl] at hn
      simp only [length_append, length_cons] at hn ⊢
      omega
    have hrev : l.reverse = b.reverse ++ x :: a.reverse := by
      rw [hl, reverse_append, reverse_cons, append_assoc, singleton_append]
    have hfirst := insertionSort_first key x b.reverse a.reverse
      (fun y hy => hb y (mem_reverse.mp hy)) (fun y hy => ha y (mem_reverse.mp hy))
    simp only [extract, hscan]
    rw [herase, ih (herase ▸ hnd.erase x) hlen, hrev, hfirst, reverse_append]

end Selection
