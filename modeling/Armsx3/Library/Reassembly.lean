import Armsx3.Library.OrderedMap

/-!
# Reassembly — a stream whose segments arrive in any order

The receiver keeps the segments that are not read yet in a map with their positions as keys, and reads from the
front, where a segment may be read in part.
-/

namespace Reassembly

open OrderedMap List Nat

variable {α : Type*}

def stop (x : Nat × List α) : Nat := x.1 + x.2.length

/-! ## Segments of a stream -/

def Slice (base : Nat) (stream : List α) (x : Nat × List α) : Prop :=
  ∃ pre post, stream = pre ++ x.2 ++ post ∧ x.1 = base + pre.length

variable {base : Nat} {stream : List α} {x : Nat × List α}

theorem Slice.append (h : Slice base stream x) (more : List α) : Slice base (stream ++ more) x := by
  have ⟨pre, post, hs, hx⟩ := h
  exact ⟨pre, post ++ more, by rw [hs, append_assoc], hx⟩

variable {n : Nat}

section

variable (h : Slice base stream x)
include h

theorem Slice.drop (hn : n ≤ x.2.length) : Slice base stream (x.1 + n, x.2.drop n) := by
  have ⟨pre, post, hs, hx⟩ := h
  refine ⟨pre ++ x.2.take n, post, ?_, ?_⟩
  · rw [append_assoc pre, take_append_drop]
    exact hs
  · rw [length_append, length_take, min_eq_left hn]
    omega

theorem Slice.take (n : Nat) : Slice base stream (x.1, x.2.take n) := by
  have ⟨pre, post, hs, hx⟩ := h
  refine ⟨pre, x.2.drop n ++ post, ?_, hx⟩
  rw [append_assoc, ← append_assoc (x.2.take n), take_append_drop, ← append_assoc]
  exact hs

theorem Slice.base_le : base ≤ x.1 := by
  have ⟨pre, _, _, hx⟩ := h
  omega

theorem Slice.stop_le : stop x ≤ base + stream.length := by
  have ⟨pre, post, hs, hx⟩ := h
  rw [hs, length_append, length_append]
  unfold stop
  omega

theorem Slice.take_stop : stream.take (stop x - base) = stream.take (x.1 - base) ++ x.2 := by
  have ⟨pre, post, hs, hx⟩ := h
  have hpre : x.1 - base = pre.length := by omega
  have hstop : stop x - base = (pre ++ x.2).length := by
    rw [length_append]
    unfold stop
    omega
  rw [hstop, hpre, hs, take_left, append_assoc, take_left]

end

/-- The segments a stream has been cut into do not overlap. -/
structure Cut (base : Nat) (stream : List α) (sent : Nat × List α → Prop) : Prop where
  nonempty : ∀ x, sent x → x.2 ≠ []
  slice : ∀ x, sent x → Slice base stream x
  apart : ∀ x y, sent x → sent y → x = y ∨ stop x ≤ y.1 ∨ stop y ≤ x.1

variable {sent sent' : Nat × List α → Prop} {d : List α}

theorem Cut.extend (h : Cut base stream sent) (hd : d ≠ [])
    (hsent : ∀ x, sent' x → sent x ∨ x = (base + stream.length, d)) : Cut base (stream ++ d) sent' := by
  have hend : Slice base (stream ++ d) (base + stream.length, d) := ⟨stream, [], (append_nil _).symm, rfl⟩
  constructor
  · intro x hx
    rcases hsent x hx with hx | rfl
    · exact h.nonempty x hx
    · exact hd
  · intro x hx
    rcases hsent x hx with hx | rfl
    · exact (h.slice x hx).append d
    · exact hend
  · intro x y hx hy
    rcases hsent x hx with hx | hx <;> rcases hsent y hy with hy | hy
    · exact h.apart x y hx hy
    · exact .inr (.inl (hy ▸ (h.slice x hx).stop_le))
    · exact .inr (.inr (hx ▸ (h.slice y hy).stop_le))
    · exact .inl (hx.trans hy.symm)

/-! ## Segments that wait for the reader -/

/-- The reader is at `beg`.  What waits are sent segments, the first of which may have been read in part. -/
structure Buffered (sent : Nat × List α → Prop) (beg : Nat) (m : OrderedMap Nat (List α)) : Prop where
  low : ∀ x ∈ m, beg ≤ x.1
  nonempty : ∀ x ∈ m, x.2 ≠ []
  piece : ∀ x ∈ m, ∃ y, sent y ∧ y.1 ≤ x.1 ∧ x.2 = y.2.drop (x.1 - y.1) ∧ (x.1 = y.1 ∨ x.1 = beg)

variable {beg : Nat} {m m' : OrderedMap Nat (List α)}

theorem buffered_empty : Buffered sent beg (.empty : OrderedMap Nat (List α)) :=
  ⟨fun _ hx => absurd hx not_mem_empty, fun _ hx => absurd hx not_mem_empty, fun _ hx => absurd hx not_mem_empty⟩

section

variable (h : Buffered sent beg m)
include h

theorem Buffered.mono (hsent : ∀ x, sent x → sent' x) : Buffered sent' beg m := by
  refine ⟨h.low, h.nonempty, fun x hx => ?_⟩
  have ⟨y, hy, hrest⟩ := h.piece x hx
  exact ⟨y, hsent y hy, hrest⟩

theorem Buffered.length_pos (hx : x ∈ m) : 0 < x.2.length := length_pos_iff.mpr (h.nonempty x hx)

theorem Buffered.slice (hc : Cut base stream sent) (hx : x ∈ m) : Slice base stream x := by
  have ⟨y, hy, hle, hdrop, _⟩ := h.piece x hx
  have hpos := h.length_pos hx
  have hlen : x.2.length = y.2.length - (x.1 - y.1) := by rw [hdrop, length_drop]
  have hslice := (hc.slice y hy).drop (n := x.1 - y.1) (by omega)
  rw [← hdrop, Nat.add_sub_cancel' hle] at hslice
  exact hslice

theorem Buffered.apart (hc : Cut base stream sent) {y : Nat × List α}
    (hx : x ∈ m) (hy : y ∈ m) : x = y ∨ stop x ≤ y.1 ∨ stop y ≤ x.1 := by
  have ⟨p, hp, hpx, hdx, hkx⟩ := h.piece x hx
  have ⟨q, hq, hqy, hdy, hky⟩ := h.piece y hy
  have hlowx := h.low x hx
  have hlowy := h.low y hy
  have hlenx : x.2.length = p.2.length - (x.1 - p.1) := by rw [hdx, length_drop]
  have hleny : y.2.length = q.2.length - (y.1 - q.1) := by rw [hdy, length_drop]
  have hap := hc.apart p q hp hq
  unfold stop at *
  rcases hap with heq | hlt | hlt
  · -- of one segment only the rest can be there, and then it is at the front
    rw [heq] at hkx hpx
    exact .inl (eq_of_key hx hy (by omega))
  · omega
  · omega

theorem Buffered.stop_le (hc : Cut base stream sent) {y : Nat × List α}
    (hx : x ∈ m) (hy : y ∈ m) (hlt : x.1 < y.1) : stop x ≤ y.1 := by
  have hap := h.apart hc hx hy
  unfold stop at *
  rcases hap with heq | hle | hle
  · exact absurd (heq ▸ hlt) (lt_irrefl _)
  · exact hle
  · omega

end

theorem sum_length_le {l : List (Nat × List α)} (hl : l.Pairwise fun x y => stop x ≤ y.1) {low high : Nat}
    (hle : low ≤ high) (hin : ∀ x ∈ l, low ≤ x.1 ∧ stop x ≤ high) : low + (l.map fun x => x.2.length).sum ≤ high := by
  induction l generalizing low with
  | nil => exact hle
  | cons x l ih =>
    have ⟨hx, hl'⟩ := pairwise_cons.mp hl
    have ⟨hlow, hhigh⟩ := hin x mem_cons_self
    have hrest := ih hl' hhigh fun y hy => ⟨hx y hy, (hin y (mem_cons_of_mem _ hy)).2⟩
    rw [map_cons, sum_cons]
    unfold stop at hrest
    omega

theorem Buffered.sum_length_le (h : Buffered sent beg m) (hc : Cut base stream sent) :
    (m.entries.map fun x => x.2.length).sum ≤ stream.length := by
  have hpw := m.sorted.imp_of_mem fun hx hy hlt => h.stop_le hc hx hy hlt
  have hsum := Reassembly.sum_length_le hpw (le_add_right base stream.length) fun x hx =>
    ⟨(h.slice hc hx).base_le, (h.slice hc hx).stop_le⟩
  omega

theorem Buffered.emplace (h : Buffered sent beg m) (hc : Cut base stream sent) (hx : sent x)
    (hle : beg ≤ x.1) : Buffered sent beg (m.emplace x.1 x.2) where
  low := forall_emplace h.low hle
  nonempty := forall_emplace h.nonempty (hc.nonempty x hx)
  piece := forall_emplace h.piece
    ⟨x, hx, Nat.le_refl _, by rw [Nat.sub_self, drop_zero], .inl rfl⟩

/-! ## What the reader can have -/

def Stored (m : OrderedMap Nat (List α)) (q : Nat) : Prop := ∃ x ∈ m, x.1 ≤ q ∧ q < stop x

/-- From `beg` on `n` positions are there, and the next one is not. -/
def Available (m : OrderedMap Nat (List α)) (beg n : Nat) : Prop :=
  (∀ q, beg ≤ q → q < beg + n → Stored m q) ∧ ¬ Stored m (beg + n)

theorem available_empty : Available (.empty : OrderedMap Nat (List α)) beg 0 :=
  ⟨fun q _ _ => by omega, fun ⟨_, hx, _⟩ => not_mem_empty hx⟩

theorem Available.le_length (h : Available m beg n) (hb : Buffered sent beg m)
    (hc : Cut base stream sent) (hbeg : beg ≤ base + stream.length) : beg + n ≤ base + stream.length := by
  by_cases hn : n = 0
  · omega
  · have ⟨x, hx, _, hlt⟩ := h.1 (beg + n - 1) (by omega) (by omega)
    have hstop := (hb.slice hc hx).stop_le
    omega

theorem Buffered.begin?_eq (h : Buffered sent beg m) (hs : Stored m beg) :
    ∃ d, (beg, d) ∈ m ∧ m.begin? = some (beg, d) := by
  have ⟨x, hx, hle, _⟩ := hs
  have hkey := le_antisymm hle (h.low x hx)
  cases hb : m.begin? with
  | none =>
    have hnil := List.head?_eq_none_iff.mp hb
    rw [mem_def, hnil] at hx
    exact absurd hx not_mem_nil
  | some y =>
    have hy := begin?_mem hb
    have hyk := le_antisymm (hkey ▸ begin?_le hb hx) (h.low y hy)
    exact ⟨y.2, hyk ▸ hy, by rw [← hyk]⟩

/-- A walk from `beg` over one segment after the other has come to `a`. -/
def Reached (m : OrderedMap Nat (List α)) (beg a : Nat) : Prop :=
  beg ≤ a ∧ (∀ q, beg ≤ q → q < a → Stored m q) ∧ (a = beg ∨ ∃ x ∈ m, stop x = a)

theorem reached_self : Reached m beg beg := ⟨le_refl _, fun q _ _ => by omega, .inl rfl⟩

variable {a : Nat}

theorem Reached.next (h : Reached m beg a) (hd : (a, d) ∈ m) : Reached m beg (a + d.length) := by
  have ⟨hle, hstored, _⟩ := h
  refine ⟨by omega, fun q hq1 hq2 => ?_, .inr ⟨(a, d), hd, rfl⟩⟩
  by_cases hqa : q < a
  · exact hstored q hq1 hqa
  · exact ⟨(a, d), hd, by simp only; omega, hq2⟩

theorem Reached.le_length (h : Reached m beg a) (hb : Buffered sent beg m)
    (hc : Cut base stream sent) (hbeg : beg ≤ base + stream.length) : a ≤ base + stream.length := by
  have ⟨_, _, hlast⟩ := h
  rcases hlast with heq | ⟨x, hx, heq⟩
  · omega
  · exact heq ▸ (hb.slice hc hx).stop_le

theorem Reached.available (h : Reached m beg a) (hb : Buffered sent beg m)
    (hc : Cut base stream sent) (hend : ∀ x ∈ m, x.1 ≠ a) : Available m beg (a - beg) := by
  have ⟨hle, hstored, hlast⟩ := h
  rw [Available, Nat.add_sub_cancel' hle]
  refine ⟨hstored, ?_⟩
  rintro ⟨x, hx, hxle, hxa⟩
  have hne := hend x hx
  have hlow := hb.low x hx
  rcases hlast with heq | ⟨y, hy, hya⟩
  · omega
  -- the last segment of the walk ends here, so that no other one contains its end
  have hap := hb.apart hc hx hy
  unfold stop at *
  rcases hap with hxy | hxy | hxy
  · rw [hxy] at hxa
    omega
  · omega
  · omega

/-! ## Reading -/

theorem Buffered.consume (h : Buffered sent beg m) (hc : Cut base stream sent) (hd : (beg, d) ∈ m) (hn : n ≤ d.length)
    (hm : ∀ y, y ∈ m' ↔ (y ∈ m ∧ y.1 ≠ beg) ∨ (n < d.length ∧ y = (beg + n, d.drop n))) :
    Buffered sent (beg + n) m' := by
  constructor
  · intro y hy
    rcases (hm y).mp hy with ⟨hy, hne⟩ | ⟨_, rfl⟩
    · have hlow := h.low y hy
      have hle : beg + d.length ≤ y.1 := h.stop_le hc hd hy (by simp only; omega)
      omega
    · exact le_refl _
  · intro y hy
    rcases (hm y).mp hy with ⟨hy, _⟩ | ⟨hlt, rfl⟩
    · exact h.nonempty y hy
    · exact ne_nil_of_length_pos (by rw [length_drop]; omega)
  · intro y hy
    rcases (hm y).mp hy with ⟨hy, hne⟩ | ⟨_, rfl⟩
    · have ⟨p, hp, hle, hdrop, hkey⟩ := h.piece y hy
      exact ⟨p, hp, hle, hdrop, .inl (hkey.resolve_right hne)⟩
    have ⟨p, hp, hle, hdrop, _⟩ := h.piece _ hd
    simp only at hle hdrop
    refine ⟨p, hp, by simp only; omega, ?_, .inr rfl⟩
    show d.drop n = p.2.drop (beg + n - p.1)
    rw [hdrop, drop_drop]
    congr 1
    omega

theorem stored_consume {n q : Nat} (hd : (beg, d) ∈ m) (hn : n ≤ d.length)
    (hm : ∀ y, y ∈ m' ↔ (y ∈ m ∧ y.1 ≠ beg) ∨ (n < d.length ∧ y = (beg + n, d.drop n)))
    (hq : beg + n ≤ q) : Stored m' q ↔ Stored m q := by
  constructor
  · rintro ⟨y, hy, hle, hlt⟩
    rcases (hm y).mp hy with ⟨hy, _⟩ | ⟨_, rfl⟩
    · exact ⟨y, hy, hle, hlt⟩
    · simp only [stop, length_drop] at hlt
      exact ⟨_, hd, by simp only; omega, by simp only [stop]; omega⟩
  · rintro ⟨y, hy, hle, hlt⟩
    by_cases hkey : y.1 = beg
    · have heq := eq_of_key hy hd hkey
      rw [heq] at hlt
      simp only [stop] at hlt
      exact ⟨(beg + n, d.drop n), (hm _).mpr (.inr ⟨by omega, rfl⟩), hq,
        by simp only [stop, length_drop]; omega⟩
    · exact ⟨y, (hm y).mpr (.inl ⟨hy, hkey⟩), hle, hlt⟩

theorem Available.consume {n a : Nat} (h : Available m beg a) (hd : (beg, d) ∈ m) (hn : n ≤ d.length) (hna : n ≤ a)
    (hm : ∀ y, y ∈ m' ↔ (y ∈ m ∧ y.1 ≠ beg) ∨ (n < d.length ∧ y = (beg + n, d.drop n))) :
    Available m' (beg + n) (a - n) := by
  have hend : beg + n + (a - n) = beg + a := by omega
  rw [Available, hend]
  refine ⟨fun q hq1 hq2 => ?_, ?_⟩
  · rw [stored_consume hd hn hm hq1]
    exact h.1 q (by omega) hq2
  · rw [stored_consume hd hn hm (by omega)]
    exact h.2

end Reassembly
