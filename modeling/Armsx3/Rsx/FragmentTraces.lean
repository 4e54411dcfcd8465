import Armsx3.Rsx.FragmentScan

/-!
# FragmentTraces — neighbours in an execution

Two instructions that are executed one after the other are among those that `follows` lists, unless a loop is
repeated between them or a branch is left that has no edge at its end.
-/

namespace Armsx3.Rsx

open Executes Code List

variable {data : Nat → Quad} {last : Nat} {c : Code} {a x y : Nat} {P : Nat → Prop} {t u : List Nat}

/-! ## Lists -/

theorem infix_append {l r : List Nat} (h : [x, y] <:+: l ++ r) :
    [x, y] <:+: l ∨ [x, y] <:+: r ∨ ∃ l' r', l = l' ++ [x] ∧ r = y :: r' := by
  induction l with
  | nil => exact .inr (.inl h)
  | cons z l ih =>
    rcases infix_cons_iff.mp h with hpre | hinf
    · have ⟨w, hw⟩ := hpre
      simp only [cons_append, nil_append, cons.injEq] at hw
      have ⟨hxz, hrest⟩ := hw
      cases l with
      | nil => exact .inr (.inr ⟨[], w, by rw [hxz]; rfl, hrest.symm⟩)
      | cons z' l =>
        have hyz := (cons.inj hrest).1
        exact .inl ⟨[], l, by rw [hxz, hyz]; rfl⟩
    · rcases ih hinf with h | h | ⟨l', r', hl, hr⟩
      · exact .inl (infix_cons_iff.mpr (.inr h))
      · exact .inr (.inl h)
      · exact .inr (.inr ⟨z :: l', r', by rw [hl]; rfl, hr⟩)

variable {z : Nat}

theorem infix_cons {l : List Nat} (h : [x, y] <:+: z :: l) : [x, y] <:+: l ∨ (x = z ∧ ∃ r, l = y :: r) := by
  rcases infix_append (l := [z]) h with h | h | ⟨l', r', hl, hr⟩
  · have hlen := h.length_le
    simp at hlen
  · exact .inl h
  · rcases append_eq_singleton_iff.mp hl.symm with ⟨_, hx⟩ | ⟨_, hx⟩
    · exact .inr ⟨by simpa using hx, r', hr⟩
    · cases hx

theorem concat_eq_cons {v : List Nat} (h : t ++ [x] = z :: (u ++ v)) :
    (∃ v', v = v' ++ [x]) ∨ (v = [] ∧ ((u = [] ∧ x = z) ∨ ∃ u', u = u' ++ [x])) := by
  have hend : ∀ {l : List Nat} {w : Nat}, t ++ [x] = l ++ [w] → w = x := by
    intro l w hl
    have hw := append_inj_right' hl rfl
    simpa using hw.symm
  rcases eq_nil_or_concat v with hv | ⟨v', w, hv⟩
  · refine .inr ⟨hv, ?_⟩
    rw [hv, append_nil] at h
    rcases eq_nil_or_concat u with hu | ⟨u', w, hu⟩
    · rw [hu] at h
      exact .inl ⟨hu, (hend (l := []) h).symm⟩
    · rw [concat_eq_append] at hu
      rw [hu] at h
      exact .inr ⟨u', hend (l := z :: u') h ▸ hu⟩
  · rw [concat_eq_append] at hv
    rw [hv, ← append_assoc] at h
    exact .inl ⟨v', hend (l := z :: (u ++ v')) h ▸ hv⟩

theorem infix_cons_append {v : List Nat} (h : [x, y] <:+: z :: (u ++ v)) :
    (x = z ∧ ∃ r, u = y :: r) ∨ [x, y] <:+: u ∨ [x, y] <:+: v ∨
      ∃ r, ((u = [] ∧ x = z) ∨ ∃ u', u = u' ++ [x]) ∧ v = y :: r := by
  rcases infix_cons h with h | ⟨hx, r, hr⟩
  · rcases infix_append h with h | h | ⟨l, r, hl, hr⟩
    · exact .inr (.inl h)
    · exact .inr (.inr (.inl h))
    · exact .inr (.inr (.inr ⟨r, .inr ⟨l, hl⟩, hr⟩))
  · cases u with
    | nil => exact .inr (.inr (.inr ⟨r, .inl ⟨rfl, hx⟩, hr⟩))
    | cons w u =>
      have hw := (cons.inj hr).1
      exact .inl ⟨hx, u, by rw [hw]⟩

variable {us : List (List Nat)}

theorem flatten_cons (h : us.flatten = y :: t) : ∃ u ∈ us, ∃ r, u = y :: r := by
  induction us with
  | nil => cases h
  | cons w us ih =>
    rw [List.flatten_cons] at h
    cases w with
    | nil =>
      have ⟨u, hu, hr⟩ := ih h
      exact ⟨u, mem_cons_of_mem _ hu, hr⟩
    | cons z w =>
      simp only [cons_append, cons.injEq] at h
      exact ⟨z :: w, mem_cons_self, w, by rw [h.1]⟩

theorem flatten_concat (h : us.flatten = t ++ [x]) : ∃ u ∈ us, ∃ r, u = r ++ [x] := by
  induction us generalizing t with
  | nil => simp at h
  | cons w us ih =>
    rw [List.flatten_cons] at h
    rcases eq_nil_or_concat us.flatten with hnil | ⟨l, z, hl⟩
    · rw [hnil, append_nil] at h
      exact ⟨w, mem_cons_self, t, h⟩
    rw [concat_eq_append] at hl
    rw [hl, ← append_assoc] at h
    have hz : z = x := by
      have := append_inj_right' h rfl
      simpa using this
    have ⟨u, hu, hr⟩ := ih (hz ▸ hl)
    exact ⟨u, mem_cons_of_mem _ hu, hr⟩

/-! ## Where the instructions are -/

theorem Executes.range (hc : Encodes data last c a) (h : Executes c a t) :
    ∀ x ∈ t, a * 16 ≤ x ∧ x < (a + c.size) * 16 := by
  induction c generalizing a t with
  | done =>
    intro x hx
    rw [h] at hx
    cases hx
  | nop n rest ih =>
    intro x hx
    have hx' := ih hc.2.2.2 h x hx
    simp only [size]
    omega
  | op n rest ih =>
    have hpos := (data a).decode.opSize_pos
    have hn := hc.2.1
    obtain ⟨u, hu, hrest⟩ := h
    intro x hx
    rw [hu] at hx
    simp only [size]
    rcases mem_cons.mp hx with hx | hx
    · omega
    · have hx' := ih hc.2.2.2 hrest x hx
      omega
  | ife thn els rest ihThn ihEls ih =>
    obtain ⟨_, _, _, _, hthn, hels, hcode⟩ := hc
    intro x hx
    simp only [size]
    unfold Executes at h
    split at h
    next hempty =>
      simp only [hempty.1, hempty.2, size, Nat.add_zero] at hcode ⊢
      have hx' := ih hcode h x hx
      omega
    obtain ⟨u, v, ht, hu, hv⟩ := h
    rw [ht] at hx
    rcases mem_cons.mp hx with hx | hx
    · omega
    rcases mem_append.mp hx with hx | hx
    · rcases hu with hu | hu
      · have hx' := ihThn hthn hu x hx
        omega
      · have hx' := ihEls hels hu x hx
        omega
    · have hx' := ih hcode hv x hx
      omega
  | loop body rest ihBody ih =>
    obtain ⟨_, _, _, hbody, hcode⟩ := hc
    intro x hx
    simp only [size]
    unfold Executes at h
    split at h
    next hempty =>
      simp only [hempty, size, Nat.add_zero] at hcode ⊢
      have hx' := ih hcode h x hx
      omega
    obtain ⟨us, v, ht, hus, hv⟩ := h
    rw [ht] at hx
    rcases mem_cons.mp hx with hx | hx
    · omega
    rcases mem_append.mp hx with hx | hx
    · obtain ⟨u, hu, hxu⟩ := mem_flatten.mp hx
      have hx' := ihBody hbody (hus u hu) x hxu
      omega
    · have hx' := ih hcode hv x hx
      omega

theorem Executes.first_le (hc : Encodes data last c a) (h : Executes c a (y :: t))
    (h' : Executes c a u) : ∀ x ∈ u, y ≤ x := by
  induction c generalizing a t u with
  | done => cases h
  | nop n rest ih => exact ih hc.2.2.2 h h'
  | op =>
    obtain ⟨_, hu, _⟩ := h
    intro x hx
    have hx' := (range hc h' x hx).1
    cases hu
    exact hx'
  | ife thn els rest _ _ ih =>
    obtain ⟨_, _, _, _, _, _, hcode⟩ := id hc
    by_cases hempty : thn = .done ∧ els = .done
    · simp only [Executes, hempty, and_self, if_true] at h h'
      simp only [hempty.1, hempty.2, size, Nat.add_zero] at hcode
      exact ih hcode h h'
    intro x hx
    have hx' := (range hc h' x hx).1
    simp only [Executes, hempty, if_false] at h
    obtain ⟨_, _, ht, _, _⟩ := h
    cases ht
    exact hx'
  | loop body rest _ ih =>
    obtain ⟨_, _, _, _, hcode⟩ := id hc
    by_cases hempty : body = .done
    · simp only [Executes, hempty, if_true] at h h'
      simp only [hempty, size, Nat.add_zero] at hcode
      exact ih hcode h h'
    intro x hx
    have hx' := (range hc h' x hx).1
    simp only [Executes, hempty, if_false] at h
    obtain ⟨_, _, ht, _, _⟩ := h
    cases ht
    exact hx'

/-! ## Neighbours -/

theorem Executes.blocked_nil (h : Executes c a []) (front : Bool) : c.blocked front = !front := by
  induction c generalizing a with
  | done => rfl
  | nop n rest ih => exact ih h
  | op n rest _ =>
    obtain ⟨_, hu, _⟩ := h
    cases hu
  | ife thn els rest _ _ ih | loop body rest _ ih =>
    unfold Executes at h
    unfold blocked
    split at h
    next hempty =>
      rw [if_pos hempty]
      exact ih h
    · obtain ⟨_, _, hu, _⟩ := h
      cases hu

theorem Executes.lasts_nil (h : Executes c a []) (hx : P x) : lasts c a P x := by
  induction c generalizing a with
  | done => exact hx
  | nop n rest ih => exact ih h
  | op n rest _ =>
    obtain ⟨_, hu, _⟩ := h
    cases hu
  | ife thn els rest _ _ ih | loop body rest _ ih =>
    unfold Executes at h
    unfold lasts
    split at h
    next hempty =>
      rw [if_pos hempty]
      exact ih h
    · obtain ⟨_, _, hu, _⟩ := h
      cases hu

theorem Executes.follows_head (h : Executes c a (y :: t)) (hx : P x) : follows c a P x y := by
  induction c generalizing a with
  | done => cases h
  | nop n rest ih => exact ih h
  | op n rest _ =>
    obtain ⟨_, hu, _⟩ := h
    cases hu
    exact .inl ⟨hx, rfl⟩
  | ife thn els rest _ _ ih | loop body rest _ ih =>
    unfold Executes at h
    unfold follows
    split at h
    next hempty =>
      rw [if_pos hempty]
      exact ih h
    next hne =>
      rw [if_neg hne]
      obtain ⟨_, _, hu, _⟩ := h
      cases hu
      exact .inl ⟨hx, rfl⟩

section

variable (hc : Encodes data last c a)
include hc

/-- The last instruction before the end of a branch that was taken, after an IF or LOOP at `z`, is among
those that the branch hands on, unless the branch is left without an edge. -/
theorem Executes.branch_lasts {e z : Nat} (he : e = a + c.size)
    (h : Executes c a u) (hx : (u = [] ∧ x = z) ∨ ∃ u', u = u' ++ [x])
    (hy : ¬ (a * 16 ≤ y ∧ y < e * 16)) (hleave : ¬ (c.blocked true ∧ Leaves a e x y))
    (hlast : ∀ u', Executes c a (u' ++ [x]) → lasts c a (· = z) x) : c.blocked true = false ∧ lasts c a (· = z) x := by
  rcases hx with ⟨hnil, hxz⟩ | ⟨u', hu'⟩
  · rw [hnil] at h
    exact ⟨blocked_nil h true, lasts_nil h hxz⟩
  rw [hu'] at h
  have hrange := range hc h x (by simp)
  rw [← he] at hrange
  have hopen : c.blocked true = false := by
    rw [← Bool.not_eq_true]
    exact fun hb => hleave ⟨hb, hrange, hy⟩
  exact ⟨hopen, hlast u' h⟩

/-- The last instruction of an execution is among `lasts`, unless a branch is left on the way to `y`. -/
theorem Executes.lasts_concat (h : Executes c a (t ++ [x]))
    (hy : ¬ (a * 16 ≤ y ∧ y < (a + c.size) * 16)) (hcross : ¬ Crosses c a x y) : lasts c a P x := by
  induction c generalizing a t P with
  | done =>
    have hnil : t ++ [x] = [] := h
    simp at hnil
  | nop n rest ih =>
    simp only [size] at hy
    exact ih hc.2.2.2 h (by omega) hcross
  | op n rest ih =>
    simp only [size] at hy
    obtain ⟨u, hu, hrest⟩ := h
    unfold lasts
    rcases concat_eq_cons (u := []) hu with ⟨v, hv⟩ | ⟨hnil, ⟨_, hx⟩ | ⟨_, hx⟩⟩
    · rw [hv] at hrest
      exact ih hc.2.2.2 hrest (by omega) hcross
    · rw [hnil] at hrest
      exact lasts_nil hrest hx
    · simp at hx
  | ife thn els rest ihThn ihEls ih =>
    obtain ⟨_, _, _, _, hthn, hels, hcode⟩ := hc
    simp only [size] at hy
    simp only [Crosses, not_or] at hcross
    obtain ⟨hleaveThn, hleaveEls, hcrossThn, hcrossEls, hcrossRest⟩ := hcross
    unfold Executes at h
    unfold lasts
    split at h
    next hempty =>
      rw [if_pos hempty]
      simp only [hempty.1, hempty.2, size, Nat.add_zero] at hcode hcrossRest hy
      exact ih hcode h (by omega) hcrossRest
    rename_i hne
    rw [if_neg hne]
    obtain ⟨u, v, ht, hu, hv⟩ := h
    rcases concat_eq_cons ht with ⟨v', hv'⟩ | ⟨hnil, hx⟩
    · rw [hv'] at hv
      exact ih hcode hv (by omega) hcrossRest
    rw [hnil] at hv
    apply lasts_nil hv
    rcases hu with hu | hu
    · exact .inl (branch_lasts hthn rfl hu hx (by omega) hleaveThn
        fun _ hw => ihThn hthn hw (by omega) hcrossThn)
    · exact .inr (branch_lasts hels rfl hu hx (by omega) hleaveEls
        fun _ hw => ihEls hels hw (by omega) hcrossEls)
  | loop body rest ihBody ih =>
    obtain ⟨_, _, _, hbody, hcode⟩ := hc
    simp only [size] at hy
    simp only [Crosses, not_or] at hcross
    obtain ⟨hleave, hcrossBody, hcrossRest⟩ := hcross
    unfold Executes at h
    unfold lasts
    split at h
    next hempty =>
      rw [if_pos hempty]
      simp only [hempty, size, Nat.add_zero] at hcode hcrossRest hy
      exact ih hcode h (by omega) hcrossRest
    rename_i hne
    rw [if_neg hne]
    obtain ⟨us, v, ht, hus, hv⟩ := h
    rcases concat_eq_cons ht with ⟨v', hv'⟩ | ⟨hnil, hx⟩
    · rw [hv'] at hv
      exact ih hcode hv (by omega) hcrossRest
    rw [hnil] at hv
    apply lasts_nil hv
    rcases hx with ⟨_, hx⟩ | ⟨w, hw⟩
    · exact .inl hx
    -- the last iteration that executed something ends with `x`
    obtain ⟨u, hu, r, hr⟩ := flatten_concat hw
    exact .inr (branch_lasts hbody rfl (hus u hu) (.inr ⟨r, hr⟩) (by omega) hleave
      fun _ hw => ihBody hbody hw (by omega) hcrossBody)

theorem Executes.infix_flatten
    (hus : ∀ u ∈ us, Executes c a u) (h : [x, y] <:+: us.flatten) (hxy : x < y) : ∃ u ∈ us, [x, y] <:+: u := by
  induction us with
  | nil =>
    have hlen := h.length_le
    simp at hlen
  | cons w us ih =>
    have hw := hus w mem_cons_self
    rcases infix_append h with h | h | ⟨l, r, hl, hr⟩
    · exact ⟨w, mem_cons_self, h⟩
    · have ⟨u, hu, hxyu⟩ := ih (fun u hu => hus u (mem_cons_of_mem _ hu)) h
      exact ⟨u, mem_cons_of_mem _ hu, hxyu⟩
    · -- `y` would be the first instruction of the body
      have ⟨u, hu, r', hr'⟩ := flatten_cons hr
      have hfirst := hr' ▸ hus u (mem_cons_of_mem _ hu)
      have hle := first_le hc hfirst hw x (by rw [hl]; simp)
      omega

/-- Neighbours of an execution, in ascending order, follow each other, unless a branch is left between
them. -/
theorem Executes.follows_infix (h : Executes c a t) (hxy : x < y)
    (hinf : [x, y] <:+: t) (hcross : ¬ Crosses c a x y) : follows c a P x y := by
  induction c generalizing a t P with
  | done =>
    have hlen := hinf.length_le
    rw [h] at hlen
    simp at hlen
  | nop n rest ih => exact ih hc.2.2.2 h hinf hcross
  | op n rest ih =>
    obtain ⟨u, hu, hrest⟩ := h
    rw [hu] at hinf
    rcases infix_cons hinf with hinf | ⟨hx, r, hr⟩
    · exact .inr (ih hc.2.2.2 hrest hinf hcross)
    · rw [hr] at hrest
      exact .inr (follows_head hrest hx)
  | ife thn els rest ihThn ihEls ih =>
    obtain ⟨_, _, _, _, hthn, hels, hcode⟩ := hc
    simp only [Crosses, not_or] at hcross
    obtain ⟨hleaveThn, hleaveEls, hcrossThn, hcrossEls, hcrossRest⟩ := hcross
    unfold Executes at h
    unfold follows
    split at h
    next hempty =>
      rw [if_pos hempty]
      simp only [hempty.1, hempty.2, size, Nat.add_zero] at hcode hcrossRest
      exact ih hcode h hinf hcrossRest
    rename_i hne
    rw [if_neg hne]
    obtain ⟨u, v, ht, hu, hv⟩ := h
    rw [ht] at hinf
    rcases infix_cons_append hinf with ⟨hx, r, hr⟩ | hinf | hinf | ⟨r, hx, hr⟩
    · rw [hr] at hu
      rcases hu with hu | hu
      · exact .inr (.inl (follows_head hu hx))
      · exact .inr (.inr (.inl (follows_head hu hx)))
    · rcases hu with hu | hu
      · exact .inr (.inl (ihThn hthn hu hinf hcrossThn))
      · exact .inr (.inr (.inl (ihEls hels hu hinf hcrossEls)))
    · exact .inr (.inr (.inr (ih hcode hv hinf hcrossRest)))
    · rw [hr] at hv
      have hy := (range hcode hv y mem_cons_self).1
      refine .inr (.inr (.inr (follows_head hv ?_)))
      rcases hu with hu | hu
      · exact .inl (branch_lasts hthn rfl hu hx (by omega) hleaveThn
          fun _ hw => lasts_concat hthn hw (by omega) hcrossThn)
      · exact .inr (branch_lasts hels rfl hu hx (by omega) hleaveEls
          fun _ hw => lasts_concat hels hw (by omega) hcrossEls)
  | loop body rest ihBody ih =>
    obtain ⟨_, _, _, hbody, hcode⟩ := hc
    simp only [Crosses, not_or] at hcross
    obtain ⟨hleave, hcrossBody, hcrossRest⟩ := hcross
    unfold Executes at h
    unfold follows
    split at h
    next hempty =>
      rw [if_pos hempty]
      simp only [hempty, size, Nat.add_zero] at hcode hcrossRest
      exact ih hcode h hinf hcrossRest
    rename_i hne
    rw [if_neg hne]
    obtain ⟨us, v, ht, hus, hv⟩ := h
    rw [ht] at hinf
    rcases infix_cons_append hinf with ⟨hx, r, hr⟩ | hinf | hinf | ⟨r, hx, hr⟩
    · obtain ⟨u, hu, r', hr'⟩ := flatten_cons hr
      have hfirst := hr' ▸ hus u hu
      exact .inr (.inl (follows_head hfirst hx))
    · obtain ⟨u, hu, hinf⟩ := infix_flatten hbody hus hinf hxy
      exact .inr (.inl (ihBody hbody (hus u hu) hinf hcrossBody))
    · exact .inr (.inr (ih hcode hv hinf hcrossRest))
    · rw [hr] at hv
      have hy := (range hcode hv y mem_cons_self).1
      refine .inr (.inr (follows_head hv ?_))
      rcases hx with ⟨_, hx⟩ | ⟨w, hw⟩
      · exact .inl hx
      · obtain ⟨u, hu, r', hr'⟩ := flatten_concat hw
        exact .inr (branch_lasts hbody rfl (hus u hu) (.inr ⟨r', hr'⟩) (by omega) hleave
          fun _ hw => lasts_concat hbody hw (by omega) hcrossBody)

end

end Armsx3.Rsx
