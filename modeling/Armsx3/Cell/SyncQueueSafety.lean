import Armsx3.Cell.SyncQueue
import Armsx3.Library.Guarded
import Armsx3.Library.Ring

/-!
# SyncQueueSafety — order and slots of the cellSync queue

The fields have 24 bits, and a depth of 24 bits or more is accepted, so that the count of elements can wrap around.
-/

namespace Armsx3.Cell.SyncQueue

open Function State Guarded ByteStore List Nat Option

variable {τ : Type} [DecidableEq τ] {q : Queue} {s s' : State τ} {t : τ}

/-! ## Sections -/

def Pc.inPush : Pc → Prop
  | .pushCopy _ _ => True
  | .pushEnd _ => True
  | .clearStore => True
  | _ => False

def Pc.inPop : Pc → Prop
  | .popCopy _ _ => True
  | .popEnd _ _ _ => True
  | .clear2 => True
  | .clearStore => True
  | _ => False

def Pc.Outside (q : Queue) : Pc → Prop
  | .idle _ => True
  | .begin c => c.Fits q
  | _ => False

variable {p : Pc}

theorem Pc.Outside.not_inPush (h : p.Outside q) : ¬ p.inPush := by
  cases p <;> simp_all [Pc.Outside, Pc.inPush]

theorem Pc.Outside.not_inPop (h : p.Outside q) : ¬ p.inPop := by
  cases p <;> simp_all [Pc.Outside, Pc.inPop]

inductive Effect (q : Queue) (s : State τ) : State τ → Prop
  | stay : Effect q s s
  | move (t : τ) (p : Pc) (hold : ¬ (s.loc t).inPop ∨ s.loc t = .clear2)
      (hp : p.Outside q) : Effect q s (s.goto t p)
  | fail (t : τ) (h : s.ctrl.checkDepth q.depth = false) : Effect q s (s.goto t .failed)
  | pushBegin (t : τ) (blocking : Bool) (e : List UInt8) (hloc : s.loc t = .begin (.push blocking e))
      (hpush : s.ctrl.push = 0) (hroom : s.ctrl.count + s.ctrl.pop < q.depth) :
      Effect q s
        { s.goto t (.pushCopy s.ctrl.next e) with
          ctrl := { s.ctrl with
            next := (if s.ctrl.next + 1 ≠ q.depth then s.ctrl.next + 1 else 0) % 2 ^ 24
            count := (s.ctrl.count + 1) % 2 ^ 24
            push := 1 }
          pushed := s.pushed ++ [e] }
  | pushCopy (t : τ) (p : Nat) (e : List UInt8) (hloc : s.loc t = .pushCopy p e) :
      Effect q s { s.goto t (.pushEnd p) with mem := write s.mem (offset q p) e }
  | pushEnd (t : τ) (p : Nat) (hloc : s.loc t = .pushEnd p) :
      Effect q s { s.goto t (.idle none) with ctrl := s.ctrl.pushEnd }
  | popBegin (t : τ) (blocking : Bool) (hloc : s.loc t = .begin (.pop blocking)) (hpop : s.ctrl.pop = 0)
      (hcount : s.ctrl.push < s.ctrl.count) :
      Effect q s
        { s.goto t (.popCopy false (s.ctrl.front q.depth)) with
          ctrl := { s.ctrl with pop := 1, count := s.ctrl.count - 1 }
          taken := s.taken + 1 }
  | peekBegin (t : τ) (blocking : Bool) (hloc : s.loc t = .begin (.peek blocking)) (hpop : s.ctrl.pop = 0)
      (hcount : s.ctrl.push < s.ctrl.count) :
      Effect q s
        { s.goto t (.popCopy true (s.ctrl.front q.depth)) with ctrl := { s.ctrl with pop := 1 } }
  | popCopy (t : τ) (peek : Bool) (p : Nat) (hloc : s.loc t = .popCopy peek p) :
      Effect q s
        { s.goto t (.popEnd peek p (s.element q (p % q.depth))) with
          popped := if peek then s.popped else s.popped ++ [s.element q (p % q.depth)] }
  | popEnd (t : τ) (peek : Bool) (p : Nat) (got : List UInt8) (hloc : s.loc t = .popEnd peek p got) :
      Effect q s { s.goto t (.idle none) with ctrl := s.ctrl.popEnd }
  | clear1 (t : τ) (hloc : s.loc t = .begin .clear) (hpop : s.ctrl.pop = 0) :
      Effect q s { s.goto t .clear2 with ctrl := { s.ctrl with pop := 1 } }
  | clear2 (t : τ) (hloc : s.loc t = .clear2) (hpush : s.ctrl.push = 0) :
      Effect q s { s.goto t .clearStore with ctrl := { s.ctrl with push := 1 } }
  | clearStore (t : τ) (hloc : s.loc t = .clearStore) :
      Effect q s { s.goto t (.idle none) with ctrl := {}, pushed := [], popped := [], taken := 0 }

variable {c : Call}

theorem effect_busy (hloc : s.loc t = .begin c) (blocking : Bool) : Effect q s (s.busy t blocking) := by
  unfold busy
  split
  · exact .stay
  · exact .move t _ (.inl (by rw [hloc]; exact id)) trivial

theorem effect_begin (hloc : s.loc t = .begin c) : Effect q s (s.begin q t c) := by
  cases c with
  | push blocking e =>
    unfold State.begin Ctrl.tryPushBegin
    by_cases h : s.ctrl.push ≠ 0 ∨ s.ctrl.count + s.ctrl.pop ≥ q.depth
    · rw [if_pos h]
      exact effect_busy hloc blocking
    · rw [if_neg h]
      exact .pushBegin t blocking e hloc (by omega) (by omega)
  | pop blocking =>
    unfold State.begin Ctrl.tryPopBegin
    by_cases h : s.ctrl.pop ≠ 0 ∨ s.ctrl.count ≤ s.ctrl.push
    · rw [if_pos h]
      exact effect_busy hloc blocking
    · rw [if_neg h]
      exact .popBegin t blocking hloc (by omega) (by omega)
  | peek blocking =>
    unfold State.begin Ctrl.tryPeekBegin
    by_cases h : s.ctrl.pop ≠ 0 ∨ s.ctrl.count ≤ s.ctrl.push
    · rw [if_pos h]
      exact effect_busy hloc blocking
    · rw [if_neg h]
      exact .peekBegin t blocking hloc (by omega) (by omega)
  | clear =>
    unfold State.begin Ctrl.tryClearBegin1
    by_cases h : s.ctrl.pop ≠ 0
    · rw [if_pos h]
      exact .stay
    · rw [if_neg h]
      exact .clear1 t hloc (by omega)

theorem effect_exec (h : s.exec q t = some s') : Effect q s s' := by
  unfold exec at h
  split at h
  · cases h
  · cases h
  next c hloc =>
    cases h
    exact effect_begin hloc
  next p e hloc =>
    cases h
    exact .pushCopy t p e hloc
  next p hloc =>
    cases h
    exact .pushEnd t p hloc
  next peek p hloc =>
    cases h
    exact .popCopy t peek p hloc
  next peek p got hloc =>
    cases h
    exact .popEnd t peek p got hloc
  next hloc =>
    unfold Ctrl.tryClearBegin2 at h
    by_cases hpush : s.ctrl.push ≠ 0
    · rw [if_pos hpush] at h
      cases h
      exact .stay
    · rw [if_neg hpush] at h
      cases h
      exact .clear2 t hloc (by omega)
  next hloc =>
    cases h
    exact .clearStore t hloc

theorem effect_call {null : Bool} {r : Option SyncError} (hloc : s.loc t = .idle r)
    (hfits : c.Fits q) : Effect q s (s.call q t c null) := by
  have hout : ¬ (s.loc t).inPop ∨ s.loc t = .clear2 := .inl (by rw [hloc]; exact id)
  unfold State.call
  split
  · exact .move t _ hout trivial
  split
  · exact .move t _ hout hfits
  next hdepth =>
    exact .fail t (by simpa using hdepth)

theorem effect_step {e : Event τ} (h : step q s e = some s') : Effect q s s' := by
  cases e with
  | call =>
    simp only [step] at h
    split at h
    next r hloc =>
      have ⟨hfits, rfl⟩ := ite_some_none_eq_some.mp h
      exact effect_call hloc hfits
    · cases h
  | step => exact effect_exec h
  | stop t =>
    have ⟨hwaits, rfl⟩ := ite_some_none_eq_some.mp h
    refine .move t _ ?_ trivial
    generalize s.loc t = p at hwaits
    cases p with
    | clear2 => exact .inr rfl
    | begin => exact .inl id
    | _ => cases hwaits

/-! ## The invariant -/

def Local (q : Queue) (s : State τ) : Pc → Prop
  | .idle _ => True
  | .failed => False
  | .begin c => c.Fits q
  | .pushCopy p e =>
    p = (s.pushed.length - 1) % q.depth ∧ s.taken < s.pushed.length ∧
    s.pushed[s.pushed.length - 1]? = some e ∧ e.length = q.size
  | .pushEnd p =>
    p = (s.pushed.length - 1) % q.depth ∧ s.taken < s.pushed.length ∧
    s.pushed[s.pushed.length - 1]? = some (s.element q p)
  | .popCopy peek p =>
    s.taken = s.popped.length + (if peek then 0 else 1) ∧
    s.popped.length + s.ctrl.push < s.pushed.length ∧ p % q.depth = s.popped.length % q.depth ∧
    (peek = false → s.ctrl.count < q.depth)
  | .popEnd false p _ =>
    s.taken = s.popped.length ∧ 0 < s.popped.length ∧ p % q.depth = (s.popped.length - 1) % q.depth ∧
    s.ctrl.count < q.depth
  | .popEnd true p got =>
    s.taken = s.popped.length ∧ s.popped.length + s.ctrl.push < s.pushed.length ∧
    p % q.depth = s.popped.length % q.depth ∧ s.pushed[s.popped.length]? = some got
  | .clear2 => s.taken = s.popped.length
  | .clearStore => s.taken = s.popped.length

structure Inv (q : Queue) (s : State τ) : Prop where
  pushLe : s.ctrl.push ≤ 1
  popLe : s.ctrl.pop ≤ 1
  push : Guarded s.loc Pc.inPush (s.ctrl.push = 1)
  pop : Guarded s.loc Pc.inPop (s.ctrl.pop = 1)
  next : s.ctrl.next = s.pushed.length % q.depth
  count : s.ctrl.count + s.taken = s.pushed.length
  room : s.ctrl.count ≤ q.depth
  popped : s.popped <+: s.pushed
  settled : (∀ t, ¬ (s.loc t).inPop) → s.taken = s.popped.length
  at_ : ∀ t, Local q s (s.loc t)
  kept : ∀ j e, s.popped.length ≤ j → s.pushed[j]? = some e →
    j + 1 < s.pushed.length ∨ s.ctrl.push = 0 → s.element q (j % q.depth) = e

/-- The depth fits the fields of the control word, and the buffer fits the memory. -/
structure Queue.Small (q : Queue) : Prop where
  pos : 0 < q.depth
  depth : q.depth < 2 ^ 24
  buffer : q.depth * q.size ≤ 2 ^ 32

omit [DecidableEq τ] in
/-- No more than `depth` elements: only a pop that is copying is ahead of the elements that were popped, and it
has made room. -/
theorem Inv.held (h : Inv q s) : s.pushed.length ≤ s.popped.length + q.depth := by
  have hcount := h.count
  have hroom := h.room
  by_cases hpop : ∃ t, (s.loc t).inPop
  · have ⟨t, ht⟩ := hpop
    have hloc := h.at_ t
    generalize s.loc t = p at ht hloc
    cases p with
    | popCopy peek =>
      have ⟨htaken, _, _, hfree⟩ := hloc
      cases peek with
      | false =>
        have hfree := hfree rfl
        simp only [Bool.false_eq_true, if_false] at htaken
        omega
      | true =>
        simp only [if_true] at htaken
        omega
    | popEnd peek =>
      cases peek with
      | false =>
        have htaken := hloc.1
        omega
      | true =>
        have htaken := hloc.1
        omega
    | clear2 | clearStore =>
      have htaken : s.taken = s.popped.length := hloc
      omega
    | _ => cases ht
  · have htaken := h.settled fun t ht => hpop ⟨t, ht⟩
    omega

theorem at_update {loc : τ → Pc} (hself : Local q s' p)
    (hother : ∀ u, u ≠ t → Local q s' (loc u)) (u : τ) : Local q s' (update loc t p u) := by
  by_cases hu : u = t
  · rw [hu, update_self]
    exact hself
  · rw [update_of_ne hu]
    exact hother u hu

omit [DecidableEq τ] in
theorem Pc.Outside.local (h : p.Outside q) : Local q s p := by
  cases p <;> simp_all [Pc.Outside, Local]

theorem inv_move (h : Inv q s) (hold : ¬ (s.loc t).inPop ∨ s.loc t = .clear2) (hp : p.Outside q) :
    Inv q (s.goto t p) where
  __ := h
  push := h.push.move (fun hin => (hp.not_inPush hin).elim) id
  pop := h.pop.move (fun hin => (hp.not_inPop hin).elim) id
  settled := by
    intro hout
    rcases hold with hold | hold
    · exact h.settled (free_of_update hold hout)
    · have hloc := h.at_ t
      rw [hold] at hloc
      exact hloc
  at_ := at_update hp.local fun u _ => h.at_ u

/-! ## Pushes -/

variable {e : List UInt8}

theorem inv_pushBegin (hq : q.Small) (h : Inv q s) {b : Bool}
    (hloc : s.loc t = .begin (.push b e)) (hpush : s.ctrl.push = 0)
    (hroom : s.ctrl.count + s.ctrl.pop < q.depth) :
    Inv q { s.goto t (.pushCopy s.ctrl.next e) with
          ctrl := { s.ctrl with
            next := (if s.ctrl.next + 1 ≠ q.depth then s.ctrl.next + 1 else 0) % 2 ^ 24
            count := (s.ctrl.count + 1) % 2 ^ 24
            push := 1 }
          pushed := s.pushed ++ [e] } := by
  have hpos := hq.pos
  have hdepth := hq.depth
  have hcount := h.count
  have hfits : e.length = q.size := by
    have hat := h.at_ t
    rw [hloc] at hat
    exact hat
  have hnot : ¬ s.ctrl.push = 1 := by omega
  have hlen : (s.pushed ++ [e]).length = s.pushed.length + 1 := by simp
  have hnext' : (if s.ctrl.next + 1 ≠ q.depth then s.ctrl.next + 1 else 0) % 2 ^ 24 =
      (s.pushed.length + 1) % q.depth := by
    rw [h.next, ← Ring.succ_mod hpos]
    have hlt := mod_lt (s.pushed.length + 1) hpos
    exact mod_eq_of_lt (by omega)
  have hold : ∀ (j : Nat) x, s.pushed[j]? = some x → (s.pushed ++ [e])[j]? = some x := by
    intro j x hj
    have hlt := (List.getElem?_eq_some_iff.mp hj).1
    rw [getElem?_append_left hlt]
    exact hj
  refine ⟨le_refl _, h.popLe, h.push.enter hnot rfl, h.pop.move False.elim id, ?_, ?_, ?_, ?_, ?_, ?_, ?_⟩
  · rw [hlen]
    exact hnext'
  · show (s.ctrl.count + 1) % 2 ^ 24 + s.taken = (s.pushed ++ [e]).length
    omega
  · show (s.ctrl.count + 1) % 2 ^ 24 ≤ q.depth
    omega
  · exact h.popped.trans (prefix_append _ _)
  · exact fun hout => h.settled (free_of_update (by rw [hloc]; exact id) hout)
  · apply at_update
    · refine ⟨?_, ?_, ?_, hfits⟩
      · rw [hlen, Nat.add_sub_cancel]
        exact h.next
      · show s.taken < (s.pushed ++ [e]).length
        omega
      · rw [hlen, Nat.add_sub_cancel, getElem?_append_right (Nat.le_refl _), Nat.sub_self]
        rfl
    -- nobody else is pushing; a pop or peek has even more elements in front of it
    intro u hu
    have hat := h.at_ u
    have hout := h.push.free hnot u
    have hlock := h.pop.locked u
    generalize s.loc u = p at hat hout hlock
    cases p with
    | popCopy =>
      have ⟨htaken, hlt, hp, _⟩ := hat
      have hlock := hlock trivial
      refine ⟨htaken, ?_, hp, fun _ => ?_⟩
      · show s.popped.length + 1 < (s.pushed ++ [e]).length
        omega
      · show (s.ctrl.count + 1) % 2 ^ 24 < q.depth
        omega
    | popEnd peek =>
      cases peek with
      | false =>
        have ⟨htaken, hk, hp, _⟩ := hat
        have hlock := hlock trivial
        refine ⟨htaken, hk, hp, ?_⟩
        show (s.ctrl.count + 1) % 2 ^ 24 < q.depth
        omega
      | true =>
        have ⟨htaken, hlt, hp, hgot⟩ := hat
        refine ⟨htaken, ?_, hp, hold _ _ hgot⟩
        show s.popped.length + 1 < (s.pushed ++ [e]).length
        omega
    | pushCopy => exact (hout trivial).elim
    | pushEnd => exact (hout trivial).elim
    | clearStore => exact (hout trivial).elim
    | _ => exact hat
  · intro j x hj hx hlast
    rcases hlast with hlt | hzero
    · have hlt : j + 1 < (s.pushed ++ [e]).length := hlt
      rw [getElem?_append_left (by omega)] at hx
      exact h.kept j x hj hx (.inr hpush)
    · cases hzero

theorem Queue.Small.offset (hq : q.Small) {p : Nat} (hp : p < q.depth) : offset q p = p * q.size := by
  have hbuffer := hq.buffer
  apply mod_eq_of_lt
  by_cases hsize : q.size = 0
  · rw [hsize]
    omega
  · have hlt : p * q.size < q.depth * q.size := Nat.mul_lt_mul_of_pos_right hp (by omega)
    omega

omit [DecidableEq τ] in
theorem element_write_ne (hq : q.Small) {p p' : Nat} (hp : p < q.depth) (hp' : p' < q.depth)
    (hne : p ≠ p') (he : e.length = q.size) {f : τ → Pc} :
    element q { s with loc := f, mem := write s.mem (offset q p) e } p' =
      s.element q p' := by
  apply read_write_disjoint
  rw [hq.offset hp, hq.offset hp', he]
  rcases lt_or_gt_of_ne hne with hlt | hlt
  · left
    calc p * q.size + q.size = (p + 1) * q.size := by rw [succ_mul]
      _ ≤ p' * q.size := mul_le_mul_right _ hlt
  · right
    calc p' * q.size + q.size = (p' + 1) * q.size := by rw [succ_mul]
      _ ≤ p * q.size := mul_le_mul_right _ hlt

theorem inv_pushCopy (hq : q.Small) (h : Inv q s) {p : Nat} (hloc : s.loc t = .pushCopy p e) :
    Inv q { s.goto t (.pushEnd p) with mem := write s.mem (offset q p) e } := by
  have hat := h.at_ t
  rw [hloc] at hat
  have ⟨hp, htaken, hlast, he⟩ := hat
  have hpos := hq.pos
  have hheld := h.held
  have hflag := h.push.locked t (by rw [hloc]; trivial)
  have hin : (s.loc t).inPush := by
    rw [hloc]
    trivial
  -- the elements in front are in other slots
  have hother : ∀ j, s.popped.length ≤ j → j + 1 < s.pushed.length → element q { s.goto t (.pushEnd p) with
        mem := write s.mem (offset q p) e } (j % q.depth) = s.element q (j % q.depth) := by
    intro j hj hlt
    have hne : j % q.depth ≠ (s.pushed.length - 1) % q.depth := Ring.mod_ne (by omega) (by omega)
    exact element_write_ne hq (hp ▸ mod_lt _ hpos) (mod_lt _ hpos) (by rw [hp]; exact hne.symm) he
  refine ⟨h.pushLe, h.popLe, h.push.move (fun _ => hin) id, h.pop.move False.elim id, h.next, h.count, h.room,
    h.popped, ?_, ?_, ?_⟩
  · exact fun hout => h.settled (free_of_update (by rw [hloc]; exact id) hout)
  · apply at_update
    · refine ⟨hp, htaken, ?_⟩
      show s.pushed[s.pushed.length - 1]? = some (read _ (offset q p) q.size)
      rw [hlast, ← he, read_write]
    intro u hu
    have hat := h.at_ u
    have hout := fun hin' => hu (h.push.unique u t hin' hin)
    generalize s.loc u = p' at hat hout
    cases p' with
    | pushEnd => exact (hout trivial).elim
    | popEnd peek => cases peek <;> exact hat
    | _ => exact hat
  · intro j x hj hx hlt
    have hlt : j + 1 < s.pushed.length := by
      rcases hlt with hlt | hzero
      · exact hlt
      · have hzero : s.ctrl.push = 0 := hzero
        omega
    rw [hother j hj hlt]
    exact h.kept j x hj hx (.inl hlt)

theorem inv_pushEnd (h : Inv q s) {p : Nat} (hloc : s.loc t = .pushEnd p) :
    Inv q { s.goto t (.idle none) with ctrl := s.ctrl.pushEnd } := by
  have hat := h.at_ t
  rw [hloc] at hat
  have ⟨hp, htaken, hlast⟩ := hat
  have hin : (s.loc t).inPush := by
    rw [hloc]
    trivial
  refine ⟨zero_le _, h.popLe, of_free (h.push.leave hin id), h.pop.move False.elim id, h.next, h.count,
    h.room, h.popped, ?_, ?_, ?_⟩
  · exact fun hout => h.settled (free_of_update (by rw [hloc]; exact id) hout)
  · apply at_update
    · trivial
    intro u hu
    have hat := h.at_ u
    generalize s.loc u = p' at hat
    cases p' with
    | popCopy =>
      have ⟨htaken', hlt, hp', hfree⟩ := hat
      refine ⟨htaken', ?_, hp', hfree⟩
      show s.popped.length + 0 < s.pushed.length
      omega
    | popEnd peek =>
      cases peek with
      | false => exact hat
      | true =>
        have ⟨htaken', hlt, hp', hgot⟩ := hat
        refine ⟨htaken', ?_, hp', hgot⟩
        show s.popped.length + 0 < s.pushed.length
        omega
    | _ => exact hat
  · intro j x hj hx _
    have hx : s.pushed[j]? = some x := hx
    by_cases hlt : j + 1 < s.pushed.length
    · exact h.kept j x hj hx (.inl hlt)
    -- the element that was just pushed
    have hj' : j = s.pushed.length - 1 := by
      have hlt' := (List.getElem?_eq_some_iff.mp hx).1
      omega
    rw [hj', hlast] at hx
    rw [hj', ← hp]
    exact some.inj hx

/-! ## Pops -/

omit [DecidableEq τ] in
theorem Inv.front (hq : q.Small) (h : Inv q s) : s.ctrl.front q.depth % q.depth = s.taken % q.depth := by
  have hdepth := hq.depth
  have hcount := h.count
  have hroom := h.room
  have hnext := h.next
  have hlt := mod_lt s.pushed.length hq.pos
  have hfront : s.ctrl.front q.depth = s.pushed.length % q.depth + q.depth - s.ctrl.count := by
    unfold Ctrl.front
    omega
  rw [hfront, Ring.back_mod (by omega) (by omega)]
  congr 1
  omega

theorem inv_popBegin (hq : q.Small) (h : Inv q s) (hpop : s.ctrl.pop = 0) (hcount : s.ctrl.push < s.ctrl.count) :
    Inv q { s.goto t (.popCopy false (s.ctrl.front q.depth)) with
          ctrl := { s.ctrl with pop := 1, count := s.ctrl.count - 1 }
          taken := s.taken + 1 } := by
  have hnot : ¬ s.ctrl.pop = 1 := by omega
  have htaken := h.settled (h.pop.free hnot)
  have hsum := h.count
  have hroom := h.room
  refine ⟨h.pushLe, le_refl _, h.push.move False.elim id, h.pop.enter hnot rfl, h.next, ?_, ?_, h.popped, ?_,
    ?_, h.kept⟩
  · show s.ctrl.count - 1 + (s.taken + 1) = s.pushed.length
    omega
  · show s.ctrl.count - 1 ≤ q.depth
    omega
  · intro hout
    have ht := hout t
    simp only [goto, update_self] at ht
    exact (ht trivial).elim
  apply at_update
  · refine ⟨?_, ?_, ?_, fun _ => ?_⟩
    · show s.taken + 1 = s.popped.length + 1
      omega
    · show s.popped.length + s.ctrl.push < s.pushed.length
      omega
    · show s.ctrl.front q.depth % q.depth = s.popped.length % q.depth
      rw [h.front hq, htaken]
    · show s.ctrl.count - 1 < q.depth
      omega
  -- the element that is being pushed is not the one that is taken
  intro u hu
  have hat := h.at_ u
  have hout := h.pop.free hnot u
  have hpush := h.push.locked u
  generalize s.loc u = p at hat hout hpush
  cases p with
  | pushCopy =>
    have ⟨hp, hlt, hlast, he⟩ := hat
    have hpush := hpush trivial
    refine ⟨hp, ?_, hlast, he⟩
    show s.taken + 1 < s.pushed.length
    omega
  | pushEnd =>
    have ⟨hp, hlt, hlast⟩ := hat
    have hpush := hpush trivial
    refine ⟨hp, ?_, hlast⟩
    show s.taken + 1 < s.pushed.length
    omega
  | popCopy peek p | popEnd peek p got | clear2 | clearStore => exact (hout trivial).elim
  | _ => exact hat

/-- What the threads know has nothing to do with the `_pop` flag. -/
theorem Local.pop {p p' : Pc} {n : Nat} (h : Local q s p) :
    Local q { s.goto t p' with ctrl := { s.ctrl with pop := n } } p := by
  cases p with
  | popEnd peek => cases peek <;> exact h
  | _ => exact h

theorem inv_takePop (h : Inv q s) (hpop : s.ctrl.pop = 0) (hpush : ¬ p.inPush) (hin : p.inPop)
    (hself : Local q s p) : Inv q { s.goto t p with ctrl := { s.ctrl with pop := 1 } } := by
  have hnot : ¬ s.ctrl.pop = 1 := by omega
  refine ⟨h.pushLe, le_refl _, h.push.move (fun hp => (hpush hp).elim) id, h.pop.enter hnot rfl, h.next, h.count,
    h.room, h.popped, ?_, ?_, h.kept⟩
  · intro hout
    have ht := hout t
    simp only [goto, update_self] at ht
    exact (ht hin).elim
  · exact at_update hself.pop fun u _ => (h.at_ u).pop

theorem inv_peekBegin (hq : q.Small) (h : Inv q s) (hpop : s.ctrl.pop = 0) (hcount : s.ctrl.push < s.ctrl.count) :
    Inv q { s.goto t (.popCopy true (s.ctrl.front q.depth)) with ctrl := { s.ctrl with pop := 1 } } := by
  have htaken := h.settled (h.pop.free (by omega))
  have hsum := h.count
  refine inv_takePop h hpop id trivial ⟨htaken, by omega, ?_, nofun⟩
  rw [h.front hq, htaken]

theorem inv_popCopy (h : Inv q s) {peek : Bool} {p : Nat} (hloc : s.loc t = .popCopy peek p) :
    Inv q { s.goto t (.popEnd peek p (s.element q (p % q.depth))) with
          popped := if peek then s.popped else s.popped ++ [s.element q (p % q.depth)] } := by
  have hat := h.at_ t
  rw [hloc] at hat
  have ⟨htaken, hlt, hp, hfree⟩ := hat
  have hin : (s.loc t).inPop := by
    rw [hloc]
    trivial
  -- the element at the position is complete
  have ⟨e, he⟩ : ∃ e, s.pushed[s.popped.length]? = some e := ⟨_, getElem?_eq_getElem (by omega)⟩
  have hgot : s.element q (p % q.depth) = e := by
    rw [hp]
    exact h.kept _ e (le_refl _) he (by omega)
  have hout : ∀ u, u ≠ t → ¬ (s.loc u).inPop := fun u hu hin' => hu (h.pop.unique u t hin' hin)
  cases peek with
  | true =>
    refine ⟨h.pushLe, h.popLe, h.push.move False.elim id, h.pop.move (fun _ => hin) id, h.next, h.count, h.room,
      h.popped, ?_, ?_, h.kept⟩
    · exact fun _ => htaken
    apply at_update
    · refine ⟨htaken, hlt, hp, ?_⟩
      rw [hgot]
      exact he
    intro u hu
    have hat := h.at_ u
    have hout := hout u hu
    generalize s.loc u = p' at hat hout
    cases p' with
    | popEnd => exact (hout trivial).elim
    | _ => exact hat
  | false =>
    have hlen : (s.popped ++ [s.element q (p % q.depth)]).length = s.popped.length + 1 := by simp
    refine ⟨h.pushLe, h.popLe, h.push.move False.elim id, h.pop.move (fun _ => hin) id, h.next, h.count, h.room,
      ?_, ?_, ?_, ?_⟩
    · show s.popped ++ [s.element q (p % q.depth)] <+: s.pushed
      rw [hgot]
      have ⟨rest, hrest⟩ := h.popped
      rw [← hrest, getElem?_append_right (Nat.le_refl _), Nat.sub_self] at he
      cases rest with
      | nil => cases he
      | cons x rest =>
        cases he
        exact ⟨rest, by rw [← hrest, append_assoc]; rfl⟩
    · intro _
      show s.taken = (s.popped ++ [s.element q (p % q.depth)]).length
      rw [hlen]
      exact htaken
    · apply at_update
      · refine ⟨?_, ?_, ?_, hfree rfl⟩
        · show s.taken = (s.popped ++ [s.element q (p % q.depth)]).length
          rw [hlen]
          exact htaken
        · show 0 < (s.popped ++ [s.element q (p % q.depth)]).length
          omega
        · show p % q.depth = ((s.popped ++ [s.element q (p % q.depth)]).length - 1) % q.depth
          rw [hlen, Nat.add_sub_cancel]
          exact hp
      · intro u hu
        have hat := h.at_ u
        have hout := hout u hu
        generalize s.loc u = p' at hat hout
        cases p' with
        | popCopy peek p | popEnd peek p got | clear2 | clearStore => exact (hout trivial).elim
        | _ => exact hat
    · intro j x hj hx hlast
      have hj : (s.popped ++ [s.element q (p % q.depth)]).length ≤ j := hj
      exact h.kept j x (by omega) hx hlast

theorem inv_popEnd (h : Inv q s) {peek : Bool} {p : Nat} {got : List UInt8}
    (hloc : s.loc t = .popEnd peek p got) : Inv q { s.goto t (.idle none) with ctrl := s.ctrl.popEnd } := by
  have hat := h.at_ t
  rw [hloc] at hat
  have hin : (s.loc t).inPop := by
    rw [hloc]
    trivial
  refine ⟨h.pushLe, zero_le _, h.push.move False.elim id, of_free (h.pop.leave hin id), h.next, h.count,
    h.room, h.popped, ?_, ?_, h.kept⟩
  · intro _
    cases peek with
    | false => exact hat.1
    | true => exact hat.1
  · exact at_update trivial fun u _ => (h.at_ u).pop

/-! ## Clearing -/

theorem inv_clear1 (h : Inv q s) (hpop : s.ctrl.pop = 0) :
    Inv q { s.goto t .clear2 with ctrl := { s.ctrl with pop := 1 } } :=
  inv_takePop h hpop id trivial (h.settled (h.pop.free (by omega)))

theorem inv_clear2 (h : Inv q s) (hloc : s.loc t = .clear2) (hpush : s.ctrl.push = 0) :
    Inv q { s.goto t .clearStore with ctrl := { s.ctrl with push := 1 } } := by
  have hnot : ¬ s.ctrl.push = 1 := by omega
  have hat := h.at_ t
  rw [hloc] at hat
  have hin : (s.loc t).inPop := by
    rw [hloc]
    trivial
  refine ⟨le_refl _, h.popLe, h.push.enter hnot rfl, h.pop.move (fun _ => hin) id, h.next, h.count, h.room,
    h.popped, fun _ => hat, ?_, ?_⟩
  · apply at_update
    · exact hat
    intro u hu
    have hat := h.at_ u
    have hout := fun hin' => hu (h.pop.unique u t hin' hin)
    generalize s.loc u = p at hat hout
    cases p with
    | popCopy => exact (hout trivial).elim
    | popEnd => exact (hout trivial).elim
    | _ => exact hat
  · intro j x hj hx _
    exact h.kept j x hj hx (.inr hpush)

theorem inv_clearStore (h : Inv q s) (hloc : s.loc t = .clearStore) :
    Inv q { s.goto t (.idle none) with ctrl := {}, pushed := [], popped := [], taken := 0 } := by
  have hpush : (s.loc t).inPush := by
    rw [hloc]
    trivial
  have hpop : (s.loc t).inPop := by
    rw [hloc]
    trivial
  refine ⟨zero_le _, zero_le _, of_free (h.push.leave hpush id), of_free (h.pop.leave hpop id),
    ?_, rfl, zero_le _, prefix_refl _, fun _ => rfl, ?_, ?_⟩
  · exact (zero_mod _).symm
  · apply at_update
    · trivial
    intro u hu
    have hat := h.at_ u
    have hpush' := fun hin => hu (h.push.unique u t hin hpush)
    have hpop' := fun hin => hu (h.pop.unique u t hin hpop)
    generalize s.loc u = p at hat hpush' hpop'
    cases p with
    | idle => trivial
    | failed => exact hat
    | begin => exact hat
    | pushCopy => exact (hpush' trivial).elim
    | pushEnd => exact (hpush' trivial).elim
    | popCopy peek p | popEnd peek p got | clear2 | clearStore => exact (hpop' trivial).elim
  · intro j x _ hx
    simp at hx

/-! ## Runs -/

omit [DecidableEq τ] in
theorem Inv.checkDepth (hq : q.Small) (h : Inv q s) : s.ctrl.checkDepth q.depth = true := by
  have hlt := mod_lt s.pushed.length hq.pos
  have hnext : ¬ s.ctrl.next > q.depth := by
    rw [h.next]
    omega
  have hcount := not_lt.mpr h.room
  simp [Ctrl.checkDepth, hnext, hcount]

theorem inv_effect (hq : q.Small) (h : Inv q s) (he : Effect q s s') : Inv q s' := by
  cases he with
  | stay => exact h
  | move t p hold hp => exact inv_move h hold hp
  | fail t hdepth =>
    rw [h.checkDepth hq] at hdepth
    cases hdepth
  | pushBegin t b e hloc hpush hroom => exact inv_pushBegin hq h hloc hpush hroom
  | pushCopy t p e hloc => exact inv_pushCopy hq h hloc
  | pushEnd t p hloc => exact inv_pushEnd h hloc
  | popBegin t b hloc hpop hcount => exact inv_popBegin hq h hpop hcount
  | peekBegin t b hloc hpop hcount => exact inv_peekBegin hq h hpop hcount
  | popCopy t peek p hloc => exact inv_popCopy h hloc
  | popEnd t peek p got hloc => exact inv_popEnd h hloc
  | clear1 t hloc hpop => exact inv_clear1 h hpop
  | clear2 t hloc hpush => exact inv_clear2 h hloc hpush
  | clearStore t hloc => exact inv_clearStore h hloc

theorem inv_init (h : (system q).init s) : Inv q s := by
  have ⟨mem, hs⟩ := h
  subst hs
  refine ⟨zero_le _, zero_le _, of_free fun _ => id, of_free fun _ => id, ?_, rfl,
    zero_le _, prefix_refl _, fun _ => rfl, fun _ => trivial, ?_⟩
  · exact (zero_mod _).symm
  · intro j x _ hx
    simp at hx

theorem Inv.of_reachable (hq : q.Small) (hs : (system q).Reachable s) : Inv q s :=
  hs.invariant (P := Inv q) (fun _ h => inv_init h) fun _ _ _ h hstep => inv_effect hq h (effect_step hstep)

def Pc.pushSlot : Pc → Option Nat
  | .pushCopy p _ => some p
  | .pushEnd p => some p
  | _ => none

def Pc.popSlot (depth : Nat) : Pc → Option Nat
  | .popCopy _ p => some (p % depth)
  | .popEnd _ p _ => some (p % depth)
  | _ => none

/-- The elements popped since the last clear are the first ones that were pushed, the others are in their slots once
they are complete, at most `depth` of them, and no slot is copied to and from at the same time. -/
structure Good (q : Queue) (s : State τ) : Prop where
  fifo : s.popped <+: s.pushed
  counted : s.ctrl.count + s.taken = s.pushed.length
  kept : ∀ j e, s.popped.length ≤ j → s.pushed[j]? = some e →
    j + 1 < s.pushed.length ∨ s.ctrl.push = 0 → s.element q (j % q.depth) = e
  held : s.pushed.length - s.popped.length ≤ q.depth
  apart : ∀ t u p p', (s.loc t).pushSlot = some p → (s.loc u).popSlot q.depth = some p' → p ≠ p'
  noThrow : ∀ t, s.loc t ≠ .failed

omit [DecidableEq τ] in
theorem Inv.apart (h : Inv q s) {u : τ} {p p' : Nat} (ht : (s.loc t).pushSlot = some p)
    (hu : (s.loc u).popSlot q.depth = some p') : p ≠ p' := by
  have hcount := h.count
  have hroom := h.room
  -- the push is behind every element that can be popped, and its slot is the last one
  have hpush : p = (s.pushed.length - 1) % q.depth ∧ s.taken < s.pushed.length ∧ s.ctrl.push = 1 := by
    have hat := h.at_ t
    have hlock := h.push.locked t
    generalize s.loc t = pt at ht hat hlock
    cases pt with
    | pushCopy | pushEnd =>
      cases ht
      exact ⟨hat.1, hat.2.1, hlock trivial⟩
    | _ => cases ht
  have ⟨hp, htaken, hflag⟩ := hpush
  have hat := h.at_ u
  rw [hp]
  generalize s.loc u = pu at hu hat
  cases pu with
  | popCopy peek =>
    cases hu
    have ⟨htaken', hlt, hp', hfree⟩ := hat
    rw [hp']
    cases peek with
    | false =>
      have hfree := hfree rfl
      simp only [Bool.false_eq_true, if_false] at htaken'
      exact (Ring.mod_ne (by omega) (by omega)).symm
    | true =>
      simp only [if_true] at htaken'
      exact (Ring.mod_ne (by omega) (by omega)).symm
  | popEnd peek =>
    cases hu
    cases peek with
    | false =>
      have ⟨htaken', hk, hp', hfree⟩ := hat
      rw [hp']
      exact (Ring.mod_ne (by omega) (by omega)).symm
    | true =>
      have ⟨htaken', hlt, hp', _⟩ := hat
      rw [hp']
      exact (Ring.mod_ne (by omega) (by omega)).symm
  | _ => cases hu

omit [DecidableEq τ] in
theorem Inv.good (h : Inv q s) : Good q s where
  fifo := h.popped
  counted := h.count
  kept := h.kept
  held := by
    have hheld := h.held
    omega
  apart := fun _ _ _ _ ht hu => h.apart ht hu
  noThrow := by
    intro t ht
    have hat := h.at_ t
    rw [ht] at hat
    exact hat

/-! ## Depths that do not fit -/

/-- A state between two calls, in which `n` elements were pushed and none was popped. -/
def Filled (n : Nat) (s : State τ) : Prop :=
  s.pushed.length = n ∧ s.popped = [] ∧ s.ctrl.push = 0 ∧ s.ctrl.pop = 0 ∧ s.ctrl.next < 2 ^ 24 ∧
  s.ctrl.count < 2 ^ 24 ∧ ∀ t, s.loc t = .idle none

theorem filled_push (hdepth : 2 ^ 24 ≤ q.depth) {n : Nat} (h : Filled n s) (t : τ) :
    ∃ es s', (system q).run s es = some s' ∧ Filled (n + 1) s' := by
  have ⟨hlen, hpopped, hpush, hpop, hnext, hcount, hloc⟩ := h
  let e : List UInt8 := replicate q.size 0
  have hfits : Call.Fits q (.push false e) := length_replicate
  have hcheck : s.ctrl.checkDepth q.depth = true := by
    have hnext' : ¬ s.ctrl.next > q.depth := by omega
    have hcount' : ¬ s.ctrl.count > q.depth := by omega
    simp [Ctrl.checkDepth, hnext', hcount']
  have hroom : ¬ (s.ctrl.push ≠ 0 ∨ s.ctrl.count + s.ctrl.pop ≥ q.depth) := by omega
  let s1 := s.goto t (.begin (.push false e))
  have h1 : step q s (.call t (.push false e) false) = some s1 := by
    simp only [step, hloc t, if_pos hfits, State.call, hcheck, Bool.false_eq_true, false_and, if_false, if_true]
    rfl
  have hloc1 : s1.loc t = .begin (.push false e) := update_self ..
  let s2 := { s1.goto t (.pushCopy s.ctrl.next e) with
    ctrl := { s.ctrl with
      next := (if s.ctrl.next + 1 ≠ q.depth then s.ctrl.next + 1 else 0) % 2 ^ 24
      count := (s.ctrl.count + 1) % 2 ^ 24
      push := 1 }
    pushed := s.pushed ++ [e] }
  have h2 : step q s1 (.step t) = some s2 := by
    have hbegin : s1.ctrl.tryPushBegin q.depth = some (s2.ctrl, s.ctrl.next) := if_neg hroom
    simp only [step, exec, hloc1, State.begin, hbegin]
    rfl
  have hloc2 : s2.loc t = .pushCopy s.ctrl.next e := update_self ..
  let s3 := { s2.goto t (.pushEnd s.ctrl.next) with
    mem := write s.mem (offset q s.ctrl.next) e }
  have h3 : step q s2 (.step t) = some s3 := by
    simp only [step, exec, hloc2]
    rfl
  have hloc3 : s3.loc t = .pushEnd s.ctrl.next := update_self ..
  let s4 := { s3.goto t (.idle none) with ctrl := s2.ctrl.pushEnd }
  have h4 : step q s3 (.step t) = some s4 := by
    simp only [step, exec, hloc3]
    rfl
  refine ⟨[.call t (.push false e) false, .step t, .step t, .step t], s4, ?_, ?_⟩
  · simp only [Transition.System.run, system, h1, h2, h3, h4, bind_some]
  refine ⟨?_, hpopped, rfl, hpop, mod_lt _ (by decide), mod_lt _ (by decide), ?_⟩
  · show (s.pushed ++ [e]).length = n + 1
    simp [hlen]
  intro u
  by_cases hu : u = t
  · rw [hu]
    exact update_self ..
  · show update (update (update (update s.loc t _) t _) t _) t _ u = _
    rw [update_of_ne hu, update_of_ne hu, update_of_ne hu, update_of_ne hu]
    exact hloc u

theorem exists_filled (hdepth : 2 ^ 24 ≤ q.depth) (t : τ) (n : Nat) :
    ∃ s : State τ, (system q).Reachable s ∧ Filled n s := by
  induction n with
  | zero =>
    have hinit : (system q).init ({ mem := fun _ => 0 } : State τ) := ⟨_, rfl⟩
    exact ⟨_, .of_init hinit, rfl, rfl, rfl, rfl, Nat.two_pow_pos 24, Nat.two_pow_pos 24, fun _ => rfl⟩
  | succ n ih =>
    have ⟨s, hs, hfilled⟩ := ih
    have ⟨es, s', hrun, hfilled'⟩ := filled_push hdepth hfilled t
    exact ⟨s', hs.run hrun, hfilled'⟩

theorem depth_of_initialize {queue buffer size depth : BitVec 32}
    (h : cellSyncQueueInitialize queue buffer size depth = .ok q) :
    q.depth = depth.toNat ∧ 0 < q.depth ∧ q.size = size.toNat := by
  unfold cellSyncQueueInitialize at h
  split at h
  · cases h
  split at h
  · cases h
  split at h
  · cases h
  split at h
  · cases h
  rename_i hdepth
  cases h
  refine ⟨rfl, ?_, rfl⟩
  have hne := fun h0 => hdepth (.inl h0)
  show 0 < depth.toNat
  have hne' : depth.toNat ≠ 0 := fun h0 => hne (BitVec.eq_of_toNat_eq h0)
  omega

/-- In every interleaving of calls the queue does what it promises, if and only if the depth has at most 24 bits. -/
theorem queue_good_iff [Inhabited τ] {queue buffer size depth : BitVec 32}
    (h : cellSyncQueueInitialize queue buffer size depth = .ok q)
    (hbuffer : buffer.toNat + depth.toNat * size.toNat ≤ 2 ^ 32) :
    (∀ s : State τ, (system q).Reachable s → Good q s) ↔ depth.toNat < 2 ^ 24 := by
  have ⟨hdepth, hpos, hsize⟩ := depth_of_initialize h
  constructor
  · intro hgood
    -- one element more than the depth is pushed
    rw [← not_le]
    intro hlarge
    have ⟨s, hs, hfilled⟩ := exists_filled (hdepth ▸ hlarge) (default : τ) (q.depth + 1)
    have hheld := (hgood s hs).held
    have hlen := hfilled.1
    have hpopped := hfilled.2.1
    rw [hpopped, length_nil] at hheld
    omega
  · intro hlt s hs
    have hq : q.Small := ⟨hpos, by omega, by rw [hdepth, hsize]; omega⟩
    exact (Inv.of_reachable hq hs).good

/-- A queue of 16 elements with 64 bytes. -/
theorem queue_good_iff_sixteen : cellSyncQueueInitialize 0x20000000 0x20001000 64 16 = .ok ⟨64, 16⟩ ∧
    ((∀ s : State Nat, (system ⟨64, 16⟩).Reachable s → Good ⟨64, 16⟩ s) ↔ (16 : BitVec 32).toNat < 2 ^ 24) := by
  have h : cellSyncQueueInitialize 0x20000000 0x20001000 64 16 = .ok ⟨64, 16⟩ := by rfl
  exact ⟨h, queue_good_iff h (by decide)⟩

/-- A depth of `2 ^ 24` is accepted, and then one element more than that can be pushed. -/
theorem queue_overfull : cellSyncQueueInitialize 0x20000000 0x30000000 16 0x1000000 = .ok ⟨16, 2 ^ 24⟩ ∧
    ∃ s : State Nat, (system ⟨16, 2 ^ 24⟩).Reachable s ∧ 2 ^ 24 < s.pushed.length - s.popped.length := by
  refine ⟨by rfl, ?_⟩
  have ⟨s, hs, hlen, hpopped, _⟩ := exists_filled (q := ⟨16, 2 ^ 24⟩) (le_refl _) 0 (2 ^ 24 + 1)
  refine ⟨s, hs, ?_⟩
  rw [hlen, hpopped, length_nil]
  omega

end Armsx3.Cell.SyncQueue
