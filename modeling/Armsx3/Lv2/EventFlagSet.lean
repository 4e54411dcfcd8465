import Armsx3.Lv2.EventFlag

/-!
# What `sys_event_flag_set` wakes

A pass is made from a snapshot `p` of the pattern and committed to the value `x` the pattern has by
then.  Both evaluations have cleared the same bits at every waiter: the induction over the waiters
carries the mask `k` of these bits.
-/

namespace Armsx3.Lv2.EventFlag

open Bits List Function Option

/-! ## Evaluations -/

theorem evaluate_sub (args : Tid → Args) (x : BitVec 64) (ts : List Tid) : Sub (evaluate args x ts).1 x := by
  induction ts generalizing x with
  | nil => exact Sub.refl x
  | cons t ts ih =>
    rw [evaluate, checkPattern_eq]
    split
    next y hy =>
      split at hy
      · have hyx := (some.inj hy).symm
        exact (ih y).trans (hyx ▸ Sub.and_left x _)
      · cases hy
    · exact ih x

variable {t : Tid}

theorem evaluate_cons_of_satisfied {args : Tid → Args} {x : BitVec 64} (ts : List Tid) (h : (args t).satisfied x) :
    evaluate args x (t :: ts) = ((evaluate args (x &&& ~~~(args t).clearMask) ts).1,
      t :: (evaluate args (x &&& ~~~(args t).clearMask) ts).2) := by
  rw [evaluate, checkPattern_eq, if_pos h]

theorem evaluate_cons_of_not {args : Tid → Args} {x : BitVec 64} (ts : List Tid) (h : ¬ (args t).satisfied x) :
    evaluate args x (t :: ts) = evaluate args x ts := by
  rw [evaluate, checkPattern_eq, if_neg h]

theorem evaluate_mem (args : Tid → Args) (x : BitVec 64) (ts : List Tid)
    (ht : t ∈ (evaluate args x ts).2) : t ∈ ts := by
  induction ts generalizing x with
  | nil => cases ht
  | cons u ts ih =>
    rw [evaluate] at ht
    split at ht
    · rcases mem_cons.mp ht with ht | ht
      · rw [ht]; exact mem_cons_self
      · exact mem_cons_of_mem u (ih _ ht)
    · exact mem_cons_of_mem u (ih _ ht)

theorem evaluate_none (args : Tid → Args) (x : BitVec 64) (ts : List Tid)
    (h : ∀ t ∈ ts, ¬ (args t).satisfied x) : evaluate args x ts = (x, []) := by
  induction ts with
  | nil => rfl
  | cons t ts ih =>
    rw [evaluate_cons_of_not ts (h t mem_cons_self)]
    exact ih fun u hu => h u (mem_cons_of_mem t hu)

theorem evaluate_unsatisfied (args : Tid → Args) (x : BitVec 64) (ts : List Tid)
    (ht : t ∈ ts) (hnot : t ∉ (evaluate args x ts).2) : ¬ (args t).satisfied (evaluate args x ts).1 := by
  induction ts generalizing x with
  | nil => cases ht
  | cons u ts ih =>
    by_cases hu : (args u).satisfied x
    · rw [evaluate_cons_of_satisfied ts hu] at hnot ⊢
      simp only [mem_cons, not_or] at hnot
      exact ih _ ((mem_cons.mp ht).resolve_left hnot.1) hnot.2
    · rw [evaluate_cons_of_not ts hu] at hnot ⊢
      rcases mem_cons.mp ht with ht | ht
      · rw [ht]
        exact fun hs => hu (Args.satisfied_mono (evaluate_sub args x ts) hs)
      · exact ih x ht hnot

variable {ts : List Tid}

theorem examined_mem (args : Tid → Args) (x : BitVec 64) (ts : List Tid) (ht : t ∈ examined args x ts) : t ∈ ts := by
  induction ts generalizing x with
  | nil => cases ht
  | cons u ts ih =>
    rw [examined] at ht
    refine (mem_cons.mp ht).elim (· ▸ mem_cons_self) fun ht => mem_cons_of_mem u ?_
    split at ht
    · split at ht
      · cases ht
      · exact ih _ ht
    · exact ih _ ht

theorem examined_of_none (args : Tid → Args) (x : BitVec 64) (ts : List Tid) (h : (evaluate args x ts).2 = []) :
    examined args x ts = ts := by
  induction ts generalizing x with
  | nil => rfl
  | cons t ts ih =>
    rw [evaluate] at h
    rw [examined]
    split at h
    · cases h
    · rw [ih x h]

/-! ## One pass -/

/-- What a pass over `ts` leaves is what the waiters examined one by one from the same pattern give; `c` stands for the
bits that change until the commit. -/
structure Verdicts (args : Tid → Args) (b c : BitVec 64) (ts : List Tid) (q r : Pass) : Prop where
  toWrite : r.toWrite = (evaluate args q.toWrite ts).1
  count : r.count = q.count + (evaluate args q.toWrite ts).2.length
  satisfied : ∀ t ∈ (evaluate args q.toWrite ts).2, t ∈ examined args q.toWrite ts
  gpr3 : ∀ t, r.gpr3 t = some .ok ↔
    t ∈ (evaluate args q.toWrite ts).2 ∨ t ∉ examined args q.toWrite ts ∧ q.gpr3 t = some .ok
  mask : c &&& (r.dependantMask &&& ~~~b) = 0 ↔ c &&& (q.dependantMask &&& ~~~b) = 0 ∧
    ∀ t ∈ (evaluate args q.toWrite ts).2, (args t).mode.cond = .and → c &&& ((args t).bitptn &&& ~~~b) = 0

theorem accept_mask (b c d y : BitVec 64) (a : Args) : c &&& ((d ||| dependantMaskOr b y a) &&& ~~~b) = 0 ↔
    c &&& (d &&& ~~~b) = 0 ∧ (a.mode.cond = .and → c &&& (a.bitptn &&& ~~~b) = 0) := by
  have hor : ∀ u v : BitVec 64, u ||| v = 0 ↔ u = 0 ∧ v = 0 := by
    intro u v
    simp only [eq_zero_iff, BitVec.getLsbD_or, Bool.or_eq_false_iff, forall_and]
  rw [BitVec.and_or_distrib_right, BitVec.and_or_distrib_left, hor]
  refine and_congr_right' ?_
  unfold dependantMaskOr
  split
  next h =>
    refine iff_of_true (by simp) fun hand => ?_
    -- the new bits are enough for the waiter
    have hall := h.resolve_left (by rw [hand]; decide)
    have hsub : a.bitptn &&& ~~~b = 0 := by
      rw [← hall, eq_zero_iff]
      intro i
      simp only [BitVec.getLsbD_and, BitVec.getLsbD_not]
      cases b.getLsbD i <;> simp
    rw [hsub, BitVec.ofNat_eq_ofNat, BitVec.and_zero]
  next h =>
    have hand : a.mode.cond = .and := by
      cases hcond : a.mode.cond with
      | and => rfl
      | or => exact absurd (.inl hcond) h
    rw [forall_prop_of_true hand]

theorem Verdicts.accept {args : Tid → Args} {b c y : BitVec 64} {q q' r : Pass} (h : Verdicts args b c ts q' r)
    (ht : t ∉ ts) (hcheck : checkPattern q.toWrite (args t) = some y) (hy : y ≠ 0)
    (hq' : q' = q.accept t (dependantMaskOr b q.toWrite (args t)) y) : Verdicts args b c (t :: ts) q r := by
  have hwrite : q'.toWrite = y := by rw [hq']; rfl
  have hev : evaluate args q.toWrite (t :: ts) = ((evaluate args y ts).1, t :: (evaluate args y ts).2) := by
    rw [evaluate, hcheck]
  have hex : examined args q.toWrite (t :: ts) = t :: examined args y ts := by
    rw [examined, hcheck]
    simp only [if_neg hy]
  have hout : t ∉ examined args y ts := fun hin => ht (examined_mem args y ts hin)
  obtain ⟨hw, hc, hs, hg, hm⟩ := h
  rw [hwrite] at hw hc hs hg hm
  constructor <;> simp only [hev, hex]
  · exact hw
  · rw [hc, hq', length_cons]
    exact Nat.add_right_comm ..
  · exact fun u hu => (mem_cons.mp hu).elim (fun hut => hut ▸ mem_cons_self) fun hu => mem_cons_of_mem t (hs u hu)
  · intro u
    simp only [hg, hq', Pass.accept, update_apply, mem_cons]
    by_cases hut : u = t
    · simp [hut, hout]
    · simp [hut]
  · simp only [hm, hq', Pass.accept, accept_mask, mem_cons, forall_eq_or_imp, and_assoc]

theorem Verdicts.reject {args : Tid → Args} {b c : BitVec 64} {q r : Pass} (h : Verdicts args b c ts (q.reject t) r)
    (ht : t ∉ ts) (hcheck : checkPattern q.toWrite (args t) = none) : Verdicts args b c (t :: ts) q r := by
  have hev : evaluate args q.toWrite (t :: ts) = evaluate args q.toWrite ts := by rw [evaluate, hcheck]
  have hex : examined args q.toWrite (t :: ts) = t :: examined args q.toWrite ts := by rw [examined, hcheck]
  have hnot : t ∉ (evaluate args q.toWrite ts).2 := fun hin => ht (evaluate_mem args _ ts hin)
  obtain ⟨hw, hc, hs, hg, hm⟩ := h
  constructor <;> simp only [hev, hex]
  · exact hw
  · exact hc
  · exact fun u hu => mem_cons_of_mem t (hs u hu)
  · intro u
    rw [hg]
    simp only [Pass.reject, update_apply, mem_cons]
    by_cases hut : u = t
    · simp [hut, hnot]
    · simp [hut]
  · exact hm

theorem examine_verdicts {args : Tid → Args} {b c : BitVec 64} {q : Pass} (hnd : ts.Nodup)
    (hzero : ∀ t ∈ ts, ¬ (args t).satisfied 0) : Verdicts args b c ts q (examine args b ts q) := by
  induction ts generalizing q with
  | nil => constructor <;> simp [examine, evaluate, examined]
  | cons t ts ih =>
    obtain ⟨ht, hnd⟩ := nodup_cons.mp hnd
    have hzero' := fun u hu => hzero u (mem_cons_of_mem t hu)
    cases hcheck : checkPattern q.toWrite (args t) with
    | none =>
      rw [examine, hcheck]
      exact (ih hnd hzero').reject ht hcheck
    | some y =>
      rw [examine, hcheck]
      dsimp only
      split
      next hy =>
        -- the pass breaks off, and the evaluation finds nothing more
        have hnone := evaluate_none args 0 ts hzero'
        rw [hy] at hcheck ⊢
        constructor <;> simp only [evaluate, examined, hcheck, hnone, Pass.accept, if_true, mem_singleton, imp_self,
          implies_true, length_singleton, forall_eq, accept_mask]
        intro u
        rw [update_apply]
        by_cases hut : u = t <;> simp [hut]
      next hy => exact (ih hnd hzero').accept ht hcheck hy rfl

section Pass

variable {args : Tid → Args} {b p x : BitVec 64} {k : BitVec 64}

theorem satisfied_commit {a : Args} (hunsat : ¬ a.satisfied p) (hsat : a.satisfied ((p ||| b) &&& ~~~k))
    (hdep : a.mode.cond = .and → (x ^^^ p) &&& (a.bitptn &&& ~~~b) = 0) : a.satisfied ((x ||| b) &&& ~~~k) := by
  unfold Args.satisfied at *
  cases hcond : a.mode.cond with
  | or =>
    simp only [hcond, and_ne_zero_iff] at hsat hunsat ⊢
    have ⟨i, htp, hbit⟩ := hsat
    rw [getLsbD_masked] at htp
    refine ⟨i, ?_, hbit⟩
    rw [getLsbD_masked]
    exact ⟨.inr (htp.1.resolve_left fun hpi => hunsat ⟨i, hpi, hbit⟩), htp.2⟩
  | and =>
    simp only [hcond, and_eq_right_iff] at hsat ⊢
    intro i hbit
    have htp := hsat i hbit
    rw [getLsbD_masked] at htp ⊢
    refine ⟨?_, htp.2⟩
    cases hb : b.getLsbD i with
    | true => exact .inr rfl
    | false =>
      -- the bit comes from the snapshot, so the pass depends on it
      have hpi := htp.1.resolve_right (by rw [hb]; simp)
      refine .inl ?_
      have hi64 : i < 64 := by
        by_contra hge
        rw [BitVec.getLsbD_of_ge _ _ (Nat.le_of_not_lt hge)] at hbit
        cases hbit
      have hmask : (a.bitptn &&& ~~~b).getLsbD i = true := by
        rw [BitVec.getLsbD_and, BitVec.getLsbD_not, hbit, hb]
        simp [hi64]
      rw [agree_of_xor_and (hdep hcond) i hmask]
      exact hpi

theorem masked_clear (y b k m : BitVec 64) : (y ||| b) &&& ~~~k &&& ~~~m = (y ||| b) &&& ~~~(k ||| m) := by
  rw [BitVec.and_assoc, BitVec.not_or]

/-- Where no bit that it depends on has changed, the evaluation at the commit clears the same bits for the same
waiters. -/
theorem evaluate_commit (hsub : Sub x p) (hunsat : ∀ t ∈ ts, ¬ (args t).satisfied p)
    (hdep : ∀ t ∈ (evaluate args ((p ||| b) &&& ~~~k) ts).2, (args t).mode.cond = .and →
      (x ^^^ p) &&& ((args t).bitptn &&& ~~~b) = 0) :
    ∃ k', (evaluate args ((p ||| b) &&& ~~~k) ts).1 = (p ||| b) &&& ~~~k' ∧
      evaluate args ((x ||| b) &&& ~~~k) ts = ((x ||| b) &&& ~~~k', (evaluate args ((p ||| b) &&& ~~~k) ts).2) := by
  induction ts generalizing k with
  | nil => exact ⟨k, rfl, rfl⟩
  | cons t ts ih =>
    have hunsat' := fun u hu => hunsat u (mem_cons_of_mem t hu)
    by_cases hsat : (args t).satisfied ((p ||| b) &&& ~~~k)
    · rw [evaluate_cons_of_satisfied ts hsat] at hdep ⊢
      -- the bits this waiter depends on are still among those of the commit
      rw [evaluate_cons_of_satisfied ts (satisfied_commit (hunsat t mem_cons_self) hsat (hdep t mem_cons_self))]
      simp only [masked_clear] at hdep ⊢
      obtain ⟨k', hk, hev⟩ := ih hunsat' fun u hu => hdep u (mem_cons_of_mem t hu)
      exact ⟨k', hk, by rw [hev]⟩
    · have hsatx : ¬ (args t).satisfied ((x ||| b) &&& ~~~k) :=
        fun hs => hsat (Args.satisfied_mono (hsub.masked b k) hs)
      rw [evaluate_cons_of_not ts hsat] at hdep ⊢
      rw [evaluate_cons_of_not ts hsatx]
      exact ih hunsat' hdep

theorem commit_masked (hsub : Sub x p) :
    (x ||| b) &&& ~~~((p ||| b) &&& ~~~((p ||| b) &&& ~~~k)) = (x ||| b) &&& ~~~k := by
  apply BitVec.eq_of_getLsbD_eq
  intro i hi
  have himp := hsub i
  simp only [BitVec.getLsbD_and, BitVec.getLsbD_or, BitVec.getLsbD_not, hi, decide_true, Bool.true_and]
  revert himp
  cases x.getLsbD i <;> cases p.getLsbD i <;> cases b.getLsbD i <;> cases k.getLsbD i <;> simp

/-- The clears between the snapshot `p` and the commit at `x` take a bit that is not a new one from a waiter for all of
its bits that the snapshot satisfies. -/
def Disturbed (args : Tid → Args) (b p x : BitVec 64) (order : List Tid) : Prop :=
  ∃ t ∈ (evaluate args (p ||| b) order).2, (args t).mode.cond = .and ∧ (x ^^^ p) &&& ((args t).bitptn &&& ~~~b) ≠ 0

instance (args : Tid → Args) (b p x : BitVec 64) (order : List Tid) : Decidable (Disturbed args b p x order) :=
  inferInstanceAs (Decidable (∃ t ∈ _, _))

theorem pass_verdicts {order : List Tid} (c : BitVec 64) (gpr3 : Tid → Option CellError) (gpr6 : Tid → BitVec 64)
    (hnd : order.Nodup) (hunsat : ∀ t ∈ order, ¬ (args t).satisfied p) :
    Verdicts args b c order ⟨p ||| b, 0, 0, gpr3, gpr6⟩ (examine args b order ⟨p ||| b, 0, 0, gpr3, gpr6⟩) :=
  examine_verdicts hnd fun t ht hs => hunsat t ht (Args.satisfied_mono (Sub.zero p) hs)

theorem pass_spec {order : List Tid} (gpr3 : Tid → Option CellError) (gpr6 : Tid → BitVec 64) (hnd : order.Nodup)
    (hsub : Sub x p) (hunsat : ∀ t ∈ order, ¬ (args t).satisfied p) :
    Disturbed args b p x order ∧ commit b p (pass args b order p gpr3 gpr6) x = none ∨
      ¬Disturbed args b p x order ∧ (evaluate args (x ||| b) order).2 = (evaluate args (p ||| b) order).2 ∧
        commit b p (pass args b order p gpr3 gpr6) x = some (evaluate args (x ||| b) order).1 := by
  have h := pass_verdicts (b := b) (x ^^^ p) gpr3 gpr6 hnd hunsat
  have hmask : (x ^^^ p) &&& (pass args b order p gpr3 gpr6).dependantMask = 0 ↔ ¬Disturbed args b p x order := by
    rw [pass, h.mask]
    simp [Disturbed]
  by_cases hdist : Disturbed args b p x order
  · refine .inl ⟨hdist, ?_⟩
    rw [commit, if_pos fun hz => hmask.mp hz hdist]
  · refine .inr ⟨hdist, ?_⟩
    have hzero : ∀ y : BitVec 64, (y ||| b) &&& ~~~0 = y ||| b := by
      intro y
      have hnot : ~~~(0 : BitVec 64) = BitVec.allOnes 64 := by decide
      rw [hnot, BitVec.and_allOnes]
    obtain ⟨k, hk, hev⟩ := evaluate_commit (b := b) (k := 0) hsub hunsat fun t ht hand => by
      rw [hzero] at ht
      by_contra hne
      exact hdist ⟨t, ht, hand, hne⟩
    rw [hzero] at hk hev
    rw [hzero] at hev
    have hwrite : (pass args b order p gpr3 gpr6).toWrite = (p ||| b) &&& ~~~k := h.toWrite.trans hk
    rw [hev, commit, if_neg (not_not.mpr (hmask.mpr hdist)), hwrite, commit_masked hsub]
    exact ⟨rfl, rfl⟩

end Pass

/-! ## The whole call -/

/-- A flag when its mutex is free: nobody waits for what is already there, and no waiter has a
verdict yet. -/
structure Flag where
  protocol : Protocol
  prio : Tid → Prio
  pattern : BitVec 64
  sq : List Tid
  args : Tid → Args
  gpr3 : Tid → Option CellError
  nodup : sq.Nodup
  unsatisfied : ∀ t ∈ sq, ¬ (args t).satisfied pattern
  pending : ∀ t ∈ sq, gpr3 t = none

/-- What a call of `sys_event_flag_set` did: the pattern at the successful commit and after it, and the threads woken. -/
structure Outcome where
  x : BitVec 64
  pattern : BitVec 64
  woken : List Tid

def clearAll (x : BitVec 64) (masks : List (BitVec 64)) : BitVec 64 := masks.foldl (· &&& ·) x

/-- The outer loop, with the clears that come in before the commit of each round.  When the list is
used up nothing comes in any more and the commit succeeds. -/
def setLoop (f : Flag) (bitptn : BitVec 64) :
    List (List (BitVec 64)) → BitVec 64 → (Tid → Option CellError) → (Tid → BitVec 64) → Outcome
  | [], pattern, gpr3, gpr6 =>
    let p := pass f.args bitptn (getNextOrder f.protocol f.prio f.sq) pattern gpr3 gpr6
    ⟨pattern, (commit bitptn pattern p pattern).getD pattern, toWake f.sq p⟩
  | clears :: rest, pattern, gpr3, gpr6 =>
    let p := pass f.args bitptn (getNextOrder f.protocol f.prio f.sq) pattern gpr3 gpr6
    let x := clearAll pattern clears
    match commit bitptn pattern p x with
    | some x' => ⟨x, x', toWake f.sq p⟩
    | none => setLoop f bitptn rest x p.gpr3 p.gpr6

/-- `sys_event_flag_set`, called on a flag; `before` are the clears between its first look at the
pattern and the snapshot. -/
def set (f : Flag) (gpr6 : Tid → BitVec 64) (bitptn : BitVec 64) (before : List (BitVec 64))
    (clears : List (List (BitVec 64))) : Outcome :=
  if f.pattern &&& bitptn = bitptn then
    ⟨f.pattern, f.pattern, []⟩
  else setLoop f bitptn clears (clearAll f.pattern before) f.gpr3 gpr6

theorem clearAll_sub (x : BitVec 64) (masks : List (BitVec 64)) : Sub (clearAll x masks) x := by
  induction masks generalizing x with
  | nil => exact Sub.refl x
  | cons m masks ih => exact (ih (x &&& m)).trans (Sub.and_left x m)

/-- Round by round: the last one breaks off before a waiter that an abandoned one satisfied, and that no round has come
to since; `stale` are the waiters of this kind so far. -/
def LeftStale (f : Flag) (b : BitVec 64) : List (List (BitVec 64)) → BitVec 64 → (Tid → Prop) → Prop
  | [], p, stale => ∃ t ∈ f.sq, stale t ∧ t ∉ examined f.args (p ||| b) (protocolOrder f.protocol f.prio f.sq)
  | masks :: clears, p, stale =>
    let order := protocolOrder f.protocol f.prio f.sq
    if Disturbed f.args b p (clearAll p masks) order then
      LeftStale f b clears (clearAll p masks) fun t =>
        t ∈ (evaluate f.args (p ||| b) order).2 ∨ t ∉ examined f.args (p ||| b) order ∧ stale t
    else ∃ t ∈ f.sq, stale t ∧ t ∉ examined f.args (p ||| b) order

section Rounds

variable (f : Flag) (b : BitVec 64)

/-- The threads that are woken are those the evaluation satisfies, and the waiters that the pass has not come to and
that have a verdict. -/
theorem toWake_iff {p : BitVec 64} {gpr3 : Tid → Option CellError} (gpr6 : Tid → BitVec 64) {stale : Tid → Prop}
    (hunsat : ∀ t ∈ f.sq, ¬ (f.args t).satisfied p) (hstale : ∀ t ∈ f.sq, gpr3 t = some .ok ↔ stale t) :
    let order := protocolOrder f.protocol f.prio f.sq
    (∀ t, t ∈ toWake f.sq (pass f.args b order p gpr3 gpr6) ↔ t ∈ (evaluate f.args (p ||| b) order).2) ↔
      ¬∃ t ∈ f.sq, stale t ∧ t ∉ examined f.args (p ||| b) order := by
  intro order
  have h := pass_verdicts (b := b) 0 gpr3 gpr6 (nodup_protocolOrder f.protocol f.prio f.nodup)
    fun t ht => hunsat t (mem_protocolOrder.mp ht)
  have hmem : ∀ t ∈ (evaluate f.args (p ||| b) order).2, t ∈ f.sq :=
    fun t ht => mem_protocolOrder.mp (evaluate_mem _ _ _ ht)
  have hcount := h.count.trans (Nat.zero_add _)
  unfold toWake
  by_cases hzero : (pass f.args b order p gpr3 gpr6).count = 0
  · -- nobody was satisfied, and the pass looked at every waiter
    have hnil : (evaluate f.args (p ||| b) order).2 = [] := length_eq_zero_iff.mp (hcount.symm.trans hzero)
    rw [if_pos hzero, hnil, examined_of_none _ _ _ hnil]
    refine iff_of_true (fun _ => Iff.rfl) fun ⟨t, ht, _, hnot⟩ => hnot (mem_protocolOrder.mpr ht)
  rw [if_neg hzero]
  have hwoken : ∀ t, t ∈ f.sq.filter (fun t => (pass f.args b order p gpr3 gpr6).gpr3 t = some .ok) ↔
      t ∈ (evaluate f.args (p ||| b) order).2 ∨ t ∈ f.sq ∧ stale t ∧ t ∉ examined f.args (p ||| b) order := by
    intro t
    rw [mem_filter, decide_eq_true_iff, pass, h.gpr3]
    constructor
    · rintro ⟨hsq, hin | ⟨hnot, hok⟩⟩
      · exact .inl hin
      · exact .inr ⟨hsq, (hstale t hsq).mp hok, hnot⟩
    · rintro (hin | ⟨hsq, hs, hnot⟩)
      · exact ⟨hmem t hin, .inl hin⟩
      · exact ⟨hsq, .inr ⟨hnot, (hstale t hsq).mpr hs⟩⟩
  simp only [hwoken]
  constructor
  · rintro hall ⟨t, ht⟩
    exact ht.2.2 (h.satisfied t ((hall t).mp (.inr ht)))
  · exact fun hnone t => or_iff_left fun ht => hnone ⟨t, ht⟩

/-- What is asked of a call whose last commit found the pattern `o.x`. -/
def Outcome.Exact (o : Outcome) : Prop :=
  o.pattern = (evaluate f.args (o.x ||| b) (protocolOrder f.protocol f.prio f.sq)).1 ∧
    ∀ t, t ∈ o.woken ↔ t ∈ (evaluate f.args (o.x ||| b) (protocolOrder f.protocol f.prio f.sq)).2

theorem setLoop_exact (clears : List (List (BitVec 64))) (p : BitVec 64) {gpr3 : Tid → Option CellError}
    (gpr6 : Tid → BitVec 64) {stale : Tid → Prop} (hunsat : ∀ t ∈ f.sq, ¬ (f.args t).satisfied p)
    (hstale : ∀ t ∈ f.sq, gpr3 t = some .ok ↔ stale t) :
    (setLoop f b clears p gpr3 gpr6).Exact f b ↔ ¬LeftStale f b clears p stale := by
  have hnd := nodup_protocolOrder f.protocol f.prio f.nodup
  induction clears generalizing p gpr3 gpr6 stale with
  | nil =>
    have hwake := toWake_iff f b gpr6 hunsat hstale
    rcases pass_spec (b := b) gpr3 gpr6 hnd (Sub.refl p)
      fun t ht => hunsat t (mem_protocolOrder.mp ht) with ⟨⟨t, _, _, hne⟩, _⟩ | ⟨_, _, hcommit⟩
    · exact absurd (by rw [BitVec.xor_self]; exact BitVec.zero_and) hne
    rw [setLoop, LeftStale, getNextOrder_eq f.protocol f.prio f.nodup, hcommit]
    exact (and_iff_right rfl).trans hwake
  | cons masks clears ih =>
    have hsub := clearAll_sub p masks
    have hwake := toWake_iff f b gpr6 hunsat hstale
    rw [setLoop, LeftStale, getNextOrder_eq f.protocol f.prio f.nodup]
    rcases pass_spec (b := b) gpr3 gpr6 hnd hsub
      fun t ht => hunsat t (mem_protocolOrder.mp ht) with ⟨hdist, hcommit⟩ | ⟨hdist, hsame, hcommit⟩
    · -- the next round starts from the pattern found, which satisfies even less
      rw [hcommit, if_pos hdist]
      have h := pass_verdicts (b := b) 0 gpr3 gpr6 hnd fun t ht => hunsat t (mem_protocolOrder.mp ht)
      refine ih _ _ (fun t ht hs => hunsat t ht (Args.satisfied_mono hsub hs)) fun t ht => ?_
      exact (h.gpr3 t).trans (or_congr_right (and_congr_right' (hstale t ht)))
    · rw [hcommit, if_neg hdist]
      dsimp only at hwake
      rw [← hwake, ← hsame]
      exact and_iff_right rfl

end Rounds

/-- The pattern left and the threads woken are those of the waiters examined one by one, in protocol order, from the
pattern at the commit with the new bits; unless the last pass broke off before a waiter that an abandoned pass had left
a verdict for.  Which passes are abandoned and where they break off is given by the pattern, the mask, the waiters and
the clears. -/
theorem set_exact_iff (f : Flag) (gpr6 : Tid → BitVec 64) (bitptn : BitVec 64)
    (before : List (BitVec 64)) (clears : List (List (BitVec 64))) :
    let o := set f gpr6 bitptn before clears
    let e := evaluate f.args (o.x ||| bitptn) (protocolOrder f.protocol f.prio f.sq)
    (o.pattern = e.1 ∧ ∀ t, t ∈ o.woken ↔ t ∈ e.2) ↔ f.pattern &&& bitptn = bitptn ∨
      ¬LeftStale f bitptn clears (clearAll f.pattern before) fun _ => False := by
  intro o e
  by_cases hearly : f.pattern &&& bitptn = bitptn
  · -- the new bits are there already, and nobody waits for the pattern as it is
    have ho : o = ⟨f.pattern, f.pattern, []⟩ := if_pos hearly
    have hor : f.pattern ||| bitptn = f.pattern := by
      rw [← hearly]
      apply BitVec.eq_of_getLsbD_eq
      intro i _
      rw [BitVec.getLsbD_or, BitVec.getLsbD_and]
      cases f.pattern.getLsbD i <;> rfl
    have he : e = (f.pattern, []) := by
      show evaluate f.args (o.x ||| bitptn) _ = _
      rw [ho, hor]
      exact evaluate_none _ _ _ fun t ht => f.unsatisfied t (mem_protocolOrder.mp ht)
    rw [he, ho]
    exact iff_of_true ⟨rfl, fun _ => Iff.rfl⟩ (.inl hearly)
  · have ho : o = setLoop f bitptn clears (clearAll f.pattern before) f.gpr3 gpr6 := if_neg hearly
    rw [or_iff_right hearly]
    change o.Exact f bitptn ↔ _
    rw [ho]
    refine setLoop_exact f bitptn clears _ gpr6
      (fun t ht hs => f.unsatisfied t ht (Args.satisfied_mono (clearAll_sub _ _) hs)) fun t ht => ?_
    rw [f.pending t ht]
    exact iff_of_false nofun id


/-- Three waiters on bits 0, 1 and 2, the first come at the end of the list. -/
def staleFlag : Flag where
  protocol := .fifo
  prio := fun _ => ⟨0, 0⟩
  pattern := 1
  sq := [⟨3, by decide, by decide⟩, ⟨2, by decide, by decide⟩, ⟨1, by decide, by decide⟩]
  args := fun t =>
    if t.id = 1 then ⟨3, .and, .bits⟩ else if t.id = 2 then ⟨2, .or, .all⟩ else ⟨4, .or, .keep⟩
  gpr3 := fun _ => none
  nodup := by decide
  unsatisfied := by decide
  pending := fun _ _ => rfl

/-- Bit 0 is cleared before the first commit.  The first pass, which found the third waiter satisfied, is abandoned; the
second ends at the second waiter, and the third is woken although its condition is false. -/
theorem set_wakes_unsatisfied : let o := set staleFlag (fun _ => 0) 6 [] [[~~~1]]
    let e := evaluate staleFlag.args (o.x ||| 6)
      (protocolOrder staleFlag.protocol staleFlag.prio staleFlag.sq)
    let t : Tid := ⟨3, by decide, by decide⟩
    o.x = 0 ∧ e.1 = 0 ∧ t ∈ o.woken ∧ t ∉ e.2 ∧ ¬ (staleFlag.args t).satisfied e.1 := by
  decide

end Armsx3.Lv2.EventFlag
