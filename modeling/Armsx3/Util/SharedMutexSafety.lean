import Armsx3.Library.Holder
import Armsx3.Util.SharedMutex

/-!
# SharedMutexSafety — one token between readers, the writer and the signal

The lock is one token.  It lies with the readers together, with the writer, in the signal bit, or with a thread that
has left the lock and is about to set the bit; when nobody reads, writes or waits, there is none.
-/

namespace Armsx3.Util

open Transition Tally SharedMutex Function Option

namespace SharedMutex

inductive Role where
  | out
  | reads
  | writes
  | awake
  | asleep
  | signals
  | notifies
  | asks
deriving DecidableEq

def Pc.role : Pc → Role
  | .out => .out
  | .shared | .unlockShared | .tryLockUpgrade | .tryLockUpgradeCas _ | .upgrade _ | .upgradeCas _ _
  | .upgradeAdd => .reads
  | .exclusive | .lockDowngrade | .unlock => .writes
  | .wait _ | .sleep _ _ => .awake
  | .asleep _ => .asleep
  | .signal => .signals
  | .notify => .notifies
  | _ => .asks

def Pc.inRole (role : Role) (pc : Pc) : Bool := pc.role == role

def Pc.Loaded : Pc → Prop
  | .steal _ val => signaled val = true
  | .tryLockSharedCas value | .lockSharedCas value | .spinSharedCas _ value => value < cOne - 1
  | .spinSignalCas _ old => signaled old = true
  | .sleep _ old => old < cSig
  | .tryLockUpgradeCas value | .upgradeCas _ value => upgradable value
  | _ => True

@[simp] theorem role_again (kind : Kind) (left : Nat) : (kind.again left).role = .asks := by
  cases kind <;> cases left <;> rfl

@[simp] theorem loaded_again (kind : Kind) (left : Nat) : (kind.again left).Loaded := by
  cases kind <;> cases left <;> trivial

@[simp] theorem role_againUpgrade (left : Nat) : (againUpgrade left).role = .reads := by
  cases left <;> rfl

@[simp] theorem loaded_againUpgrade (left : Nat) : (againUpgrade left).Loaded := by
  cases left <;> trivial

@[simp] theorem role_granted (kind : Kind) : kind.granted.role = .writes := by
  cases kind <;> rfl

@[simp] theorem loaded_granted (kind : Kind) : kind.granted.Loaded := by
  cases kind <;> trivial

structure Census where
  reads : Nat
  writes : Nat
  awake : Nat
  asleep : Nat
  signals : Nat
  notifies : Nat
  asks : Nat

namespace Census

def add (c : Census) : Role → Census
  | .out => c
  | .reads => { c with reads := c.reads + 1 }
  | .writes => { c with writes := c.writes + 1 }
  | .awake => { c with awake := c.awake + 1 }
  | .asleep => { c with asleep := c.asleep + 1 }
  | .signals => { c with signals := c.signals + 1 }
  | .notifies => { c with notifies := c.notifies + 1 }
  | .asks => { c with asks := c.asks + 1 }

def total (c : Census) : Nat :=
  c.reads + c.writes + c.awake + c.asleep + c.signals + c.notifies + c.asks

/-- Those the word counts: each of them holds the lock or waits for it. -/
def counted (c : Census) : Nat := c.reads + c.writes + c.awake + c.asleep

end Census

/-- The word says how many read, how many write or wait, and whether there is a signal (`sig`); and
there is one token exactly when somebody reads, writes or waits. -/
structure Balance (value sig : Nat) (c : Census) : Prop where
  word : value = c.reads + 2 ^ 14 * (c.writes + c.awake + c.asleep) + 2 ^ 30 * sig
  readers : c.reads < 2 ^ 14
  token : c.writes + c.signals + sig + min c.reads 1 = min c.counted 1
  few : c.total < 2 ^ 16
  noticed : sig = 1 → 1 ≤ c.awake + c.notifies

/-! ## The accesses -/

theorem add32_eq {value k : Nat} (h : value + k < 2 ^ 32) : add32 value k = value + k := Nat.mod_eq_of_lt h

theorem sub32_eq {value k : Nat} (hk : k ≤ value) (h : value < 2 ^ 32) : sub32 value k = value - k := by
  unfold sub32
  omega

namespace Balance

open Census

variable {value sig : Nat} {c : Census}

section

variable (h : Balance value sig c)
include h

theorem word_lt : value < 2 ^ 30 * (sig + 1) := by
  cases h
  simp only [total] at *
  omega

theorem sig_le : sig ≤ 1 := by
  have htoken := h.token
  omega

/-- A waiter is counted as much as the writer is, so the word stays below the error bit. -/
theorem lt_cErr : value < cErr := by
  have hlt := h.word_lt
  have hsig := h.sig_le
  simp only [cErr]
  omega

theorem sig_eq (hv : cSig ≤ value) : sig = 1 ∧ c.reads = 0 ∧ c.writes = 0 ∧ c.signals = 0 ∧ 0 < c.awake + c.asleep := by
  have hlt := h.word_lt
  have htoken := h.token
  simp only [cSig, counted] at hv htoken
  omega

end

theorem writer (h : Balance value sig (c.add .writes)) : sig = 0 ∧ c.reads = 0 ∧ c.writes = 0 ∧ c.signals = 0 := by
  have htoken := h.token
  simp only [counted, add] at htoken
  omega

theorem enter (h : Balance value sig (c.add .out)) (hfew : c.total + 1 < 2 ^ 16) : Balance value sig (c.add .asks) := by
  cases h
  constructor <;> simp only [add, total, counted] at * <;> omega

theorem leave (h : Balance value sig (c.add .asks)) : Balance value sig (c.add .out) := by
  cases h
  constructor <;> simp only [add, total, counted] at * <;> omega

theorem lock (h : Balance 0 sig (c.add .asks)) : Balance cOne sig (c.add .writes) := by
  cases h
  constructor <;> simp only [add, total, counted, cOne] at * <;> omega

theorem lockShared (h : Balance value sig (c.add .asks)) (hv : value < cOne - 1) :
    Balance (add32 value 1) sig (c.add .reads) := by
  rw [add32_eq (by simp only [cOne] at hv; omega)]
  cases h
  constructor <;> simp only [add, total, counted, cOne] at * <;> omega

theorem cSig_le_of_signaled (hv : signaled value = true) : cSig ≤ value := by
  simp only [signaled, cSig, beq_iff_eq] at hv ⊢
  omega

section

variable (h : Balance value sig (c.add .asks))
include h

theorem steal (hv : signaled value = true) (kind : Kind) :
    Balance (add32 (sub32 value cSig) kind.unit) 0 (c.add kind.holder.role) := by
  have hle := cSig_le_of_signaled hv
  have herr := h.lt_cErr
  simp only [cErr] at herr
  rw [sub32_eq hle (by omega)]
  cases h
  cases kind <;> simp only [Kind.unit, Kind.holder, Pc.role] <;>
    rw [add32_eq (by simp only [cOne, cSig] at *; omega)] <;> constructor <;>
    simp only [add, total, counted, cOne, cSig] at * <;> omega

theorem addWait (hv : value ≠ 0) : Balance (add32 value cOne) sig (c.add .awake) := by
  have herr := h.lt_cErr
  rw [add32_eq (by simp only [cErr, cOne] at *; omega)]
  cases h
  constructor <;> simp only [add, total, counted, cOne] at * <;> omega

theorem add_ensured : value % cSig + cOne < cSig := by
  cases h
  simp only [add, total, counted, cOne, cSig] at *
  omega

end

theorem grant (h : Balance value sig (c.add .awake)) (hv : cSig ≤ value) :
    Balance (sub32 value cSig) 0 (c.add .writes) := by
  have herr := h.lt_cErr
  simp only [cErr] at herr
  rw [sub32_eq hv (by omega)]
  cases h
  constructor <;> simp only [add, total, counted, cSig] at * <;> omega

theorem sleep (h : Balance value sig (c.add .awake)) (hv : value < cSig) : Balance value sig (c.add .asleep) := by
  cases h
  constructor <;> simp only [add, total, counted, cSig] at * <;> omega

theorem wake (h : Balance value sig (c.add .asleep)) : Balance value sig (c.add .awake) := by
  cases h
  constructor <;> simp only [add, total, counted] at * <;> omega

theorem notified (h : Balance value sig (c.add .notifies)) (hwoken : 0 < c.awake ∨ c.asleep = 0) :
    Balance value sig (c.add .out) := by
  cases h
  constructor <;> simp only [add, total, counted] at * <;> omega

section

variable (h : Balance value sig (c.add .writes))
include h

theorem cOne_le : cOne ≤ value := by
  have hword := h.word
  simp only [add, cOne] at hword ⊢
  omega

theorem lockDowngrade : Balance (sub32 value (cOne - 1)) sig (c.add .reads) := by
  have herr := h.lt_cErr
  have hone := h.cOne_le
  simp only [cErr] at herr
  rw [sub32_eq (by omega) (by omega)]
  cases h
  constructor <;> simp only [add, total, counted, cOne] at * <;> omega

theorem unlock_eq : sub32 value cOne = value - cOne := by
  have herr := h.lt_cErr
  simp only [cErr] at herr
  exact sub32_eq h.cOne_le (by omega)

theorem unlock : Balance (sub32 value cOne) sig (c.add (if sub32 value cOne = 0 then .out else .signals)) := by
  rw [h.unlock_eq]
  cases h
  split <;> constructor <;> simp only [add, total, counted, cOne] at * <;> omega

end

section

variable (h : Balance value sig (c.add .reads))
include h

theorem unlockShared_eq : sub32 value 1 = value - 1 := by
  have herr := h.lt_cErr
  have hword := h.word
  simp only [cErr, add] at herr hword
  exact sub32_eq (by omega) (by omega)

theorem unlockShared_alone (hv : value < cOne) : Balance (sub32 value 1) sig (c.add .out) := by
  rw [h.unlockShared_eq]
  cases h
  constructor <;> simp only [add, total, counted, cOne] at * <;> omega

theorem unlockShared (hv : cOne ≤ value) :
    Balance (sub32 value 1) sig (c.add (if sub32 value 1 % cOne = 0 then .signals else .out)) := by
  rw [h.unlockShared_eq]
  cases h
  split <;> constructor <;> simp only [add, total, counted, cOne] at * <;> omega

end

theorem signal (h : Balance value sig (c.add .signals)) : Balance (add32 value cSig) 1 (c.add .notifies) := by
  have herr := h.lt_cErr
  rw [add32_eq (by simp only [cErr, cSig] at *; omega)]
  cases h
  constructor <;> simp only [add, total, counted, cSig] at * <;> omega

section

variable (h : Balance value sig (c.add .reads))
include h

theorem upgrade_eq : add32 value (cOne - 1) = value + (cOne - 1) := by
  have herr := h.lt_cErr
  simp only [cErr] at herr
  exact add32_eq (by simp only [cOne]; omega)

theorem upgrade (hv : value % cOne = 1) : Balance (add32 value (cOne - 1)) sig (c.add .writes) := by
  rw [h.upgrade_eq]
  cases h
  constructor <;> simp only [add, total, counted, cOne] at * <;> omega

theorem one_of_upgradable (hv : upgradable value) : value % cOne = 1 := by
  unfold upgradable at hv
  rw [h.upgrade_eq] at hv
  simp only [cOne] at hv ⊢
  omega

theorem upgradeWait (hv : value % cOne ≠ 1) : Balance (add32 value (cOne - 1)) sig (c.add .awake) := by
  rw [h.upgrade_eq]
  cases h
  constructor <;> simp only [add, total, counted, cOne] at * <;> omega

theorem upgradeAdd_ensured : value % cSig + cOne - 1 < cSig := by
  cases h
  simp only [add, total, counted, cOne, cSig] at *
  omega

end

end Balance

/-- What an access leaves: the word balances the new role of the thread, and no `ensure` failed. -/
structure Good (c : Census) (o : Outcome) : Prop where
  balance : ∃ sig, Balance o.value sig (c.add o.pc.role)
  loaded : o.pc.Loaded
  ensured : o.ensured = true

section Exec

variable {value sig old new val : Nat} {c : Census} {done fail pc : Pc} {o : Outcome}

theorem Good.mk' {ensured : Bool} (h : Balance value sig (c.add pc.role)) (hloaded : pc.Loaded)
    (hensured : ensured = true) : Good c ⟨value, pc, ensured⟩ := ⟨⟨sig, h⟩, hloaded, hensured⟩

theorem good_cas (hdone : value = old → Good c ⟨new, done, true⟩) (hfail : Good c ⟨value, fail, true⟩) :
    Good c (cas value old new done fail) := by
  unfold cas
  split_ifs with h
  · exact hdone h
  · exact hfail

section

variable (h : Balance value sig (c.add .asks))
include h

theorem good_asks (hrole : pc.role = .asks) (hloaded : pc.Loaded) : Good c ⟨value, pc, true⟩ :=
  ⟨⟨sig, by rw [hrole]; exact h⟩, hloaded, rfl⟩

theorem good_imp (kind : Kind) (hval : val < cErr) : Good c (imp kind val value) := by
  have hpc : (imp kind val value).pc.role = .asks ∧ (imp kind val value).pc.Loaded := by
    unfold imp
    split_ifs with hsig
    · exact ⟨rfl, hsig⟩
    · exact ⟨role_again kind 10, loaded_again kind 10⟩
  exact ⟨⟨sig, by rw [hpc.1]; exact h⟩, hpc.2, decide_eq_true hval⟩

theorem good_lock (hv : value = 0) : Good c ⟨cOne, .exclusive, true⟩ := by
  rw [hv] at h
  exact ⟨⟨sig, h.lock⟩, trivial, rfl⟩

theorem good_lockShared (hold : old < cOne - 1) (hv : value = old) : Good c ⟨add32 old 1, .shared, true⟩ := by
  rw [hv] at h
  exact ⟨⟨sig, h.lockShared hold⟩, trivial, rfl⟩

theorem good_steal (kind : Kind) (hold : signaled old = true)
    (hv : value = old) : Good c ⟨add32 (sub32 old cSig) kind.unit, kind.holder, true⟩ := by
  rw [hv] at h
  exact ⟨⟨0, h.steal hold kind⟩, by cases kind <;> trivial, rfl⟩

end

theorem good_reads (h : Balance value sig (c.add .reads)) (hrole : pc.role = .reads) (hloaded : pc.Loaded) :
    Good c ⟨value, pc, true⟩ :=
  ⟨⟨sig, by rw [hrole]; exact h⟩, hloaded, rfl⟩

theorem good_upgrade (h : Balance value sig (c.add .reads)) (hold : upgradable old) (hv : value = old) :
    Good c ⟨add32 old (cOne - 1), .exclusive, true⟩ := by
  rw [hv] at h
  exact ⟨⟨sig, h.upgrade (h.one_of_upgradable hold)⟩, trivial, rfl⟩

theorem good_exec (h : Balance value sig (c.add pc.role)) (hloaded : pc.Loaded)
    (ho : pc.exec value = some o) : Good c o := by
  cases pc with
  | out | shared | exclusive | asleep | notify => cases ho
  | tryLock =>
    cases ho
    exact good_cas (good_lock h) (.mk' h.leave trivial rfl)
  | lock =>
    cases ho
    split_ifs with hv
    · exact good_lock h hv
    · exact good_imp h .exclusive h.lt_cErr
  | steal kind =>
    cases ho
    exact good_cas (good_steal h kind hloaded) (good_asks h (role_again kind 10) (loaded_again kind 10))
  | spin =>
    cases ho
    exact good_asks h rfl trivial
  | spinCas left =>
    cases ho
    have hagain := good_asks h (role_again .exclusive left) (loaded_again .exclusive left)
    split
    · exact good_cas (good_lock h) hagain
    · split_ifs with hsig
      · exact good_cas (good_steal h .exclusive hsig) hagain
      · exact hagain
  | tryLockShared =>
    cases ho
    split_ifs with hv
    · exact good_asks h rfl hv
    · exact .mk' h.leave trivial rfl
  | tryLockSharedCas =>
    cases ho
    exact good_cas (good_lockShared h hloaded) (.mk' h.leave trivial rfl)
  | lockShared =>
    cases ho
    split_ifs with hv
    · exact good_asks h rfl hv
    · exact good_imp h .shared h.lt_cErr
  | lockSharedCas old =>
    cases ho
    split_ifs with hv
    · exact good_lockShared h hloaded hv
    · -- the value that was loaded is a count of readers
      have hold : old < cOne - 1 := hloaded
      exact good_imp h .shared (by simp only [cOne, cErr] at hold ⊢; omega)
  | spinShared =>
    cases ho
    split_ifs with hv
    · exact good_asks h rfl hv
    · exact good_asks h rfl trivial
  | spinSharedCas =>
    cases ho
    exact good_cas (good_lockShared h hloaded) (good_asks h rfl trivial)
  | spinSignal left =>
    cases ho
    split_ifs with hv
    · exact good_asks h rfl hv
    · exact good_asks h (role_again .shared left) (loaded_again .shared left)
  | spinSignalCas left =>
    cases ho
    exact good_cas (good_steal h .shared hloaded) (good_asks h (role_again .shared left) (loaded_again .shared left))
  | add kind =>
    cases ho
    split_ifs with hv
    · subst hv
      exact .mk' (by rw [role_granted]; exact h.lock) (loaded_granted kind) rfl
    · exact .mk' (h.addWait hv) trivial (decide_eq_true h.add_ensured)
  | wait kind =>
    cases ho
    split_ifs with hv
    · exact .mk' (by rw [role_granted]; exact h.grant hv) (loaded_granted kind) rfl
    · exact .mk' h (Nat.lt_of_not_le hv) rfl
  | sleep =>
    cases ho
    split_ifs with hv
    · subst hv
      exact .mk' (h.sleep hloaded) trivial rfl
    · exact .mk' h trivial rfl
  | lockDowngrade =>
    rw [← some.inj ho]
    exact .mk' h.lockDowngrade trivial rfl
  | unlock =>
    cases ho
    have hleft := h.unlock
    split
    · rw [h.unlock_eq, if_pos (by omega)] at hleft
      exact .mk' (by rw [h.unlock_eq]; exact hleft) trivial rfl
    have herr : decide (sub32 value cOne < cErr) = true := by
      have hlt := h.lt_cErr
      rw [h.unlock_eq]
      exact decide_eq_true (by omega)
    split_ifs with hz
    · rw [if_pos hz] at hleft
      exact .mk' hleft trivial herr
    · rw [if_neg hz] at hleft
      exact .mk' hleft trivial herr
  | unlockShared =>
    cases ho
    split
    next hv =>
      exact .mk' (h.unlockShared_alone hv) trivial rfl
    rename_i hv
    have hleft := h.unlockShared (Nat.le_of_not_lt hv)
    have herr : decide (sub32 value 1 < cErr) = true := by
      have hlt := h.lt_cErr
      rw [h.unlockShared_eq]
      exact decide_eq_true (by omega)
    split_ifs with hz
    · rw [if_pos hz] at hleft
      exact .mk' hleft trivial herr
    · rw [if_neg hz] at hleft
      exact .mk' hleft trivial herr
  | signal =>
    rw [← some.inj ho]
    exact .mk' h.signal trivial rfl
  | tryLockUpgrade =>
    cases ho
    split_ifs with hv
    · exact good_reads h rfl hv
    · exact good_reads h rfl trivial
  | tryLockUpgradeCas =>
    cases ho
    exact good_cas (good_upgrade h hloaded) (good_reads h rfl trivial)
  | upgrade left =>
    cases ho
    split_ifs with hv
    · exact good_reads h rfl hv
    · exact good_reads h (role_againUpgrade left) (loaded_againUpgrade left)
  | upgradeCas left =>
    cases ho
    exact good_cas (good_upgrade h hloaded) (good_reads h (role_againUpgrade left) (loaded_againUpgrade left))
  | upgradeAdd =>
    rw [← some.inj ho]
    have herr := decide_eq_true h.upgradeAdd_ensured
    split_ifs with hv
    · exact .mk' (h.upgrade hv) trivial herr
    · exact .mk' (h.upgradeWait hv) trivial herr

end Exec

/-! ## Runs -/

def census {n : Nat} (pc : Fin n → Pc) : Census where
  reads := count Pc.reads pc
  writes := count Pc.writes pc
  awake := count Pc.awake pc
  asleep := count Pc.sleeps pc
  signals := count (Pc.inRole .signals) pc
  notifies := count (Pc.inRole .notifies) pc
  asks := count (Pc.inRole .asks) pc

def rest {n : Nat} (pc : Fin n → Pc) (t : Fin n) : Census where
  reads := others Pc.reads pc t
  writes := others Pc.writes pc t
  awake := others Pc.awake pc t
  asleep := others Pc.sleeps pc t
  signals := others (Pc.inRole .signals) pc t
  notifies := others (Pc.inRole .notifies) pc t
  asks := others (Pc.inRole .asks) pc t

variable {p : Pc}

section Runs

variable {n : Nat}

theorem census_eq (pc : Fin n → Pc) (t : Fin n) : census pc = (rest pc t).add (pc t).role := by
  simp only [census, count_eq _ pc t]
  cases pc t <;> rfl

theorem census_update (pc : Fin n → Pc) (t : Fin n) (p : Pc) : census (update pc t p) = (rest pc t).add p.role := by
  simp only [census, count_update]
  cases p <;> rfl

theorem census_total (pc : Fin n → Pc) : (census pc).total = count Pc.inside pc := by
  simp only [census, Census.total, count, ← Finset.sum_add_distrib]
  apply Finset.sum_congr rfl
  intro t _
  cases pc t <;> rfl

structure Inv (s : SharedMutex n) : Prop where
  balance : ∃ sig, Balance s.value sig (census s.pc)
  loaded : ∀ t, (s.pc t).Loaded
  ensured : s.failed = false

variable {s s' : SharedMutex n} {t : Fin n}

theorem Inv.go (h : Inv s) (hp : p.Loaded) (hbalance : ∀ sig, Balance s.value sig ((rest s.pc t).add (s.pc t).role) →
      Balance s.value sig ((rest s.pc t).add p.role)) : Inv (s.go t p) := by
  have ⟨sig, hb⟩ := h.balance
  rw [census_eq s.pc t] at hb
  refine ⟨⟨sig, ?_⟩, Holder.forall_update h.loaded hp, h.ensured⟩
  show Balance s.value sig (census (update s.pc t p))
  rw [census_update]
  exact hbalance sig hb

theorem Inv.call {c : Call} (h : Inv s) (hfew : c.requires = .out → s.inside + 1 < 2 ^ 16)
    (ht : s.pc t = c.requires) : Inv (s.go t c.entry) := by
  -- a call from outside needs a place below the limit, the others keep their caller's role
  have hcount : s.inside = ((rest s.pc t).add c.requires.role).total := by
    rw [← ht, ← census_eq, census_total]
    rfl
  apply h.go
  · cases c <;> trivial
  intro sig hb
  rw [ht] at hb
  cases c with
  | lock | tryLock | lockShared | tryLockShared =>
    exact hb.enter (hcount ▸ hfew rfl)
  | unlock | unlockShared | lockUpgrade | tryLockUpgrade | lockDowngrade => exact hb

theorem Inv.step {o : Outcome} (h : Inv s) (ho : Pc.exec s.value (s.pc t) = some o) :
    Inv { value := o.value, pc := update s.pc t o.pc, failed := s.failed || !o.ensured } := by
  have ⟨sig, hb⟩ := h.balance
  rw [census_eq s.pc t] at hb
  have hgood := good_exec hb (h.loaded t) ho
  have ⟨sig', hb'⟩ := hgood.balance
  refine ⟨⟨sig', ?_⟩, Holder.forall_update h.loaded hgood.loaded, ?_⟩
  · rw [census_update]
    exact hb'
  · rw [h.ensured, hgood.ensured]
    rfl

theorem wakeUp_cases (hs : s.wakeUp t = some s') : ∃ kind, s.pc t = .asleep kind ∧ s' = s.go t (.wait kind) := by
  unfold wakeUp at hs
  split at hs
  next kind ht =>
    exact ⟨kind, ht, (some.inj hs).symm⟩
  · cases hs

theorem Inv.wakeUp (h : Inv s) (hs : s.wakeUp t = some s') : Inv s' := by
  have ⟨kind, ht, hs'⟩ := wakeUp_cases hs
  rw [hs']
  apply h.go (p := .wait kind) trivial
  intro sig hb
  rw [ht] at hb
  exact hb.wake

theorem Inv.notified (h : Inv s) (ht : s.pc t = .notify)
    (hwoken : (∃ u, u ≠ t ∧ (s.pc u).awake = true) ∨ ∀ u, (s.pc u).sleeps = false) : Inv (s.go t .out) := by
  apply h.go (p := .out) trivial
  intro sig hb
  rw [ht] at hb
  apply hb.notified
  rcases hwoken with ⟨u, hu, hawake⟩ | hnone
  · exact .inl (others_pos hu hawake)
  right
  have hzero := count_eq_zero hnone
  rw [count_eq _ _ t] at hzero
  exact Nat.eq_zero_of_add_eq_zero_right hzero

theorem Inv.notify {woken : Option (Fin n)} (h : Inv s) (hs : s.step (.notify t woken) = some s') : Inv s' := by
  have ⟨ht, hs⟩ := ite_none_right_eq_some.mp hs
  cases woken with
  | none =>
    simp only at hs
    split at hs
    next hnone =>
      exact some.inj hs ▸ h.notified ht (.inr hnone)
    · cases hs
  | some u =>
    have ⟨kind, hu, hs'⟩ := wakeUp_cases hs
    have hut : u ≠ t := by
      rintro rfl
      simp only [SharedMutex.go, update_self] at hu
      cases hu
    have hpc : s.pc u = .asleep kind := by
      rw [← hu]
      exact (update_of_ne hut _ _).symm
    -- the sleeper's return and the notifier's do not touch each other
    have hcomm : s' = (s.go u (.wait kind)).go t .out := by
      rw [hs']
      simp only [SharedMutex.go, update_comm hut]
    rw [hcomm]
    apply Inv.notified (h.wakeUp (t := u) (by simp only [SharedMutex.wakeUp, hpc]))
    · exact (update_of_ne hut.symm _ _).trans ht
    · exact .inl ⟨u, hut, by simp only [SharedMutex.go, update_self]; rfl⟩

theorem inv_step {e : Event n} (h : Inv s) (hfew : s.FewInside e) (hs : s.step e = some s') : Inv s' := by
  cases e with
  | call =>
    have ⟨ht, hs⟩ := ite_none_right_eq_some.mp hs
    exact some.inj hs ▸ h.call hfew ht
  | step =>
    have ⟨o, ho, hs'⟩ := map_eq_some_iff.mp hs
    exact hs' ▸ h.step ho
  | notify => exact h.notify hs
  | wake => exact h.wakeUp hs

theorem inv_init : Inv { value := 0, pc := fun _ : Fin n => .out, failed := false } where
  balance := by
    have hzero : ∀ p : Pc → Bool, p .out = false → count p (fun _ : Fin n => Pc.out) = 0 :=
      fun p hp => count_eq_zero fun _ => hp
    refine ⟨0, ?_⟩
    simp only [census, hzero _ (show Pc.reads .out = false from rfl), hzero _ (show Pc.writes .out = false from rfl),
      hzero _ (show Pc.awake .out = false from rfl), hzero _ (show Pc.sleeps .out = false from rfl),
      hzero (Pc.inRole .signals) rfl, hzero (Pc.inRole .notifies) rfl,
      hzero (Pc.inRole .asks) rfl]
    constructor <;> decide
  loaded _ := trivial
  ensured := rfl

end Runs

structure Safe {n : Nat} (s : SharedMutex n) : Prop where
  /-- Nobody holds the lock next to the writer. -/
  exclusion : ∀ t u, t ≠ u → (s.pc t).writes = true → (s.pc u).reads = false ∧ (s.pc u).writes = false
  word : ∃ signal ≤ 1, s.value = s.readers + 2 ^ 14 * (s.writers + s.waiters) + 2 ^ 30 * signal
  ensured : s.failed = false
  /-- Those that wait for a free lock have a signal, or a thread on its way out will set it. -/
  signaled : 0 < s.waiters → s.readers = 0 → s.writers = 0 → 2 ^ 30 ≤ s.value ∨ ∃ t, s.pc t = .signal
  /-- The signal does not lie there while all that wait sleep: one of them is awake, or will be woken. -/
  noticed : 2 ^ 30 ≤ s.value → ∃ t, (s.pc t).awake = true ∨ s.pc t = .notify

section Safety

variable {n : Nat} {s : SharedMutex n}

theorem waiters_eq (s : SharedMutex n) : s.waiters = (census s.pc).awake + (census s.pc).asleep := by
  simp only [waiters, census, count, ← Finset.sum_add_distrib]
  apply Finset.sum_congr rfl
  intro t _
  cases s.pc t <;> rfl

theorem role_eq_signal (h : p.inRole .signals = true) : p = .signal := by
  cases p <;> first | rfl | cases h

theorem role_eq_notify (h : p.inRole .notifies = true) : p = .notify := by
  cases p <;> first | rfl | cases h

theorem Inv.exclusion (h : Inv s) {t u : Fin n} (htu : t ≠ u) (ht : (s.pc t).writes = true) :
    (s.pc u).reads = false ∧ (s.pc u).writes = false := by
  have ⟨sig, hb⟩ := h.balance
  have hrole : (s.pc t).role = .writes := by
    cases hpc : s.pc t <;> rw [hpc] at ht <;> first | rfl | cases ht
  rw [census_eq s.pc t, hrole] at hb
  have ⟨_, hreads, hwrites, _⟩ := hb.writer
  constructor
  · by_contra hu
    exact absurd hreads (others_pos htu.symm (eq_true_of_ne_false hu)).ne'
  · by_contra hu
    exact absurd hwrites (others_pos htu.symm (eq_true_of_ne_false hu)).ne'

theorem Inv.safe (h : Inv s) : Safe s := by
  have ⟨sig, hb⟩ := h.balance
  have hword := hb.word
  have htoken := hb.token
  have hsig := hb.sig_le
  have hwaiters := waiters_eq s
  have hreaders : s.readers = (census s.pc).reads := rfl
  have hwriters : s.writers = (census s.pc).writes := rfl
  constructor
  case exclusion => exact fun t u htu ht => h.exclusion htu ht
  case word => exact ⟨sig, hsig, by rw [hreaders, hwriters, hwaiters, ← Nat.add_assoc]; exact hword⟩
  case ensured => exact h.ensured
  case signaled =>
    intro hwait hr hw
    simp only [Census.counted] at htoken
    -- the token is neither with readers nor with a writer
    have hleft : sig = 1 ∨ 0 < (census s.pc).signals := by omega
    rcases hleft with hone | hsignals
    · left
      omega
    · have ⟨t, ht⟩ := exists_of_count_pos (f := s.pc) hsignals
      exact .inr ⟨t, role_eq_signal ht⟩
  case noticed =>
    intro hv
    have hone := (hb.sig_eq hv).1
    have hawake := hb.noticed hone
    have hsome : 0 < (census s.pc).awake ∨ 0 < (census s.pc).notifies := by omega
    rcases hsome with hpos | hpos
    · have ⟨t, ht⟩ := exists_of_count_pos (f := s.pc) hpos
      exact ⟨t, .inl ht⟩
    · have ⟨t, ht⟩ := exists_of_count_pos (f := s.pc) hpos
      exact ⟨t, .inr (role_eq_notify ht)⟩

end Safety

end SharedMutex

/-- In every interleaving with fewer than `2 ^ 16` threads inside, the writer is alone, the word is what it counts, no
`ensure` fails and no wake-up is lost. -/
theorem sharedMutex_safe {n : Nat} {s : SharedMutex n}
    (hs : ((sharedMutexSystem n).restrict SharedMutex.FewInside).Reachable s) : s.Safe := by
  have hinv : Inv s := by
    apply hs.invariant
    · intro s hinit
      have hs := hinit
      rw [hs]
      exact inv_init
    · intro s e s' h hstep
      have ⟨hfew, hstep⟩ := Transition.System.step_restrict.mp hstep
      exact inv_step h hfew hstep
  exact hinv.safe

theorem sharedMutexSystem_init (n : Nat) :
    (sharedMutexSystem n).init { value := 0, pc := fun _ => .out, failed := false } := rfl

/-- A thread waits for the writer, is signaled, and a newcomer takes the signal before it looks: it sleeps on, and the
newcomer is the writer. -/
theorem sharedMutex_safe_stolen : ∃ s, ((sharedMutexSystem 3).restrict SharedMutex.FewInside).Reachable s ∧
    s.value = 2 ^ 15 ∧ s.pc 1 = .asleep .exclusive ∧ s.pc 2 = .exclusive ∧ s.Safe := by
  have ⟨s, hs, hvalue, hwaits, hholds⟩ := Transition.System.Reachable.exists_of_run
    (M := (sharedMutexSystem 3).restrict SharedMutex.FewInside) (sharedMutexSystem_init 3)
    ([.call 0 .lock, .step 0, .call 1 .lock] ++ List.replicate 24 (.step 1) ++
      [.call 0 .unlock, .step 0, .step 0, .call 2 .lock, .step 2, .step 2, .notify 0 (some 1), .step 1, .step 1])
    (fun s => s.value = 2 ^ 15 ∧ s.pc 1 = .asleep .exclusive ∧ s.pc 2 = .exclusive) (by decide +kernel)
  exact ⟨s, hs, hvalue, hwaits, hholds, sharedMutex_safe hs⟩

end Armsx3.Util
