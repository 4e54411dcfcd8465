import Armsx3.Library.Tally
import Armsx3.Library.Transition

/-!
# SharedMutex — the reader-writer lock in one 32-bit word

`m_value` counts the readers in its low bits, the exclusive holders and everybody who waits in steps of `c_one`, and
has one bit `c_sig` for a signal that no waiter has taken yet.  `Pc` has one constructor for each atomic access of a
call; `Pc.exec` is that access and the code up to the next one.
-/

namespace Armsx3.Util

open Transition Tally

def cOne : Nat := 2 ^ 14
def cSig : Nat := 2 ^ 30
def cErr : Nat := 2 ^ 31

def add32 (value k : Nat) : Nat := (value + k) % 2 ^ 32
def sub32 (value k : Nat) : Nat := (value + (2 ^ 32 - k)) % 2 ^ 32

def signaled (value : Nat) : Bool := value / cSig % 2 == 1

namespace SharedMutex

/-- The two locks a thread can ask for: `imp_lock` and `imp_lock_shared`. -/
inductive Kind where
  | exclusive
  | shared
deriving DecidableEq, Repr

inductive Pc where
  | out
  /-- It holds the lock, as a reader or as the writer. -/
  | shared
  | exclusive
  | tryLock
  | lock
  /-- The first exchange of `imp_lock` and `imp_lock_shared`, which takes the signal `val` has. -/
  | steal (kind : Kind) (val : Nat)
  | spin (left : Nat)
  | spinCas (left old : Nat)
  | tryLockShared
  | tryLockSharedCas (value : Nat)
  | lockShared
  | lockSharedCas (value : Nat)
  /-- An iteration of the loop of `imp_lock_shared`: `try_lock_shared`, then the signal bit. -/
  | spinShared (left : Nat)
  | spinSharedCas (left value : Nat)
  | spinSignal (left : Nat)
  | spinSignalCas (left old : Nat)
  /-- `fetch_add(c_one)` at the end of both. -/
  | add (kind : Kind)
  /-- `imp_wait`: the update of the word, `wait(old)`, and asleep in it. -/
  | wait (kind : Kind)
  | sleep (kind : Kind) (old : Nat)
  | asleep (kind : Kind)
  | lockDowngrade
  | unlock
  | unlockShared
  /-- `imp_signal`: the update of the word, and `notify_one`. -/
  | signal
  | notify
  | tryLockUpgrade
  | tryLockUpgradeCas (value : Nat)
  /-- A `try_lock_upgrade` of `lock_upgrade`, with `left` more after it. -/
  | upgrade (left : Nat)
  | upgradeCas (left value : Nat)
  | upgradeAdd
deriving DecidableEq, Repr

/-- What an access makes of the word, where the thread goes on, and whether the `ensure` before that
holds. -/
structure Outcome where
  value : Nat
  pc : Pc
  ensured : Bool := true
deriving DecidableEq, Repr

def Kind.unit : Kind → Nat
  | .exclusive => cOne
  | .shared => 1

/-- Where a newcomer goes on that has taken the signal in the waiters' place. -/
def Kind.holder : Kind → Pc
  | .exclusive => .exclusive
  | .shared => .shared

/-- Where a thread goes on that got the lock after `fetch_add(c_one)`: a reader has it as a writer
and downgrades. -/
def Kind.granted : Kind → Pc
  | .exclusive => .exclusive
  | .shared => .lockDowngrade

def Kind.again : Kind → Nat → Pc
  | kind, 0 => .add kind
  | .exclusive, left + 1 => .spin left
  | .shared, left + 1 => .spinShared left

def againUpgrade : Nat → Pc
  | 0 => .upgradeAdd
  | left + 1 => .upgrade left

/-- The entry of `imp_lock(val)` and `imp_lock_shared(val)`, which leave the word at `value`. -/
def imp (kind : Kind) (val value : Nat) : Outcome where
  value := value
  pc := if signaled val then .steal kind val else kind.again 10
  ensured := val < cErr

/-- `compare_and_swap_test(old, new)`: the thread goes on at `done` or at `failed`. -/
def cas (value old new : Nat) (done failed : Pc) : Outcome :=
  if value = old then ⟨new, done, true⟩ else ⟨value, failed, true⟩

/-- The single reader `try_lock_upgrade` asks for. -/
def upgradable (value : Nat) : Prop := add32 value (cOne - 1) % cOne = 0

instance (value : Nat) : Decidable (upgradable value) :=
  inferInstanceAs (Decidable (_ = _))

def Pc.exec (value : Nat) : Pc → Option Outcome
  | .tryLock => some (cas value 0 cOne .exclusive .out)
  | .lock => some (if value = 0 then ⟨cOne, .exclusive, true⟩ else imp .exclusive value value)
  | .steal kind val => some (cas value val (add32 (sub32 val cSig) kind.unit) kind.holder (kind.again 10))
  | .spin left => some ⟨value, .spinCas left value, true⟩
  | .spinCas left old => some <|
      if old = 0 then cas value 0 cOne .exclusive (Kind.exclusive.again left)
      else if signaled old then
        cas value old (add32 (sub32 old cSig) cOne) .exclusive (Kind.exclusive.again left)
      else ⟨value, Kind.exclusive.again left, true⟩
  | .tryLockShared => some ⟨value, if value < cOne - 1 then .tryLockSharedCas value else .out, true⟩
  | .tryLockSharedCas old => some (cas value old (add32 old 1) .shared .out)
  | .lockShared => some <|
      if value < cOne - 1 then ⟨value, .lockSharedCas value, true⟩ else imp .shared value value
  | .lockSharedCas old => some <|
      if value = old then ⟨add32 old 1, .shared, true⟩ else imp .shared old value
  | .spinShared left => some
      ⟨value, if value < cOne - 1 then .spinSharedCas left value else .spinSignal left, true⟩
  | .spinSharedCas left old => some (cas value old (add32 old 1) .shared (.spinSignal left))
  | .spinSignal left => some
      ⟨value, if signaled value then .spinSignalCas left value else Kind.shared.again left, true⟩
  | .spinSignalCas left old => some
      (cas value old (add32 (sub32 old cSig) 1) .shared (Kind.shared.again left))
  | .add kind => some <|
      if value = 0 then ⟨add32 value cOne, kind.granted, true⟩
      else ⟨add32 value cOne, .wait kind, value % cSig + cOne < cSig⟩
  | .wait kind => some <|
      if cSig ≤ value then ⟨sub32 value cSig, kind.granted, true⟩ else ⟨value, .sleep kind value, true⟩
  | .sleep kind old => some ⟨value, if value = old then .asleep kind else .wait kind, true⟩
  | .lockDowngrade => some ⟨sub32 value (cOne - 1), .shared, true⟩
  | .unlock => some <|
      if value = cOne then ⟨sub32 value cOne, .out, true⟩
      else ⟨sub32 value cOne, if sub32 value cOne = 0 then .out else .signal, sub32 value cOne < cErr⟩
  | .unlockShared => some <|
      if value < cOne then ⟨sub32 value 1, .out, true⟩
      else ⟨sub32 value 1, if sub32 value 1 % cOne = 0 then .signal else .out, sub32 value 1 < cErr⟩
  | .signal => some ⟨add32 value cSig, .notify, true⟩
  | .tryLockUpgrade => some ⟨value, if upgradable value then .tryLockUpgradeCas value else .shared, true⟩
  | .tryLockUpgradeCas old => some (cas value old (add32 old (cOne - 1)) .exclusive .shared)
  | .upgrade left => some ⟨value, if upgradable value then .upgradeCas left value else againUpgrade left, true⟩
  | .upgradeCas left old => some (cas value old (add32 old (cOne - 1)) .exclusive (againUpgrade left))
  | .upgradeAdd => some
      ⟨add32 value (cOne - 1), if value % cOne = 1 then .exclusive else .wait .exclusive,
        value % cSig + cOne - 1 < cSig⟩
  -- outside of the calls, and the two steps of `wait` and `notify_one` that involve another thread
  | .out | .shared | .exclusive | .asleep _ | .notify => none

/-! ## Who holds the lock and who waits for it -/

/-- A reader, also while it asks for an upgrade or is about to unlock. -/
def Pc.reads : Pc → Bool
  | .shared | .unlockShared | .tryLockUpgrade | .tryLockUpgradeCas _ | .upgrade _ | .upgradeCas _ _
  | .upgradeAdd => true
  | _ => false

/-- The writer, also on its way into a downgrade or an unlock. -/
def Pc.writes : Pc → Bool
  | .exclusive | .lockDowngrade | .unlock => true
  | _ => false

def Pc.awake : Pc → Bool
  | .wait _ | .sleep _ _ => true
  | _ => false

def Pc.sleeps : Pc → Bool
  | .asleep _ => true
  | _ => false

/-- In `imp_wait`, in or out of `wait`. -/
def Pc.waits (pc : Pc) : Bool := pc.awake || pc.sleeps

def Pc.inside (pc : Pc) : Bool := pc != .out

inductive Call where
  | lock
  | tryLock
  | unlock
  | lockShared
  | tryLockShared
  | unlockShared
  | lockUpgrade
  | tryLockUpgrade
  | lockDowngrade
deriving DecidableEq, Repr

/-- The state a caller must be in: threads release only what they hold. -/
def Call.requires : Call → Pc
  | .lock | .tryLock | .lockShared | .tryLockShared => .out
  | .unlock | .lockDowngrade => .exclusive
  | .unlockShared | .lockUpgrade | .tryLockUpgrade => .shared

def Call.entry : Call → Pc
  | .lock => .lock
  | .tryLock => .tryLock
  | .unlock => .unlock
  | .lockShared => .lockShared
  | .tryLockShared => .tryLockShared
  | .unlockShared => .unlockShared
  | .lockUpgrade => .upgrade 10
  | .tryLockUpgrade => .tryLockUpgrade
  | .lockDowngrade => .lockDowngrade

inductive Event (n : Nat) where
  | call (t : Fin n) (c : Call)
  | step (t : Fin n)
  | notify (t : Fin n) (woken : Option (Fin n))
  | wake (t : Fin n)
deriving DecidableEq, Repr

end SharedMutex

open SharedMutex

/-- One lock and `n` threads, each of which holds it at most once at a time. -/
structure SharedMutex (n : Nat) where
  value : Nat
  pc : Fin n → Pc
  /-- An `ensure` has failed. -/
  failed : Bool

namespace SharedMutex

variable {n : Nat}

def readers (s : SharedMutex n) : Nat := count Pc.reads s.pc
def writers (s : SharedMutex n) : Nat := count Pc.writes s.pc
def waiters (s : SharedMutex n) : Nat := count Pc.waits s.pc
def inside (s : SharedMutex n) : Nat := count Pc.inside s.pc

def go (s : SharedMutex n) (t : Fin n) (pc : Pc) : SharedMutex n := { s with pc := Function.update s.pc t pc }

def wakeUp (s : SharedMutex n) (t : Fin n) : Option (SharedMutex n) :=
  match s.pc t with
  | .asleep kind => some (s.go t (.wait kind))
  | _ => none

def step (s : SharedMutex n) : Event n → Option (SharedMutex n)
  | .call t c => if s.pc t = c.requires then some (s.go t c.entry) else none
  | .step t => (Pc.exec s.value (s.pc t)).map fun o =>
    { value := o.value, pc := Function.update s.pc t o.pc, failed := s.failed || !o.ensured }
  | .notify t woken =>
    if s.pc t = .notify then
      match woken with
      | none => if ∀ u, (s.pc u).sleeps = false then some (s.go t .out) else none
      | some u => (s.go t .out).wakeUp u
    else none
  | .wake t => s.wakeUp t

end SharedMutex

def sharedMutexSystem (n : Nat) : System (SharedMutex n) (Event n) where
  init s := s = { value := 0, pc := fun _ => .out, failed := false }
  step := SharedMutex.step

/-- A call from outside keeps the threads inside of the lock below `2 ^ 16`. -/
def SharedMutex.FewInside {n : Nat} (s : SharedMutex n) : Event n → Prop
  | .call _ c => c.requires = .out → s.inside + 1 < 2 ^ 16
  | _ => True

instance {n : Nat} (s : SharedMutex n) : (e : Event n) → Decidable (s.FewInside e)
  | .call _ _ => inferInstanceAs (Decidable (_ → _))
  | .step _ | .notify _ _ | .wake _ => isTrue trivial

end Armsx3.Util
