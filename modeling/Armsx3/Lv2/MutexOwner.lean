import Armsx3.Library.Located
import Armsx3.Lv2.Mutex
import Armsx3.Lv2.Sleeper
import Armsx3.Lv2.Waiters

/-!
# The owner of a mutex and the places of the threads that wait for it

A thread that waits is in one place, which the history variable `loc` names; the lists of the model
are the lists of the threads in these places.  What is known of one thread is `ThreadOk`, what ties
it to the owner word `OwnOk`.
-/

namespace Armsx3.Lv2.Mutex

open Function

/-! ## What is known of one thread -/

def Pc.sleeps : Pc → Prop
  | .lockWait _ | .condWait _ _ _ => True
  | _ => False

def Pc.announces : Pc → Prop
  | .lockSleep _ => True
  | _ => False

def Pc.locking : Pc → Prop
  | .lockCas _ _ | .lockTest _ | .lockSpin _ | .lockOwn _ | .tryCas _ => True
  | _ => False

def Pc.owning : Pc → Prop
  | .unlockCas | .unlockLock | .condLock _ _ => True
  | _ => False

/-- On the way to unlock a mutex that is not locked recursively. -/
def Pc.last : Pc → Prop
  | .unlockCas | .unlockLock => True
  | _ => False

def Pc.returns : Pc → Prop
  | .condReturn _ => True
  | _ => False

def Pc.blocked : Pc → Prop
  | .lockSleep _ | .lockWait _ | .lockTimedOut | .lockTimedOutLock | .lockTimedOutEmpty => True
  | .condSleep _ _ _ | .condWait _ _ _ | .condTimedOut _ _ | .condResleep _ _ => True
  | .condReturn _ => True
  | _ => False

def Pc.testing : Pc → Prop
  | .condTest _ _ | .condLock _ _ => True
  | _ => False

/-- Where a thread can be, how many locks it has and what it is to restore, by the point its code has
come to. -/
def PlaceOk : Pc → Loc → Nat → Nat → Prop
  | .lockSleep _, l, n, _ | .lockWait _, l, n, _ | .lockTimedOut, l, n, _
  | .lockTimedOutLock, l, n, _ => (l = .queue ∨ l = .owner) ∧ n = 0
  | .lockTimedOutEmpty, l, n, _ => l = .owner ∧ n = 0
  | .condSleep c _ count, l, n, e | .condWait c _ count, l, n, e | .condTimedOut c count, l, n, e
  | .condResleep c count, l, n, e =>
    (l = .cond c ∨ l = .queue ∨ l = .owner) ∧ n = count + 1 ∧ e = count
  | .condReturn count, l, n, e => l = .owner ∧ n = count + 1 ∧ e = count
  | _, l, _, _ => l = .out

structure Thread where
  pc : Pc
  loc : Loc
  held : Nat
  entry : Nat
  signal : Bool
  asleep : Bool
  cancelSleep : Nat

def State.thread (s : State) (t : Tid) : Thread :=
  ⟨s.pc t, s.loc t, s.held t, s.entry t, s.sched.signal t, s.sched.asleep t, s.sched.cancelSleep t⟩

structure ThreadOk (x : Thread) : Prop where
  place : PlaceOk x.pc x.loc x.held x.entry
  signal : x.signal = true → x.loc = .owner ∧ x.pc.sleeps ∧ x.asleep = false
  asleep : x.asleep = true → x.pc.sleeps
  announces : x.cancelSleep ≠ 0 → x.pc.announces
  cancelled : x.cancelSleep = 2 → x.loc = .owner

structure OwnOk (owner : Option Tid) (lockCount : Nat) (t : Tid) (x : Thread) : Prop where
  handed : x.loc = .owner → owner = some t ∧ lockCount = 0
  holds : owner = some t → x.loc ≠ .owner → x.loc = .out ∧ x.held = lockCount + 1
  others : x.loc = .out → owner ≠ some t → x.held = 0
  locking : x.pc.locking → owner ≠ some t
  owning : x.pc.owning → owner = some t
  last : x.pc.last → lockCount = 0
  testing : x.pc.testing → owner = some t → x.entry = lockCount

/-- The list `sys_cond_signal_all` has detached from a condition variable. -/
def detached : Option (Tid × Crit) → CondId → List Tid
  | some (_, .signalAllLoop c' sq _), c => if c' = c then sq else []
  | _, _ => []

def State.condQueue (s : State) (c : CondId) : List Tid := s.cq c ++ detached s.mutex c

/-- The threads that were given the mutex in this critical section and are not woken yet. -/
def appended : Option (Tid × Crit) → List Tid
  | some (_, .condSleep _ _ _ ts) => ts
  | some (_, .signalAllLoop _ _ result) => result.toList
  | some (_, .awake u) => [u]
  | _ => []

def CritOk : Crit → Pc → Prop
  | .lockUnqueue, p => p = .lockTimedOutLock
  | .unlockReown, p => p = .unlockLock
  | .condEnter c timed, p => p = .condLock c timed
  | .condSleep c timed count _, p => p = .condSleep c timed count
  | .condCancel c count, p => p = .condTimedOut c count
  | .condResleep c count, p => p = .condResleep c count
  | .signal c, p => p = .signalLock c
  | .signalAll c, p | .signalAllLoop c _ _, p => p = .signalAllLock c
  | .signalTo c u, p => p = .signalToLock c u
  | .awake _, p => p = .unlockAwake ∨ (∃ c, p = .signalLock c) ∨ (∃ c, p = .signalAllLock c) ∨
      ∃ c u, p = .signalToLock c u

/-- A thread that was given the mutex and is still to be woken. -/
structure Unwoken (x : Thread) : Prop where
  loc : x.loc = .owner
  signal : x.signal = false
  cancelSleep : x.cancelSleep ≠ 2
  returns : ¬ x.pc.returns

structure Inv (s : State) : Prop where
  queue : Located s.sq s.loc .queue
  conds : ∀ c, Located (s.condQueue c) s.loc (.cond c)
  free : s.owner = none → s.sq = [] ∧ s.lockCount = 0
  thread : ∀ t, ThreadOk (s.thread t)
  own : ∀ t, OwnOk s.owner s.lockCount t (s.thread t)
  appended : ∀ t ∈ appended s.mutex, Unwoken (s.thread t)
  crit_ok : ∀ t k, s.mutex = some (t, k) → CritOk k (s.pc t)
  failed : s.failed = false

/-! ## Changes of one thread -/

variable {t : Tid} {x : Thread}

theorem OwnOk.other {owner owner' : Option Tid} {n n' : Nat}
    (h : OwnOk owner n t x) (hold : owner ≠ some t) (hnew : owner' ≠ some t) : OwnOk owner' n' t x where
  handed := fun hl => absurd (h.handed hl).1 hold
  holds := fun ho => absurd ho hnew
  others := fun hl _ => h.others hl hold
  locking := fun _ => hnew
  owning := fun hp => absurd (h.owning hp) hold
  last := by
    intro hp
    apply absurd (h.owning _) hold
    cases hpc : x.pc <;> rw [hpc] at hp <;> first | exact hp.elim | trivial
  testing := fun _ ho => absurd ho hnew

/-- What the step of a thread `t` has to keep. -/
structure Changed (s s' : State) (t : Tid) : Prop where
  others : ∀ u, u ≠ t → s'.thread u = s.thread u
  owner : ∀ u, u ≠ t → (s'.owner = some u ↔ s.owner = some u)
  count : ∀ u, u ≠ t → s.owner = some u → s'.lockCount = s.lockCount
  thread : ThreadOk (s'.thread t)
  own : OwnOk s'.owner s'.lockCount t (s'.thread t)

theorem Changed.threadOk {s s' : State} (hc : Changed s s' t)
    (h : ∀ u, ThreadOk (s.thread u)) (u : Tid) : ThreadOk (s'.thread u) := by
  by_cases hut : u = t
  · rw [hut]
    exact hc.thread
  · rw [hc.others u hut]
    exact h u

theorem Changed.ownOk {s s' : State} (hc : Changed s s' t)
    (h : ∀ u, OwnOk s.owner s.lockCount u (s.thread u)) (u : Tid) : OwnOk s'.owner s'.lockCount u (s'.thread u) := by
  by_cases hut : u = t
  · rw [hut]
    exact hc.own
  rw [hc.others u hut]
  by_cases ho : s.owner = some u
  · -- the owner is another thread: neither the word nor the count has changed
    rw [hc.count u hut ho, (hc.owner u hut).mpr ho, ← ho]
    exact h u
  · exact (h u).other ho (fun ho' => ho ((hc.owner u hut).mp ho'))

variable {p : Pc} {l : Loc}

theorem placeOk_of_not_blocked {n e : Nat} (hp : ¬ p.blocked) : PlaceOk p l n e ↔ l = .out := by
  cases p <;> first | exact Iff.rfl | exact absurd trivial hp

theorem Pc.blocked_of_sleeps (h : p.sleeps) : p.blocked := by
  cases p <;> first | exact h.elim | trivial

theorem Pc.blocked_of_announces (h : p.announces) : p.blocked := by
  cases p <;> first | exact h.elim | trivial

def Thread.flags (x : Thread) : Flags := ⟨x.signal, x.asleep, x.cancelSleep⟩

theorem ThreadOk.flags {x : Thread} (h : ThreadOk x) : FlagsOk x.flags x.pc.sleeps x.pc.announces (x.loc = .owner) :=
  { h with }

theorem ThreadOk.of_flags {x : Thread} (hp : PlaceOk x.pc x.loc x.held x.entry)
    (hf : FlagsOk x.flags x.pc.sleeps x.pc.announces (x.loc = .owner)) : ThreadOk x :=
  { hf with place := hp }

theorem threadOk_awake {n e : Nat} (hp : PlaceOk p l n e) : ThreadOk ⟨p, l, n, e, false, false, 0⟩ := .of_flags hp .rest

theorem threadOk_out (hp : ¬ p.blocked) (n e : Nat) : ThreadOk ⟨p, .out, n, e, false, false, 0⟩ :=
  threadOk_awake ((placeOk_of_not_blocked hp).mpr rfl)

section Frame

variable {s s' : State} (h : Inv s) {t : Tid} {p q : Pc} {g : Tid → CellError}
include h

theorem Inv.place (hpc : s.pc t = p) : PlaceOk p (s.loc t) (s.held t) (s.entry t) := hpc ▸ (h.thread t).place

theorem Inv.flags (hpc : s.pc t = p) (hs : ¬ p.sleeps) (ha : ¬ p.announces) :
    s.sched.signal t = false ∧ s.sched.asleep t = false ∧ s.sched.cancelSleep t = 0 := by
  subst hpc
  have hquiet := (h.thread t).flags.quiet hs
  exact ⟨hquiet.1, hquiet.2, (h.thread t).flags.cancelSleep_eq_zero ha⟩

theorem Inv.not_appended (hl : s.loc t ≠ .owner) : t ∉ Mutex.appended s.mutex := fun hin => hl (h.appended t hin).loc

theorem Inv.owner_ne_of_loc (hl : s.loc t ≠ .owner) (hout : s.loc t ≠ .out) : s.owner ≠ some t :=
  fun ho => hout ((h.own t).holds ho hl).1

theorem Inv.out (hpc : s.pc t = p) (hp : ¬ p.blocked) : s.loc t = .out ∧ t ∉ Mutex.appended s.mutex ∧
      s.sched.signal t = false ∧ s.sched.asleep t = false ∧ s.sched.cancelSleep t = 0 := by
  have hl := (placeOk_of_not_blocked hp).mp (h.place hpc)
  exact ⟨hl, h.not_appended (by rw [hl]; simp),
    h.flags hpc (fun hs => hp (Pc.blocked_of_sleeps hs)) fun hs => hp (Pc.blocked_of_announces hs)⟩

theorem Inv.crit_update (hfree : ∀ k, s.mutex ≠ some (t, k)) (p : Pc) :
    ∀ u k, s.mutex = some (u, k) → CritOk k (update s.pc t p u) :=
  Holder.moved h.crit_ok hfree p

theorem Inv.changed (x : Thread) (hself : s'.thread t = x) (hothers : ∀ u, u ≠ t → s'.thread u = s.thread u)
    (howner : ∀ u, u ≠ t → (s'.owner = some u ↔ s.owner = some u))
    (hcount : ∀ u, u ≠ t → s.owner = some u → s'.lockCount = s.lockCount) (hthread : ThreadOk x)
    (hown : OwnOk s'.owner s'.lockCount t x) (hqueue : Located s'.sq s'.loc .queue)
    (hconds : ∀ c, Located (s'.condQueue c) s'.loc (.cond c)) (hnone : s'.owner = none → s'.sq = [] ∧ s'.lockCount = 0)
    (happ : ∀ u, u ≠ t → u ∈ Mutex.appended s'.mutex → u ∈ Mutex.appended s.mutex)
    (hun : t ∈ Mutex.appended s'.mutex → Unwoken x) (hcrit : ∀ u k, s'.mutex = some (u, k) → CritOk k (s'.pc u))
    (hfailed : s'.failed = false) : Inv s' := by
  subst hself
  have hc : Changed s s' t := ⟨hothers, howner, hcount, hthread, hown⟩
  refine ⟨hqueue, hconds, hnone, hc.threadOk h.thread, hc.ownOk h.own, ?_, hcrit, hfailed⟩
  intro u hu
  by_cases hut : u = t
  · rw [hut] at hu ⊢
    exact hun hu
  · rw [hothers u hut]
    exact h.appended u (happ u hut hu)

/-- The schedulers agree on the other threads. -/
def SameBut (t : Tid) (x y : Sched) : Prop :=
  ∀ u, u ≠ t → x.signal u = y.signal u ∧ x.asleep u = y.asleep u ∧ x.cancelSleep u = y.cancelSleep u

theorem Inv.goto {sched : Sched} (hcrit : ∀ k, s.mutex = some (t, k) → CritOk k p) (hsched : SameBut t sched s.sched)
    (hthread : ThreadOk
      ⟨p, s.loc t, s.held t, s.entry t, sched.signal t, sched.asleep t, sched.cancelSleep t⟩)
    (hlocking : p.locking → s.owner ≠ some t) (howning : p.owning → s.owner = some t)
    (hlast : p.last → s.lockCount = 0)
    (htesting : p.testing → s.owner = some t → s.entry t = s.lockCount)
    (hunwoken : t ∈ Mutex.appended s.mutex → sched.signal t = false ∧ sched.cancelSleep t ≠ 2 ∧ ¬ p.returns) :
    Inv { s with sched := sched, pc := update s.pc t p, gpr3 := g } := by
  have hown := h.own t
  refine h.changed
    ⟨p, s.loc t, s.held t, s.entry t, sched.signal t, sched.asleep t, sched.cancelSleep t⟩ ?_ ?_ (fun _ _ => Iff.rfl)
    (fun _ _ _ => rfl) hthread ⟨hown.handed, hown.holds, hown.others, hlocking, howning, hlast, htesting⟩
    h.queue h.conds h.free (fun _ _ => id) ?_ ?_ h.failed
  · simp only [State.thread, update_self]
  · intro u hu
    have ⟨h1, h2, h3⟩ := hsched u hu
    simp only [State.thread, update_of_ne hu, h1, h2, h3]
  · intro ht
    have hnew := hunwoken ht
    exact ⟨(h.appended t ht).loc, hnew.1, hnew.2.1, hnew.2.2⟩
  · intro u k hm
    show CritOk k (update s.pc t p u)
    by_cases hut : u = t
    · rw [hut] at hm ⊢
      rw [update_self]
      exact hcrit k hm
    · rw [update_of_ne hut]
      exact h.crit_ok u k hm

theorem Inv.outside (hfree : ∀ k, s.mutex ≠ some (t, k)) (hpc : s.pc t = q) (hold : ¬ q.blocked)
    (hnew : ¬ p.blocked) (hlocking : p.locking → s.owner ≠ some t) (howning : p.owning → s.owner = some t)
    (hlast : p.last → s.lockCount = 0) (htesting : p.testing → s.owner = some t → s.entry t = s.lockCount) :
    Inv { s with pc := update s.pc t p, gpr3 := g } := by
  have ⟨hl, hun, hsig, hasl, hcan⟩ := h.out hpc hold
  apply h.goto (fun k hk => absurd hk (hfree k)) (fun u _ => ⟨rfl, rfl, rfl⟩) _ hlocking howning hlast htesting
  · exact fun ht => absurd ht hun
  · rw [hl, hsig, hasl, hcan]
    exact threadOk_out hnew _ _

/-! ## The internal mutex -/

theorem Inv.setMutex {m : Option (Tid × Crit)} (hdet : ∀ c, detached m c = detached s.mutex c)
    (happ : ∀ u ∈ Mutex.appended m, u ∈ Mutex.appended s.mutex)
    (hcrit : ∀ t k, m = some (t, k) → CritOk k (s.pc t)) : Inv { s with mutex := m } :=
  { h with
    conds := by
      intro c
      show Located (s.cq c ++ detached m c) s.loc (.cond c)
      rw [hdet c]
      exact h.conds c
    appended := fun u hu => h.appended u (happ u hu)
    crit_ok := hcrit }

theorem Inv.ret (hfree : ∀ k, s.mutex ≠ some (t, k)) (hpc : s.pc t = q) (hq : ¬ q.blocked) :
    Inv { s with pc := update s.pc t .idle, gpr3 := g } :=
  h.outside hfree hpc hq id False.elim False.elim False.elim False.elim

end Frame

def Crit.simple : Crit → Prop
  | .condSleep _ _ _ _ | .signalAllLoop _ _ _ | .awake _ => False
  | _ => True

theorem detached_simple {k : Crit} (hk : k.simple) (c : CondId) : detached (some (t, k)) c = [] := by
  cases k <;> first | exact hk.elim | rfl

theorem appended_simple {k : Crit} (hk : k.simple) : appended (some (t, k)) = [] := by
  cases k <;> first | exact hk.elim | rfl

section Lock

variable {s : State} (h : Inv s) {t : Tid} {k : Crit}
include h

theorem Inv.lock (hm : s.mutex = none) (hk : k.simple) (hcrit : CritOk k (s.pc t)) :
    Inv { s with mutex := some (t, k) } := by
  apply h.setMutex
  · intro c
    rw [hm]
    exact detached_simple hk c
  · intro u hu
    rw [appended_simple hk] at hu
    cases hu
  · exact Holder.entered hcrit

theorem Inv.setFree (hdet : ∀ c, detached s.mutex c = []) : Inv { s with mutex := none } :=
  h.setMutex (fun c => (hdet c).symm) (List.forall_mem_nil _) fun u k hu => by cases hu

theorem Inv.unlock (hm : s.mutex = some (t, k)) (hk : k.simple) : Inv { s with mutex := none } :=
  h.setFree fun c => by rw [hm, detached_simple hk]

theorem Inv.unlockRet {q : Pc} {g : Tid → CellError} (hm : s.mutex = some (t, k)) (hk : k.simple)
    (hpc : s.pc t = q) (hq : ¬ q.blocked) :
    Inv { s with mutex := none, pc := update s.pc t .idle, gpr3 := g } :=
  (h.unlock hm hk).ret nofun hpc hq

end Lock

/-! ## The owner -/

theorem Pc.not_locking_of_blocked (h : p.blocked) : ¬ p.locking ∧ ¬ p.owning ∧ ¬ p.last ∧ ¬ p.testing := by
  cases p <;> first | exact h.elim | exact ⟨id, id, id, id⟩

theorem threadOk_move (h : ThreadOk x) (hold : x.loc ≠ .owner)
    (hplace : PlaceOk x.pc l x.held x.entry) : ThreadOk { x with loc := l } where
  place := hplace
  signal := fun hs => absurd (h.signal hs).1 hold
  __ := h
  cancelled := fun hs => absurd (h.cancelled hs) hold

theorem unwoken_owner (h : ThreadOk x) (hold : x.loc ≠ .owner) (hreturns : ¬ x.pc.returns) :
    Unwoken { x with loc := .owner } := by
  refine ⟨rfl, ?_, fun hcan => hold (h.cancelled hcan), hreturns⟩
  by_contra hsig
  exact hold (h.signal (by simpa using hsig)).1

theorem ownOk_owner (hl : x.loc = .owner) (hp : x.pc.blocked) : OwnOk (some t) 0 t x := by
  have hnot := Pc.not_locking_of_blocked hp
  exact
  { handed := fun _ => ⟨rfl, rfl⟩
    holds := fun _ hne => absurd hl hne
    others := fun hout => by rw [hl] at hout; cases hout
    locking := fun hp => absurd hp hnot.1
    owning := fun hp => absurd hp hnot.2.1
    last := fun hp => absurd hp hnot.2.2.1
    testing := fun hp => absurd hp hnot.2.2.2 }

theorem ownOk_waits {owner : Option Tid} {n : Nat} (hl : x.loc ≠ .owner)
    (hout : x.loc ≠ .out) (hp : x.pc.blocked) (ho : owner ≠ some t) : OwnOk owner n t x := by
  have hnot := Pc.not_locking_of_blocked hp
  exact
  { handed := fun hl' => absurd hl' hl
    holds := fun ho' => absurd ho' ho
    others := fun hl' => absurd hl' hout
    locking := fun hp => absurd hp hnot.1
    owning := fun hp => absurd hp hnot.2.1
    last := fun hp => absurd hp hnot.2.2.1
    testing := fun hp => absurd hp hnot.2.2.2 }

theorem ownOk_idle {owner : Option Tid} {n m : Nat} (hl : x.loc = .out)
    (hp : x.pc = .idle) (hm : x.held = m) (hown : owner = some t → m = n + 1)
    (hnot : owner ≠ some t → m = 0) : OwnOk owner n t x where
  handed := fun hl' => by rw [hl] at hl'; cases hl'
  holds := fun ho _ => ⟨hl, hm.trans (hown ho)⟩
  others := fun _ ho => hm.trans (hnot ho)
  locking := fun hp' => by rw [hp] at hp'; exact hp'.elim
  owning := fun hp' => by rw [hp] at hp'; exact hp'.elim
  last := fun hp' => by rw [hp] at hp'; exact hp'.elim
  testing := fun hp' => by rw [hp] at hp'; exact hp'.elim

end Armsx3.Lv2.Mutex
