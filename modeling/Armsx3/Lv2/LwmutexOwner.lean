import Armsx3.Library.Located
import Armsx3.Lv2.Lwmutex
import Armsx3.Lv2.Sleeper

/-!
# Who has a lightweight mutex

While the owner word is `lwmutex_reserved` the mutex is in the hands of one of three: the thread that is unlocking it,
the stored signal, or a thread that has got it from the kernel; the history variable `token` says which.
-/

namespace Armsx3.Lv2.Lwmutex

open Function List

/-! ## The places of a thread -/

def Pc.sleeps : Pc → Prop
  | .sysWait _ => True
  | _ => False

def Pc.announces : Pc → Prop
  | .sysOwn _ | .sysSleep _ => True
  | _ => False

def Pc.blocked : Pc → Prop
  | .sysSleep _ | .sysWait _ | .sysTimedOut _ | .sysTimedOutEmpty _ | .sysTimedOutLock _ => True
  | _ => False

def Pc.committed : Pc → Prop
  | .sysLock _ | .sysOwn _ => True
  | p => p.blocked

/-- Between `all_info++` and `all_info--`. -/
def Pc.counted : Pc → Bool
  | .cas _ | .decLocked | .sysLock _ | .sysOwn _ | .sysSleep _ | .sysWait _ => true
  | .sysTimedOut _ | .sysTimedOutEmpty _ | .sysTimedOutLock _ => true
  | .retryReturn _ | .dec _ | .decTimedOut => true
  | _ => false

def Pc.owning : Pc → Prop
  | .unlockCas | .unlockRelease => True
  | _ => False

/-- In `_sys_lwmutex_unlock` or `_sys_lwmutex_unlock2`, before a thread is taken out of the queue or
the signal is stored. -/
def Pc.unlocking : Pc → Prop
  | .sysUnlock | .sysUnlockLoad | .sysUnlockCas _ | .sysUnlockLock => True
  | _ => False

/-- A thread that was taken out of the queue, or has taken the signal, and what the syscall tells
it. -/
def Released (a : Attr) (l : Loc) (e : CellError) : Prop :=
  (l = .granted ∧ e = .ok) ∨ (l = .woken ∧ e = .ebusy ∧ a.retry = true)

def Answered (a : Attr) (l : Loc) (e : CellError) : Prop :=
  Released a l e ∨ (l = .out ∧ e = .etimedout)

def Pass.Ok (a : Attr) (p : Pass) : Prop := p.retry = true → a.retry = true

/-- Where a thread can be in its wait, by the point its code has come to. -/
def PlaceOk (a : Attr) : Pc → Loc → CellError → Prop
  | .spin p _, l, _ | .spinCas p _, l, _ | .inc p, l, _ | .cas p, l, _ =>
    p.Ok a ∧ l = if p.retry then .woken else .out
  | .sysLock p, l, e | .sysOwn p, l, e => p.Ok a ∧ l = .out ∧ e = .ok
  | .sysSleep p, l, e | .sysWait p, l, e | .sysTimedOut p, l, e | .sysTimedOutLock p, l, e =>
    p.Ok a ∧ (Released a l e ∨ (l = .queue ∧ e = .ok))
  | .sysTimedOutEmpty p, l, e => p.Ok a ∧ Released a l e
  | .retryReturn _, l, e => a.retry = true ∧ Answered a l e
  | .dec p, l, e => p.Ok a ∧ Answered a l e
  | .exchange, l, _ | .tryExchange, l, _ => l = .granted
  | _, l, _ => l = .out

structure Thread where
  pc : Pc
  loc : Loc
  gpr3 : CellError
  held : Nat
  flags : Flags

def State.thread (s : State) (t : Tid) : Thread :=
  ⟨s.pc t, s.loc t, s.gpr3 t, s.held t, s.sched.flags t⟩

def Loc.released : Loc → Prop
  | .granted | .woken => True
  | _ => False

structure ThreadOk (a : Attr) (x : Thread) : Prop where
  place : PlaceOk a x.pc x.loc x.gpr3
  flags : FlagsOk x.flags x.pc.sleeps x.pc.announces x.loc.released

structure OwnOk (a : Attr) (owner : Owner) (token : Token) (count : Nat) (t : Tid) (x : Thread) :
    Prop where
  held : x.held = if owner = .thread t then count + 1 else 0
  owning : x.pc.owning → owner = .thread t ∧ count = 0
  granted : x.loc = .granted ↔ token = .thread t
  unlocking : a.retry = false → (x.pc.unlocking ↔ token = .unlocker t)

structure WordsOk (a : Attr) (owner : Owner) (token : Token) (count : Nat) (signaled : BitVec 32)
    (sq : List Tid) : Prop where
  reserved : owner = .reserved ↔ token ≠ .none
  signal : token = .signal ↔ signaled.getLsbD 0 = true
  retry : a.retry = true → token = .none
  value : signaled = 0 ∨ signaled = signalBit a.retry
  stored : signaled ≠ 0 → sq = []
  count : (∀ t, owner ≠ .thread t) → count = 0
  alive : owner ≠ .dead

/-- Somebody will come back to a mutex that is free, unless one who was to do so has given up. -/
def State.waking (s : State) : Prop :=
  s.signaled ≠ 0 ∨ (∃ u, (s.pc u).unlocking) ∨ (∃ u, s.loc u = .woken) ∨ s.gaveUp = true

def WakeOk (a : Attr) (s : State) : Prop :=
  s.owner = .free → ∀ t, (s.pc t).committed → a.retry = true ∧ s.waking

def Counted (waiter : Nat) (pc : Tid → Pc) : Prop :=
  ∃ ts : List Tid, Located ts (fun t => (pc t).counted) true ∧ waiter = ts.length

/-- The thread that was taken out of the queue in this critical section and is not woken yet. -/
def toWake : Option (Tid × Crit) → Option Tid
  | some (_, .awake u) => some u
  | _ => none

def CritOk : Crit → Pc → Prop
  | .unqueue p, q => q = .sysTimedOutLock p
  | .reown, q => q = .sysUnlockLock
  | .awake _, q => q = .sysUnlockAwake

structure Unwoken (x : Thread) : Prop where
  released : x.loc.released
  signal : x.flags.signal = false
  cancelSleep : x.flags.cancelSleep ≠ 2
  blocked : x.pc.blocked

structure Inv (a : Attr) (s : State) : Prop where
  queue : Located s.sq s.loc .queue
  counted : Counted s.waiter s.pc
  thread : ∀ t, ThreadOk a (s.thread t)
  own : ∀ t, OwnOk a s.owner s.token s.recursiveCount t (s.thread t)
  words : WordsOk a s.owner s.token s.recursiveCount s.signaled s.sq
  wake : WakeOk a s
  unwoken : ∀ t, toWake s.mutex = some t → Unwoken (s.thread t)
  crit_ok : ∀ t k, s.mutex = some (t, k) → CritOk k (s.pc t)
  failed : s.failed = false
  carried : s.carried = false

/-! ## Counting the waiters -/

theorem counted_update (pc : Tid → Pc) (t : Tid) (p : Pc) : (fun u => (update pc t p u).counted) =
      update (fun u => (pc u).counted) t p.counted :=
  Function.comp_update Pc.counted pc t p

namespace Counted

variable {n : Nat} {pc : Tid → Pc} {t : Tid} {p q : Pc} (h : Counted n pc)
include h

theorem goto (hpc : pc t = q) (hp : p.counted = q.counted) : Counted n (update pc t p) := by
  have ⟨ts, hts, hn⟩ := h
  refine ⟨ts, ?_, hn⟩
  rw [counted_update, hp, ← hpc]
  exact (update_eq_self t (fun u => (pc u).counted)).symm ▸ hts

theorem inc (hold : (pc t).counted = false) (hp : p.counted = true) : Counted (n + 1) (update pc t p) := by
  have ⟨ts, hts, hn⟩ := h
  refine ⟨t :: ts, ?_, by rw [length_cons, hn]⟩
  rw [counted_update, hp]
  exact hts.cons (by simp only [hold]; decide)

theorem dec (hold : (pc t).counted = true) (hp : p.counted = false) : Counted (n - 1) (update pc t p) := by
  have ⟨ts, hts, hn⟩ := h
  have ht := (hts.mem_iff t).mpr hold
  refine ⟨ts.erase t, ?_, by rw [length_erase_of_mem ht, hn]⟩
  rw [counted_update, hp]
  exact hts.remove (perm_cons_erase ht) (by decide)

theorem lt : n + 1 < 2 ^ 32 := by
  have ⟨ts, hts, hn⟩ := h
  have hlen := Tid.length_lt hts.nodup
  omega

theorem pos (ht : (pc t).counted = true) : 0 < n := by
  have ⟨ts, hts, hn⟩ := h
  rw [hn]
  exact length_pos_of_mem ((hts.mem_iff t).mpr ht)

end Counted

variable {p : Pc}

theorem Pc.counted_of_committed (h : p.committed) : p.counted = true := by
  cases p <;> first | exact h.elim | rfl

theorem Pc.blocked_of_sleeps (h : p.sleeps) : p.blocked := by
  cases p <;> first | exact h.elim | trivial

/-! ## Changes of one thread -/

variable {a : Attr} {t : Tid}

theorem OwnOk.congr {o o' : Owner} {k k' : Token} {n n' : Nat} {x : Thread}
    (h : OwnOk a o k n t x) (ho : o' = .thread t ↔ o = .thread t) (hn : o = .thread t → n' = n)
    (hk : k' = .thread t ↔ k = .thread t) (hu : k' = .unlocker t ↔ k = .unlocker t) : OwnOk a o' k' n' t x where
  held := by
    rw [h.held]
    by_cases hot : o = .thread t
    · rw [if_pos hot, if_pos (ho.mpr hot), hn hot]
    · rw [if_neg hot, if_neg (fun hot' => hot (ho.mp hot'))]
  owning := by
    intro hp
    have ⟨h1, h2⟩ := h.owning hp
    exact ⟨ho.mpr h1, by rw [hn h1, h2]⟩
  granted := h.granted.trans hk.symm
  unlocking := fun hr => (h.unlocking hr).trans hu.symm

structure Change (a : Attr) (s s' : State) (t : Tid) : Prop where
  others : ∀ u, u ≠ t → s'.thread u = s.thread u
  owner : ∀ u, u ≠ t → (s'.owner = .thread u ↔ s.owner = .thread u)
  count : ∀ u, u ≠ t → s.owner = .thread u → s'.recursiveCount = s.recursiveCount
  granted : ∀ u, u ≠ t → (s'.token = .thread u ↔ s.token = .thread u)
  unlocker : ∀ u, u ≠ t → (s'.token = .unlocker u ↔ s.token = .unlocker u)
  thread : ThreadOk a (s'.thread t)
  own : OwnOk a s'.owner s'.token s'.recursiveCount t (s'.thread t)
  mutex : s'.mutex = s.mutex
  free : ∀ k, s.mutex ≠ some (t, k)
  unwoken : toWake s.mutex = some t → Unwoken (s'.thread t)

variable {s s' : State}

theorem Change.inv (hc : Change a s s' t) (h : Inv a s)
    (hqueue : Located s'.sq s'.loc .queue) (hcounted : Counted s'.waiter s'.pc)
    (hwords : WordsOk a s'.owner s'.token s'.recursiveCount s'.signaled s'.sq)
    (hwake : WakeOk a s') (hfailed : s'.failed = false) (hcarried : s'.carried = false) : Inv a s' where
  queue := hqueue
  counted := hcounted
  thread := by
    intro u
    by_cases hut : u = t
    · rw [hut]
      exact hc.thread
    · rw [hc.others u hut]
      exact h.thread u
  own := by
    intro u
    by_cases hut : u = t
    · rw [hut]
      exact hc.own
    · rw [hc.others u hut]
      exact (h.own u).congr (hc.owner u hut) (hc.count u hut) (hc.granted u hut) (hc.unlocker u hut)
  words := hwords
  wake := hwake
  unwoken := by
    intro u hu
    rw [hc.mutex] at hu
    by_cases hut : u = t
    · rw [hut] at hu ⊢
      exact hc.unwoken hu
    · rw [hc.others u hut]
      exact h.unwoken u hu
  crit_ok := by
    intro u k hu
    rw [hc.mutex] at hu
    have hut : u ≠ t := fun hut => hc.free k (hut ▸ hu)
    have hpc : s'.pc u = s.pc u := congrArg Thread.pc (hc.others u hut)
    rw [hpc]
    exact h.crit_ok u k hu
  failed := hfailed
  carried := hcarried

theorem WakeOk.mono (h : WakeOk a s) (howner : s'.owner = .free → s.owner = .free)
    (hcommitted : ∀ u, (s'.pc u).committed → (s.pc u).committed) (hwaking : s.waking → s'.waking) : WakeOk a s' := by
  intro ho u hu
  have ⟨hr, hw⟩ := h (howner ho) u (hcommitted u hu)
  exact ⟨hr, hwaking hw⟩

theorem committed_update {pc : Tid → Pc} (h : p.committed → (pc t).committed)
    (u : Tid) (hu : (update pc t p u).committed) : (pc u).committed := by
  by_cases hut : u = t
  · rw [hut, update_self] at hu
    rw [hut]
    exact h hu
  · rw [update_of_ne hut] at hu
    exact hu

theorem unlocking_update {pc : Tid → Pc} (h : (pc t).unlocking → p.unlocking)
    (u : Tid) (hu : (pc u).unlocking) : (update pc t p u).unlocking := by
  by_cases hut : u = t
  · rw [hut, update_self]
    exact h (hut ▸ hu)
  · rw [update_of_ne hut]
    exact hu

theorem woken_update {loc : Tid → Loc} {l : Loc} (h : loc t ≠ .woken) (u : Tid)
    (hu : loc u = .woken) : update loc t l u = .woken := by
  have hut : u ≠ t := fun hut => h (hut ▸ hu)
  rw [update_of_ne hut]
  exact hu

theorem State.waking.mono (h : s.waking) (hs : s'.signaled = s.signaled)
    (hu : ∀ u, (s.pc u).unlocking → (s'.pc u).unlocking)
    (hl : ∀ u, s.loc u = .woken → s'.loc u = .woken) (hg : s.gaveUp = true → s'.gaveUp = true) : s'.waking := by
  rcases h with hw | ⟨u, hw⟩ | ⟨u, hw⟩ | hw
  · exact .inl (hs ▸ hw)
  · exact .inr (.inl ⟨u, hu u hw⟩)
  · exact .inr (.inr (.inl ⟨u, hl u hw⟩))
  · exact .inr (.inr (.inr (hg hw)))

section Frame

variable {a : Attr} {s s' : State} (h : Inv a s) {t : Tid} {p q : Pc} {n : Nat} {g : Tid → CellError}
include h

theorem Inv.place (hpc : s.pc t = q) : PlaceOk a q (s.loc t) (s.gpr3 t) := by
  rw [← hpc]
  exact (h.thread t).place

theorem Inv.flags_rest (hpc : s.pc t = q) (hs : ¬ q.sleeps) (ha : ¬ q.announces) : s.sched.flags t = .rest := by
  rw [← hpc] at hs ha
  exact (h.thread t).flags.eq_rest hs ha

theorem Inv.flags_quiet (hpc : s.pc t = q) (hs : ¬ q.sleeps) : s.sched.signal t = false ∧ s.sched.asleep t = false := by
  rw [← hpc] at hs
  exact (h.thread t).flags.quiet hs

theorem Inv.quiet (hpc : s.pc t = q) (hq : ¬ q.blocked ∧ ¬ q.announces) :
    s.sched.flags t = .rest ∧ toWake s.mutex ≠ some t :=
  ⟨h.flags_rest hpc (mt Pc.blocked_of_sleeps hq.1) hq.2, fun ht => hq.1 (hpc ▸ (h.unwoken t ht).blocked)⟩

theorem Inv.changed (x : Thread) (hfree : ∀ k, s.mutex ≠ some (t, k)) (hmutex : s'.mutex = s.mutex)
    (hself : s'.thread t = x) (hothers : ∀ u, u ≠ t → s'.thread u = s.thread u) (hthread : ThreadOk a x)
    (hown : OwnOk a s'.owner s'.token s'.recursiveCount t x) (hunwoken : toWake s.mutex = some t → Unwoken x)
    (howner : ∀ u, u ≠ t → (s'.owner = .thread u ↔ s.owner = .thread u))
    (hcount : ∀ u, u ≠ t → s.owner = .thread u → s'.recursiveCount = s.recursiveCount)
    (htoken : ∀ u, u ≠ t → (s'.token = .thread u ↔ s.token = .thread u) ∧
      (s'.token = .unlocker u ↔ s.token = .unlocker u))
    (hqueue : Located s'.sq s'.loc .queue) (hcounted : Counted s'.waiter s'.pc)
    (hwords : WordsOk a s'.owner s'.token s'.recursiveCount s'.signaled s'.sq)
    (hwake : WakeOk a s') (hfailed : s'.failed = false) (hcarried : s'.carried = false) : Inv a s' := by
  subst hself
  exact Change.inv ⟨hothers, howner, hcount, fun u hu => (htoken u hu).1, fun u hu => (htoken u hu).2, hthread, hown,
    hmutex, hfree, hunwoken⟩ h hqueue hcounted hwords hwake hfailed hcarried

theorem Inv.goto {sched : Sched} (hpc : s.pc t = q)
    (hfree : ∀ k, s.mutex ≠ some (t, k)) (hsched : ∀ u, u ≠ t → sched.flags u = s.sched.flags u)
    (hg : ∀ u, u ≠ t → g u = s.gpr3 u)
    (hthread : ThreadOk a ⟨p, s.loc t, g t, s.held t, sched.flags t⟩)
    (hcounted : Counted n (update s.pc t p))
    (howning : p.owning → s.owner = .thread t ∧ s.recursiveCount = 0)
    (hunlocking : p.unlocking ↔ q.unlocking) (hcommitted : p.committed → q.committed)
    (hunwoken : toWake s.mutex = some t →
      (sched.flags t).signal = false ∧ (sched.flags t).cancelSleep ≠ 2 ∧ p.blocked) :
    Inv a { s with waiter := n, sched := sched, pc := update s.pc t p, gpr3 := g } := by
  subst hpc
  have hown := h.own t
  refine h.changed ⟨p, s.loc t, g t, s.held t, sched.flags t⟩ hfree rfl ?_ ?_ hthread ?_ ?_ (fun _ _ => Iff.rfl)
    (fun _ _ _ => rfl) (fun _ _ => ⟨Iff.rfl, Iff.rfl⟩) h.queue hcounted h.words ?_ h.failed h.carried
  · simp only [State.thread, update_self]
  · intro u hu
    simp only [State.thread, update_of_ne hu, hsched u hu, hg u hu]
  · exact ⟨hown.held, howning, hown.granted, fun hr => hunlocking.trans (hown.unlocking hr)⟩
  · intro hu
    have ⟨h1, h2, h3⟩ := hunwoken hu
    exact ⟨(h.unwoken t hu).released, h1, h2, h3⟩
  · apply h.wake.mono
    · exact id
    · exact committed_update hcommitted
    · exact fun hw => hw.mono rfl (unlocking_update hunlocking.mpr) (fun _ => id) id

theorem Inv.outside (hpc : s.pc t = q) (hfree : ∀ k, s.mutex ≠ some (t, k))
    (hq : ¬ q.blocked ∧ ¬ q.announces) (hg : ∀ u, u ≠ t → g u = s.gpr3 u)
    (hplace : PlaceOk a p (s.loc t) (g t)) (hcounted : Counted n (update s.pc t p))
    (howning : p.owning → s.owner = .thread t ∧ s.recursiveCount = 0)
    (hunlocking : p.unlocking ↔ q.unlocking) (hcommitted : p.committed → q.committed) :
    Inv a { s with waiter := n, pc := update s.pc t p, gpr3 := g } := by
  have ⟨hrest, hwoken⟩ := h.quiet hpc hq
  apply h.goto hpc hfree (fun _ _ => rfl) hg _ hcounted howning hunlocking hcommitted
  · exact fun ht => absurd ht hwoken
  · rw [hrest]
    exact ⟨hplace, .rest⟩

end Frame

end Armsx3.Lv2.Lwmutex
