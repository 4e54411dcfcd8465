import Armsx3.Cell.SpuMailbox

/-!
# SpuMailboxSafety — the mailbox is a queue of four entries

The log of the calls is replayed on a queue, and the invariant relates the queue to the words of the mailbox.  The
fourth entry is the difficult one: from the moment at which a push writes `value3` until it updates the word, the
entry that the queue still has is no longer stored.
-/

namespace Armsx3.Cell

open History MailboxCall List Transition Option Bool MailboxCall Mailbox

/-! ## The queue in the words -/

/-- The queue `q` as the words have it; a push at the word has overwritten the fourth entry. -/
def Entries (w : SyncVar) (value3 : BitVec 32) (atWord : Bool) (q : List (BitVec 32)) : Prop :=
  (w.count = 0 ∧ q = []) ∨ (w.count = 1 ∧ q = [w.value0]) ∨ (w.count = 2 ∧ q = [w.value0, w.value1]) ∨
    (w.count = 3 ∧ q = [w.value0, w.value1, w.value2]) ∨
    (w.count = 4 ∧ ∃ d, q = [w.value0, w.value1, w.value2, d] ∧ (atWord = false → d = value3))

namespace Entries

variable {w : SyncVar} {v x : BitVec 32} {b : Bool} {q : List (BitVec 32)}

section

variable (h : Entries w v b q)
include h

theorem length_eq : q.length = w.count := by
  rcases h with ⟨hc, rfl⟩ | ⟨hc, rfl⟩ | ⟨hc, rfl⟩ | ⟨hc, rfl⟩ | ⟨hc, _, rfl, _⟩ <;> rw [hc] <;> rfl

theorem eq_nil (hc : w.count = 0) : q = [] := by
  rw [← length_eq_zero_iff, h.length_eq, hc]

theorem ne_nil (hc : w.count ≠ 0) : q ≠ [] := by
  intro hq
  apply hc
  rw [← h.length_eq, hq]
  rfl

theorem write (v' : BitVec 32) : Entries w v' true q := by
  rcases h with h | h | h | h | ⟨hc, d, hq, _⟩
  · exact .inl h
  · exact .inr (.inl h)
  · exact .inr (.inr (.inl h))
  · exact .inr (.inr (.inr (.inl h)))
  · exact .inr (.inr (.inr (.inr ⟨hc, d, hq, nofun⟩)))

end

theorem fourth (h : Entries w v false q) (hc : w.count = 4) : q[3]? = some v := by
  rcases h with h | h | h | h | ⟨_, d, rfl, hd⟩
  · omega
  · omega
  · omega
  · omega
  · rw [← hd rfl]
    rfl

theorem push (h : Entries w v true q) :
    ∃ q', apply q (.push v w.count (min (w.count + 1) 4)) = some q' ∧ Entries (w.pushed v) v false q' := by
  have hlen := h.length_eq
  have happly : apply q (.push v w.count (min (w.count + 1) 4)) =
      some (if q.length < 4 then q ++ [v] else q.dropLast ++ [v]) := by
    rw [← hlen]
    exact if_pos ⟨rfl, rfl⟩
  refine ⟨_, happly, ?_⟩
  unfold SyncVar.pushed
  rcases h with ⟨hc, rfl⟩ | ⟨hc, rfl⟩ | ⟨hc, rfl⟩ | ⟨hc, rfl⟩ | ⟨hc, d, rfl, _⟩
  · rw [hc]
    exact .inr (.inl ⟨rfl, rfl⟩)
  · rw [hc]
    exact .inr (.inr (.inl ⟨rfl, rfl⟩))
  · rw [hc]
    exact .inr (.inr (.inr (.inl ⟨rfl, rfl⟩)))
  · rw [hc]
    exact .inr (.inr (.inr (.inr ⟨rfl, v, rfl, fun _ => rfl⟩)))
  · rw [hc]
    exact .inr (.inr (.inr (.inr ⟨rfl, v, rfl, fun _ => rfl⟩)))

theorem pop (h : Entries w v b q) (hc : w.count ≠ 0) (hx : w.count = 4 → q[3]? = some x) :
    ∃ q', apply q (.read (.pop w.count w.value0)) = some q' ∧ Entries (w.popped x) v b q' := by
  have happly : ∀ q', w.count = q'.length + 1 → apply (w.value0 :: q') (.read (.pop w.count w.value0)) = some q' :=
    fun q' hlen => if_pos ⟨hlen, rfl⟩
  have hcount : (w.popped x).count = w.count - 1 := rfl
  rcases h with ⟨h, _⟩ | ⟨h, rfl⟩ | ⟨h, rfl⟩ | ⟨h, rfl⟩ | ⟨h, d, rfl, _⟩
  · exact absurd h hc
  · refine ⟨[], happly _ h, .inl ⟨?_, rfl⟩⟩
    rw [hcount, h]
  · refine ⟨[w.value1], happly _ h, .inr (.inl ⟨?_, rfl⟩)⟩
    rw [hcount, h]
  · refine ⟨[w.value1, w.value2], happly _ h, .inr (.inr (.inl ⟨?_, rfl⟩))⟩
    rw [hcount, h]
  · have hd := some.inj (hx h)
    subst hd
    refine ⟨[w.value1, w.value2, d], happly _ h, .inr (.inr (.inr (.inl ⟨?_, rfl⟩)))⟩
    rw [hcount, h]

end Entries

namespace SyncVar

variable (w : SyncVar) (v : BitVec 32)

theorem pushed_bits : (w.pushed v).occupy = w.occupy ∧ (w.pushed v).wait = w.wait := by
  unfold pushed
  split <;> exact ⟨rfl, rfl⟩

theorem pushed_count : (w.pushed v).count = 4 → 3 ≤ w.count := by
  unfold pushed
  split
  · exact nofun
  · exact nofun
  · exact nofun
  next h0 h1 h2 =>
    have : w.count ≠ 0 ∧ w.count ≠ 1 ∧ w.count ≠ 2 := ⟨h0, h1, h2⟩
    omega

theorem pushed_inval : (w.pushed v).value3Inval = if w.count < 3 then w.value3Inval else w.value3Inval + 1 := by
  unfold pushed
  split
  next h =>
    rw [h]
    rfl
  next h =>
    rw [h]
    rfl
  next h =>
    rw [h]
    rfl
  next h0 h1 h2 =>
    have : w.count ≠ 0 ∧ w.count ≠ 1 ∧ w.count ≠ 2 := ⟨h0, h1, h2⟩
    rw [if_neg (by omega)]

end SyncVar

/-! ## The points of the calls of the SPU -/

structure MailboxView where
  values : SyncVar
  jostlingValue : Option (BitVec 32)
  delivered : Option MailboxRead
  pusher : MailboxPush
  fulls : Nat
  queue : List (BitVec 32)

variable {value : BitVec 32} {oldCount : Nat} {oldWait : Bool} {fulls : Nat}

namespace MailboxView

/-- No call waits; a waiting bit that is left belongs to the push that served an aborted call. -/
def Calm (m : MailboxView) : Prop :=
  m.delivered = none ∧ (m.values.wait = true → m.pusher.clearing = true ∧ m.values.count = 0) ∧
    (m.jostlingValue = none → m.pusher.jostling = false)

def Offered (m : MailboxView) : Prop :=
  m.jostlingValue = none ∧ m.delivered = none ∧ m.values.occupy = true ∧ m.values.count = 0 ∧ m.pusher.clearing = false

def Served (m : MailboxView) : Prop :=
  ∃ v, m.jostlingValue = some v ∧ m.delivered = some (.pop 1 v) ∧
    (m.values.wait = true → m.pusher.clearing = true ∧ m.values.count = 0)

def Peeking (m : MailboxView) : Prop :=
  m.values.occupy = false ∧ m.pusher.jostling = false ∧
    (m.delivered = none ∧ m.values.wait = true ∧ m.values.count = 0 ∧ m.pusher.clearing = false ∨
      m.delivered = some (.peek 1) ∧ (m.values.wait = true → m.pusher.clearing = true))

def Read (m : MailboxView) (old : SyncVar) (fulls : Nat) : Prop :=
  fulls ≤ m.fulls ∧ old.value3Inval = BitVec.ofNat 16 fulls

def At (m : MailboxView) : MailboxSpu → Prop
  | .out => m.Calm
  | .loaded _ old fulls => m.Calm ∧ m.Read old fulls
  | .evaluated call old fulls value3 => m.Calm ∧ m.Read old fulls ∧
      (call.pops = true → old.count = 4 → m.values = old → m.fulls = fulls → m.queue[3]? = some value3) ∧
      (old.count = 0 → ∀ popValue, call = .popWait popValue →
        m.pusher.jostling = false ∧ m.pusher.clearing = false ∧ (popValue = true → m.jostlingValue = none))
  | .waiting true | .aborting => m.Offered ∨ m.Served
  | .waiting false | .exchanging false => m.Peeking
  | .take true => ∃ v, m.jostlingValue = some v ∧ m.delivered = some (.pop 1 v) ∧ m.values.wait = false
  | .take false => m.delivered = some (.peek 1) ∧ m.values.wait = false ∧ m.pusher.jostling = false
  | .exchanging true => (∃ v, m.jostlingValue = some v) ∧ m.delivered = none ∧ m.values.occupy = true ∧
      m.values.count = 0 ∧ m.pusher.clearing = false

variable {m : MailboxView} {spu : MailboxSpu}

theorem At.move {p : MailboxPush} (h : m.At spu) (hp : p.clearing = m.pusher.clearing)
    (hj : p.jostling = false ∨ m.values.occupy = true ∧ m.values.wait = true ∧ p.clearing = false) :
    { m with pusher := p }.At spu := by
  cases spu with
  | waiting popValue | take popValue | exchanging popValue =>
    cases popValue <;> simp only [At, Offered, Served, Peeking] at h ⊢ <;> grind
  | out | loaded | evaluated | aborting =>
    simp only [At, Calm, Offered, Served, Read] at h ⊢
    grind

theorem At.pending (h : m.At spu) :
    (m.jostlingValue = none → m.pusher.jostling = true → (spu = .waiting true ∨ spu = .aborting) ∧ m.Offered) ∧
      (m.values.wait = true → m.pusher.clearing = false → m.values.count = 0 ∧ (m.values.occupy = false →
        (spu = .waiting false ∨ spu = .exchanging false) ∧ m.delivered = none)) := by
  cases spu with
  | waiting popValue | take popValue | exchanging popValue =>
    cases popValue <;> simp only [At, Offered, Served, Peeking] at h ⊢ <;> grind
  | out | loaded | evaluated | aborting =>
    simp only [At, Calm, Offered, Served, Read] at h ⊢
    grind

theorem At.clear (h : m.At spu) (hw : m.values.wait = true) (hc : m.pusher.clearing = true) :
    { m with values := m.values.released, pusher := .out }.At spu := by
  have ho : MailboxPush.out.jostling = false := rfl
  cases spu with
  | waiting popValue | take popValue | exchanging popValue =>
    cases popValue <;> simp only [At, Offered, Served, Peeking, SyncVar.released] at h ⊢ <;> grind
  | out | loaded | evaluated | aborting =>
    simp only [At, Calm, Offered, Served, Read, SyncVar.released] at h ⊢
    grind

theorem At.pushed {v : BitVec 32} {q : List (BitVec 32)} (h : m.At spu) (ho : m.values.occupy = false)
    (hw : m.values.wait = false) (hf : fulls = if m.values.count < 3 then m.fulls else m.fulls + 1) :
    { m with values := m.values.pushed v, fulls := fulls, queue := q, pusher := .out }.At spu := by
  have ⟨hpo, hpw⟩ := m.values.pushed_bits v
  have hpc := m.values.pushed_count v
  have hle : m.fulls ≤ fulls := by
    rw [hf]
    split <;> omega
  have hj : MailboxPush.out.jostling = false := rfl
  cases spu with
  | waiting popValue | take popValue | exchanging popValue =>
    cases popValue <;> simp only [At, Offered, Served, Peeking] at h ⊢ <;> grind
  | out | loaded | aborting =>
    simp only [At, Calm, Offered, Served, Read] at h ⊢
    grind
  | evaluated call old fulls0 =>
    have ⟨⟨hd, _, hjv⟩, ⟨hlo, hinv⟩, _, hwait⟩ := h
    refine ⟨⟨hd, fun hw' => ?_, fun _ => rfl⟩, ⟨Nat.le_trans hlo hle, hinv⟩, ?_, fun h0 popValue hcall => ?_⟩
    · exact absurd ((hpw.trans hw).symm.trans hw') (by decide)
    · -- a word that is full after the push was counted, so it is not the one that was read
      intro _ h4 heq hfulls
      have heq : m.values.pushed v = old := heq
      have hfulls : fulls = fulls0 := hfulls
      have hge := hpc (by rw [heq]; exact h4)
      rw [if_neg (by omega)] at hf
      omega
    · exact ⟨rfl, rfl, (hwait h0 popValue hcall).2.2⟩

end MailboxView

/-! ## The invariant -/

namespace Mailbox

variable {s s' : Mailbox} {q : List (BitVec 32)}

def view (s : Mailbox) (q : List (BitVec 32)) : MailboxView where
  values := s.values
  jostlingValue := s.jostlingValue
  delivered := s.delivered
  pusher := s.pusher
  fulls := s.fulls
  queue := q

structure Words (s : Mailbox) (q : List (BitVec 32)) : Prop where
  entries : Entries s.values s.value3 s.pusher.atWord q
  inval : s.values.value3Inval = BitVec.ofNat 16 s.fulls
  occupyWait : s.values.occupy = true → s.values.wait = true
  atWord : ∀ v, s.pusher = .word v → s.value3 = v
  jostle : ∀ v oldCount oldWait, s.pusher = .jostle v oldCount oldWait → oldCount = 0 ∧ oldWait = true
  clearing : s.pusher.clearing = true → s.values.wait = true

structure Logged (s : Mailbox) (q : List (BitVec 32)) : Prop where
  sequential : replay apply [] s.log = some q
  pushes : s.log.filterMap pushValue ++ s.pusher.owed.toList = s.issued
  pushReturned : s.log.filterMap pushResult = s.pushResults ++ s.pusher.result.toList
  readReturned : s.log.filterMap readResult = s.results ++ s.delivered.toList

structure Inv (s : Mailbox) (q : List (BitVec 32)) : Prop where
  refused : s.refused = false
  words : s.Words q
  logged : s.Logged q
  point : (s.view q).At s.spu

theorem inv_init : Inv {} [] where
  refused := rfl
  words := ⟨.inl ⟨rfl, rfl⟩, rfl, nofun, nofun, nofun,
    nofun⟩
  logged := ⟨rfl, rfl, rfl, rfl⟩
  point := ⟨rfl, nofun, nofun⟩

/-! ## The steps of `push` -/

theorem Inv.startPush (h : Inv s q) (hs : s.startPush value = some s') : ∃ q', Inv s' q' := by
  unfold Mailbox.startPush at hs
  split at hs
  next hp =>
    cases hs
    have hpush := h.logged.pushes
    have hret := h.logged.pushReturned
    have hentries := h.words.entries
    rw [hp] at hpush hret hentries
    refine ⟨q, h.refused, ⟨hentries, h.words.inval, h.words.occupyWait, nofun,
      nofun, nofun⟩, ⟨h.logged.sequential, ?_, hret, h.logged.readReturned⟩, ?_⟩
    · rw [← hpush]
      exact congrArg (· ++ [value]) (append_nil _).symm
    · apply h.point.move _ (.inl rfl)
      rw [view, hp]
      rfl
  · cases hs

theorem Inv.writeValue3 (h : Inv s q) (hp : s.pusher = .start value) :
    Inv { s with value3 := value, pusher := .word value } q := by
  have hpush := h.logged.pushes
  have hret := h.logged.pushReturned
  rw [hp] at hpush hret
  refine ⟨h.refused, ⟨h.words.entries.write value, h.words.inval, h.words.occupyWait, ?_, nofun,
    nofun⟩, ⟨h.logged.sequential, hpush, hret, h.logged.readReturned⟩, ?_⟩
  · intro v hv
    injection hv
  · apply h.point.move _ (.inl rfl)
    rw [view, hp]
    rfl

theorem Inv.enterJostle (h : Inv s q) (hp : s.pusher = .word value)
    (ho : s.values.occupy = true) : Inv { s with pusher := .jostle value s.values.count s.values.wait } q := by
  have hpush := h.logged.pushes
  have hret := h.logged.pushReturned
  rw [hp] at hpush hret
  have hw := h.words.occupyWait ho
  have hc : (s.view q).pusher.clearing = false := by
    rw [view, hp]
    rfl
  have hcount := (h.point.pending.2 hw hc).1
  refine ⟨h.refused, ⟨?_, h.words.inval, h.words.occupyWait, nofun, ?_, nofun⟩,
    ⟨h.logged.sequential, hpush, hret, h.logged.readReturned⟩,
    h.point.move hc.symm (.inr ⟨ho, hw, rfl⟩)⟩
  · -- the queue is empty, so `value3` holds no entry
    exact .inl ⟨hcount, h.words.entries.eq_nil hcount⟩
  · intro v oldCount oldWait heq
    injection heq with _ hc' hw'
    exact ⟨hc' ▸ hcount, hw' ▸ hw⟩

theorem Inv.retry (h : Inv s q)
    (hp : s.pusher = .jostle value oldCount oldWait) : Inv { s with pusher := .start value } q := by
  have hpush := h.logged.pushes
  have hret := h.logged.pushReturned
  have hentries := h.words.entries
  rw [hp] at hpush hret hentries
  refine ⟨h.refused, ⟨hentries, h.words.inval, h.words.occupyWait, nofun, nofun,
    nofun⟩, ⟨h.logged.sequential, hpush, hret, h.logged.readReturned⟩, ?_⟩
  apply h.point.move _ (.inl rfl)
  rw [view, hp]
  rfl

theorem filterMap_concat {α β : Type} (f : α → Option β) (log : List α) (a : α) :
    (log ++ [a]).filterMap f = log.filterMap f ++ (f a).toList := by
  rw [filterMap_append]
  congr 1

theorem Logged.push (h : s.Logged q) {c : Nat} (ho : s.pusher.owed = some value)
    (hr : s.pusher.result = none) {q' : List (BitVec 32)}
    (happly : apply q (.push value c (min (c + 1) 4)) = some q') :
    let log := s.log ++ [.push value c (min (c + 1) 4)]
    replay apply [] log = some q' ∧ log.filterMap pushValue = s.issued ∧
      log.filterMap pushResult = s.pushResults ++ [(c, min (c + 1) 4)] ∧
      log.filterMap readResult = s.results ++ s.delivered.toList := by
  refine ⟨replay_concat h.sequential happly, ?_, ?_, ?_⟩
  · rw [filterMap_concat, ← h.pushes, ho]
    rfl
  · rw [filterMap_concat, h.pushReturned, hr]
    exact congrArg (· ++ [(c, min (c + 1) 4)]) (append_nil _)
  · rw [filterMap_concat, h.readReturned]
    exact append_nil _

theorem filterMap_read (log : List MailboxCall) (r : MailboxRead) :
    filterMap pushValue (log ++ [.read r]) = log.filterMap pushValue ∧
      filterMap pushResult (log ++ [.read r]) = log.filterMap pushResult ∧
      filterMap readResult (log ++ [.read r]) = log.filterMap readResult ++ [r] := by
  refine ⟨?_, ?_, ?_⟩
  · rw [filterMap_concat]
    exact append_nil _
  · rw [filterMap_concat]
    exact append_nil _
  · rw [filterMap_concat]
    rfl

theorem Inv.pushWord (h : Inv s q) (hp : s.pusher = .word value)
    (ho : s.values.occupy = false) : ∃ q', Inv (s.pushWord value) q' := by
  have hv3 := h.words.atWord value hp
  have hentries := h.words.entries
  rw [hp, hv3] at hentries
  have ⟨q', happly, hentries'⟩ := hentries.push
  have ⟨hseq, hpush, hret, hread⟩ := h.logged.push (by rw [hp]; rfl) (by rw [hp]; rfl) happly
  have ⟨hpo, hpw⟩ := s.values.pushed_bits value
  have hinval : (s.values.pushed value).value3Inval =
      BitVec.ofNat 16 (if s.values.count < 3 then s.fulls else s.fulls + 1) := by
    rw [s.values.pushed_inval value, h.words.inval]
    split
    · rfl
    · exact (BitVec.ofNat_add s.fulls 1).symm
  have hocc : (s.values.pushed value).occupy = true → (s.values.pushed value).wait = true := by
    intro hocc
    rw [hpo, ho] at hocc
    cases hocc
  unfold Mailbox.pushWord
  cases hw : s.values.wait with
  | false =>
    refine ⟨q', h.refused, ⟨?_, hinval, hocc, nofun, nofun, nofun⟩, ⟨hseq, ?_, ?_, hread⟩, h.point.pushed ho hw rfl⟩
    · rw [if_neg (by decide)]
      rw [hv3]
      exact hentries'
    · exact (append_nil _).trans hpush
    · exact hret.trans (append_nil _).symm
  | true =>
    have hc : (s.view q).pusher.clearing = false := by
      rw [view, hp]
      rfl
    have ⟨hcount, hpeeking⟩ := h.point.pending.2 hw hc
    have ⟨hspu, hd⟩ := hpeeking ho
    have hd : s.delivered = none := hd
    have hcount : s.values.count = 0 := hcount
    have hlen : (s.values.pushed value).count = 1 := by
      rw [SyncVar.pushed, hcount]
      rfl
    have ⟨hv, hr, hrd⟩ := filterMap_read (s.log ++ [.push value s.values.count (min (s.values.count + 1) 4)]) (.peek 1)
    have hpeek : MailboxCall.apply q' (.read (.peek 1)) = some q' := by
      apply if_pos
      refine ⟨?_, hentries'.ne_nil (by rw [hlen]; decide)⟩
      rw [hentries'.length_eq, hlen]
    refine ⟨q', h.refused, ⟨?_, hinval, hocc, nofun, nofun, fun _ => hpw.trans hw⟩,
      ⟨replay_concat hseq hpeek, ?_, ?_, ?_⟩, ?_⟩
    · rw [hv3]
      exact hentries'
    · exact (append_nil _).trans (hv.trans hpush)
    · exact hr.trans hret
    · refine hrd.trans ?_
      rw [hread, hd]
      exact congrArg (· ++ [MailboxRead.peek 1]) (append_nil _)
    · -- the SPU that waited for the count has seen it
      have hpoint : MailboxView.Peeking { s.view q' with
            values := s.values.pushed value, delivered := some (.peek 1), pusher := .clear s.values.count,
            fulls := if s.values.count < 3 then s.fulls else s.fulls + 1 } :=
        ⟨hpo.trans ho, rfl, .inr ⟨rfl, fun _ => rfl⟩⟩
      rcases hspu with hspu | hspu
      · rw [hspu]
        exact hpoint
      · rw [hspu]
        exact hpoint

theorem Inv.pushJostling (h : Inv s q) (hp : s.pusher = .jostle value oldCount oldWait) (hn : s.jostlingValue = none) :
    Inv (s.pushJostling value oldCount oldWait) q := by
  have ⟨hold, hwait⟩ := h.words.jostle value oldCount oldWait hp
  subst hold hwait
  have ⟨hspu, _, hd, ho, hcount, _⟩ := h.point.pending.1 hn (by rw [view, hp]; rfl)
  have hq := h.words.entries.eq_nil hcount
  subst hq
  have happly : apply [] (.push value 0 (min (0 + 1) 4)) = some [value] := rfl
  have ⟨hseq, hpush, hret, hread⟩ := h.logged.push (by rw [hp]; rfl) (by rw [hp]; rfl) happly
  have hread : filterMap readResult (s.log ++ [.push value 0 1]) = s.results ++ [] := by
    rw [show s.delivered = none from hd] at hread
    exact hread
  have ⟨hv, hr, hrd⟩ := filterMap_read (s.log ++ [.push value 0 1]) (.pop 1 value)
  have hlog : s.log ++ [.push value 0 1] ++ [.read (.pop 1 value)] =
      s.log ++ [.push value 0 1, .read (.pop 1 value)] := append_assoc ..
  rw [hlog] at hv hr hrd
  have hpop : apply [value] (.read (.pop 1 value)) = some [] := if_pos ⟨rfl, rfl⟩
  refine ⟨h.refused, ⟨.inl ⟨hcount, rfl⟩, h.words.inval, h.words.occupyWait, nofun,
    nofun, fun _ => h.words.occupyWait ho⟩, ⟨?_, ?_, ?_, ?_⟩, ?_⟩
  · have hreplay := replay_concat hseq hpop
    rw [append_assoc] at hreplay
    exact hreplay
  · exact (append_nil _).trans (hv.trans hpush)
  · exact hr.trans hret
  · refine hrd.trans ?_
    rw [hread, append_nil]
    rfl
  · have hserved : MailboxView.Served { s.view [] with
          jostlingValue := some value, delivered := some (.pop 1 value), pusher := .clear 0 } :=
      ⟨value, rfl, rfl, fun _ => ⟨rfl, hcount⟩⟩
    show MailboxView.At _ s.spu
    rcases hspu with hspu | hspu
    · rw [hspu]
      exact .inr hserved
    · rw [hspu]
      exact .inr hserved

theorem Inv.clearWait (h : Inv s q) (hp : s.pusher = .clear oldCount) : Inv (s.clearWait oldCount) q := by
  have hc : s.pusher.clearing = true := by rw [hp]; rfl
  have hw := h.words.clearing hc
  have hpush := h.logged.pushes
  have hret := h.logged.pushReturned
  have hentries := h.words.entries
  rw [hp] at hpush hret hentries
  rw [Mailbox.clearWait, if_pos hw]
  refine ⟨h.refused, ⟨hentries, h.words.inval, nofun, nofun, nofun,
    nofun⟩, ⟨h.logged.sequential, hpush, ?_, h.logged.readReturned⟩, h.point.clear hw hc⟩
  exact hret.trans (append_nil _).symm

theorem Inv.pushStep (h : Inv s q) (hs : s.pushStep = some s') : ∃ q', Inv s' q' := by
  unfold Mailbox.pushStep at hs
  split at hs
  · cases hs
  next value hp =>
    exact ⟨q, some.inj hs ▸ h.writeValue3 hp⟩
  next value hp =>
    split_ifs at hs with ho
    · exact ⟨q, some.inj hs ▸ h.enterJostle hp ho⟩
    · exact some.inj hs ▸ h.pushWord hp (eq_false_iff.mpr ho)
  next value oldCount oldWait hp =>
    split_ifs at hs with hn
    · exact ⟨q, some.inj hs ▸ h.pushJostling hp hn⟩
    · exact ⟨q, some.inj hs ▸ h.retry hp⟩
  next oldCount hp =>
    exact ⟨q, some.inj hs ▸ h.clearWait hp⟩

/-! ## The steps of the SPU -/

theorem Inv.load (h : Inv s q) (hcalm : (s.view q).Calm) (call : MailboxPop) : Inv (s.load call) q :=
  ⟨h.refused, { h.words with }, { h.logged with }, hcalm, Nat.le_refl _, h.words.inval⟩

variable {call : MailboxPop}

theorem Inv.evaluate (h : Inv s q) {old : SyncVar}
    (hspu : s.spu = .loaded call old fulls) (hC : s.Apart) : Inv (s.evaluate call old fulls) q := by
  have hpoint := h.point
  rw [hspu] at hpoint
  have ⟨⟨hd, hw, hj⟩, hread⟩ := hpoint
  rw [Mailbox.Apart, hspu] at hC
  refine ⟨h.refused, { h.words with }, { h.logged with }, ⟨hd, hw, ?_⟩, hread, ?_, ?_⟩
  · -- what is offered now cannot be taken before the word is marked
    intro hn
    cases call with
    | tryPop => exact hj hn
    | popWait =>
      cases h0 : old.count with
      | zero => exact (hC.2 nofun h0).1
      | succ =>
        simp only [Mailbox.evaluate, h0] at hn
        exact hj hn
  · intro hpops h4 heq _
    have hentries := h.words.entries
    rw [hC.1 hpops h4, show s.values = old from heq] at hentries
    exact hentries.fourth h4
  · intro h0 popValue hcall
    have ⟨hnj, hnc⟩ := hC.2 (by rw [hcall]; exact nofun) h0
    refine ⟨hnj, hnc, fun htrue => ?_⟩
    show (s.evaluate call old fulls).jostlingValue = none
    simp only [Mailbox.evaluate, hcall, htrue, h0]

theorem Logged.returnRead (h : s.Logged q) (hd : s.delivered = none) {r : MailboxRead} {q' : List (BitVec 32)}
    (happly : apply q (.read r) = some q') : (s.returnRead r).Logged q' := by
  have ⟨hv, hr, hrd⟩ := filterMap_read s.log r
  refine ⟨replay_concat h.sequential happly, ?_, ?_, ?_⟩
  · exact (congrArg (· ++ s.pusher.owed.toList) hv).trans h.pushes
  · exact hr.trans h.pushReturned
  refine hrd.trans ?_
  rw [h.readReturned]
  show s.results ++ s.delivered.toList ++ [r] = s.results ++ [r] ++ s.delivered.toList
  rw [hd]
  show s.results ++ [] ++ [r] = s.results ++ [r] ++ []
  rw [append_nil, append_nil]

theorem fulls_eq (hw : s.Words q) (hle : fulls ≤ s.fulls)
    (hinv : s.values.value3Inval = BitVec.ofNat 16 fulls) (hlt : s.fulls < fulls + 2 ^ 16) : s.fulls = fulls := by
  have hnat : s.fulls % 2 ^ 16 = fulls % 2 ^ 16 := by
    have heq := congrArg BitVec.toNat (hw.inval.symm.trans hinv)
    rwa [BitVec.toNat_ofNat, BitVec.toNat_ofNat] at heq
  omega

section

variable (h : Inv s q)
include h

theorem Inv.commit {old : SyncVar} {value3 : BitVec 32}
    (hspu : s.spu = .evaluated call old fulls value3) (hC : s.Apart) : ∃ q', Inv (s.commit call old value3) q' := by
  have hpoint := h.point
  rw [hspu] at hpoint
  have ⟨hcalm, ⟨hle, hinv⟩, hfourth, hwaits⟩ := hpoint
  have ⟨hd, hw, hj⟩ := hcalm
  rw [Mailbox.Apart, hspu] at hC
  unfold Mailbox.commit
  split
  next heq =>
    have hfulls := fulls_eq h.words hle (heq ▸ hinv) hC
    split
    next h0 =>
      have hcount := heq ▸ h0
      cases call with
      | tryPop =>
        have happly : MailboxCall.apply q (.read .empty) = some q := if_pos (h.words.entries.eq_nil hcount)
        exact ⟨q, h.refused, { h.words with }, h.logged.returnRead hd happly, hcalm⟩
      | popWait popValue =>
        have ⟨hnj, hnc, hoffer⟩ := hwaits h0 popValue rfl
        refine ⟨q, h.refused, ⟨.inl ⟨h0, h.words.entries.eq_nil hcount⟩, ?_, fun _ => rfl, h.words.atWord,
          h.words.jostle, fun _ => rfl⟩, { h.logged with }, ?_⟩
        · rw [← heq]
          exact h.words.inval
        · cases popValue with
          | true => exact .inl ⟨hoffer rfl, hd, rfl, h0, hnc⟩
          | false => exact ⟨rfl, hnj, .inl ⟨hd, rfl, h0, hnc⟩⟩
    next h0 =>
      have hcount := heq ▸ h0
      -- a set waiting bit would belong to an empty queue
      have hwait := eq_false_iff.mpr fun hset => hcount (hw hset).2
      split_ifs with hpops
      · have hx := fun h4 =>
          hfourth hpops (heq ▸ h4) heq hfulls
        have ⟨q', happly, hentries⟩ := h.words.entries.pop hcount hx
        rw [heq] at happly hentries
        have hnc := fun hc => hwait ▸ h.words.clearing hc
        refine ⟨q', h.refused, ⟨hentries, ?_, nofun, h.words.atWord, h.words.jostle, hnc⟩,
          Logged.returnRead (s := { s with values := old.popped value3 }) { h.logged with } hd happly, hd, nofun, hj⟩
        rw [← heq]
        exact h.words.inval
      · have happly : MailboxCall.apply q (.read (.peek old.count)) = some q := by
          apply if_pos
          refine ⟨?_, h.words.entries.ne_nil hcount⟩
          rw [h.words.entries.length_eq, heq]
        exact ⟨q, h.refused, { h.words with }, h.logged.returnRead hd happly, hcalm⟩
  · exact ⟨q, h.load hcalm call⟩

theorem Inv.returnDelivered {r : MailboxRead} {jv : Option (BitVec 32)} (hd : s.delivered = some r)
    (hw : s.values.wait = true → s.pusher.clearing = true ∧ s.values.count = 0)
    (hj : jv = none → s.pusher.jostling = false) :
    Inv { s with jostlingValue := jv, spu := .out, results := s.results ++ [r], delivered := none } q := by
  refine ⟨h.refused, { h.words with }, ⟨h.logged.sequential, h.logged.pushes, h.logged.pushReturned, ?_⟩, rfl, hw, hj⟩
  rw [h.logged.readReturned, hd]
  exact (append_nil _).symm

theorem Inv.take {popValue : Bool} (hspu : s.spu = .take popValue) : Inv (s.take popValue) q := by
  have hpoint := h.point
  rw [hspu] at hpoint
  cases popValue with
  | true =>
    have ⟨v, hjv, hd, hw⟩ := hpoint
    have hd : s.delivered = some (.pop 1 (s.jostlingValue.getD 0)) := by
      rw [show s.jostlingValue = some v from hjv]
      exact hd
    exact h.returnDelivered hd (fun hset => absurd (hw.symm.trans hset) (by decide)) nofun
  | false =>
    have ⟨hd, hw, hnj⟩ := hpoint
    exact h.returnDelivered hd (fun hset => absurd (hw.symm.trans hset) (by decide)) fun _ => hnj

theorem Inv.abort (hspu : s.spu = .aborting) : Inv s.abort q := by
  have hpoint := h.point
  rw [hspu] at hpoint
  unfold Mailbox.abort
  split
  next value hjv =>
    rcases hpoint with hoff | ⟨v, hv, hd, hw⟩
    · exact absurd (hjv.symm.trans hoff.1) nofun
    · have hvalue := some.inj (hv.symm.trans hjv)
      subst hvalue
      exact h.returnDelivered hd hw nofun
  next hjv =>
    rcases hpoint with ⟨_, hd, ho, hcount, hnc⟩ | ⟨v, hv, _⟩
    · exact ⟨h.refused, { h.words with }, { h.logged with }, ⟨0, rfl⟩, hd, ho, hcount, hnc⟩
    · exact absurd (hjv.symm.trans hv) nofun

theorem Inv.exchange {popValue : Bool} (hspu : s.spu = .exchanging popValue) (hC : s.Apart) :
    Inv (s.exchange popValue) q := by
  have hpoint := h.point
  rw [hspu] at hpoint
  rw [Mailbox.Apart, hspu] at hC
  have hnc : s.pusher.clearing = false := by
    cases popValue with
    | true => exact hpoint.2.2.2.2
    | false => exact hC
  have hwords : Words (s.exchange popValue) q :=
    ⟨h.words.entries, h.words.inval, nofun, h.words.atWord, h.words.jostle,
      fun hc => absurd (hnc.symm.trans hc) (by decide)⟩
  have hlogged : Logged (s.exchange popValue) q := { h.logged with }
  refine ⟨h.refused, hwords, hlogged, ?_⟩
  show MailboxView.At _ (if s.values.wait then .out else .take popValue)
  cases popValue with
  | true =>
    have ⟨⟨v, hv⟩, hd, ho, _, _⟩ := hpoint
    rw [if_pos (h.words.occupyWait ho)]
    exact ⟨hd, nofun, fun hn => absurd (hv.symm.trans hn) nofun⟩
  | false =>
    have ⟨_, hnj, hwait⟩ := hpoint
    rcases hwait with ⟨hd, hw, _, _⟩ | ⟨hd, hw⟩
    · rw [if_pos (show s.values.wait = true from hw)]
      exact ⟨hd, nofun, fun _ => hnj⟩
    · rw [if_neg fun hset : s.values.wait = true => absurd (hnc.symm.trans (hw hset)) (by decide)]
      exact ⟨hd, rfl, hnj⟩

theorem Inv.spuStep (hC : s.Apart) (hs : s.spuStep = some s') : ∃ q', Inv s' q' := by
  unfold Mailbox.spuStep at hs
  split at hs
  · cases hs
  · cases hs
  next call old fulls hspu =>
    exact ⟨q, some.inj hs ▸ h.evaluate hspu hC⟩
  next call old fulls value3 hspu =>
    exact some.inj hs ▸ h.commit hspu hC
  next popValue hspu =>
    exact ⟨q, some.inj hs ▸ h.take hspu⟩
  next hspu =>
    exact ⟨q, some.inj hs ▸ h.abort hspu⟩
  next popValue hspu =>
    exact ⟨q, some.inj hs ▸ h.exchange hspu hC⟩

theorem Inv.startRead (hs : s.startRead call = some s') : Inv s' q := by
  unfold Mailbox.startRead at hs
  split at hs
  next hspu =>
    have hpoint := h.point
    rw [hspu] at hpoint
    exact some.inj hs ▸ h.load hpoint call
  · cases hs

theorem Inv.goOn {spu : MailboxSpu} (hpoint : (s.view q).At spu) : Inv { s with spu := spu } q :=
  ⟨h.refused, { h.words with }, { h.logged with }, hpoint⟩

theorem Inv.check (hs : s.check = some s') : Inv s' q := by
  unfold Mailbox.check at hs
  split at hs
  next popValue hspu =>
    have hpoint := h.point
    rw [hspu] at hpoint
    split_ifs at hs with hw
    · exact some.inj hs ▸ h
    refine some.inj hs ▸ h.goOn ?_
    have hw := eq_false_iff.mpr hw
    cases popValue with
    | true =>
      rcases hpoint with ⟨_, _, ho, _⟩ | ⟨v, hv, hd, _⟩
      · exact absurd (hw.symm.trans (h.words.occupyWait ho)) (by decide)
      · exact ⟨v, hv, hd, hw⟩
    | false =>
      have ⟨_, hnj, hwait⟩ := hpoint
      rcases hwait with ⟨_, hset, _⟩ | ⟨hd, _⟩
      · exact absurd (hw.symm.trans hset) (by decide)
      · exact ⟨hd, hw, hnj⟩
  · cases hs

theorem Inv.stop (hs : s.stop = some s') : Inv s' q := by
  unfold Mailbox.stop at hs
  split at hs
  next popValue hspu =>
    have hpoint := h.point
    rw [hspu] at hpoint
    split at hs
    · refine some.inj hs ▸ h.goOn ?_
      cases popValue <;> exact hpoint
    · cases hs
  · cases hs

theorem inv_step {e : MailboxEvent} (hC : MailboxApart s e) (hs : s.step e = some s') : ∃ q', Inv s' q' := by
  cases e with
  | startPush => exact h.startPush hs
  | push => exact h.pushStep hs
  | startRead => exact ⟨q, h.startRead hs⟩
  | spu => exact h.spuStep hC hs
  | check => exact ⟨q, h.check hs⟩
  | stop => exact ⟨q, h.stop hs⟩

theorem Inv.safe : MailboxSafe s where
  sequential := by rw [h.logged.sequential]; rfl
  pushes := h.logged.pushes
  pushReturned := h.logged.pushReturned
  readReturned := h.logged.readReturned
  complete := fun hspu => by
    have hpoint := h.point
    rw [hspu] at hpoint
    exact hpoint.1
  accepted := h.refused

end

end Mailbox

/-- As long as the SPU and the push do not meet between two writes of the mailbox, the results are those of the calls
of the log on a queue of four entries. -/
theorem mailbox_safe {s : Mailbox} (hs : (mailboxSystem.restrict MailboxApart).Reachable s) : MailboxSafe s := by
  have ⟨q, hinv⟩ : ∃ q, s.Inv q := by
    apply hs.invariant
    · intro s hinit
      have hs := hinit
      rw [hs]
      exact ⟨[], inv_init⟩
    · intro s e s' ⟨q, h⟩ hstep
      have ⟨hC, hstep⟩ := System.step_restrict.mp hstep
      exact inv_step h hC hstep
  exact hinv.safe

theorem mailboxSystem_init : mailboxSystem.init {} := rfl

/-- Five pushes, the last of which replaces an entry, a waiting SPU and an abort that was served. -/
theorem mailbox_safe_replaced : ∃ s, (mailboxSystem.restrict MailboxApart).Reachable s ∧
    s.results = [.pop 1 9, .pop 4 1, .pop 3 2, .pop 2 3, .pop 1 5, .empty] ∧ MailboxSafe s :=
  System.Reachable.exists_of_run_and mailbox_safe mailboxSystem_init
    [.startRead (.popWait true), .spu, .spu, .startPush 9, .push, .push, .stop, .push, .spu, .push,
      .startPush 1, .push, .push, .startPush 2, .push, .push, .startPush 3, .push, .push, .startPush 4, .push, .push,
      .startPush 5, .push, .push, .startRead .tryPop, .spu, .spu, .startRead (.popWait true), .spu, .spu,
      .startRead .tryPop, .spu, .spu, .startRead .tryPop, .spu, .spu, .startRead .tryPop, .spu, .spu]
    (by decide +kernel)

/-- The queue is full when the fifth push writes `value3`, and a pop comes before its update of the word: 5 is delivered
twice, and 4 is lost although no push has found the queue full. -/
theorem mailbox_delivers_twice : ∃ s, mailboxSystem.Reachable s ∧ s.issued = [1, 2, 3, 4, 5] ∧
    s.pushResults = [(0, 1), (1, 2), (2, 3), (3, 4), (3, 4)] ∧
    s.results = [.pop 4 1, .pop 4 2, .pop 3 3, .pop 2 5, .pop 1 5] ∧ ¬ MailboxSafe s := by
  have ⟨s, hs, hi, hp, hr, hlog⟩ := System.Reachable.exists_of_run mailboxSystem_init
    [.startPush 1, .push, .push, .startPush 2, .push, .push, .startPush 3, .push, .push, .startPush 4, .push, .push,
      .startPush 5, .push, .startRead .tryPop, .spu, .spu, .push, .startRead .tryPop, .spu, .spu,
      .startRead .tryPop, .spu, .spu, .startRead .tryPop, .spu, .spu, .startRead .tryPop, .spu, .spu]
    (fun s => s.issued = [1, 2, 3, 4, 5] ∧ s.pushResults = [(0, 1), (1, 2), (2, 3), (3, 4), (3, 4)] ∧
      s.results = [.pop 4 1, .pop 4 2, .pop 3 3, .pop 2 5, .pop 1 5] ∧
      (replay apply [] s.log).isSome = false) (by decide +kernel)
  exact ⟨s, hs, hi, hp, hr, fun hsafe => absurd (hlog.symm.trans hsafe.sequential) (by decide)⟩

end Armsx3.Cell
