import Armsx3.Rsx.FifoControl

/-!
# FifoControlSafety — the ring is read word by word

The invariant says how many words are behind the FIFO and what kind of word comes next; a fetch through the cache is
treated once, in `fetchU32_spec`.
-/

namespace Armsx3.Rsx

open Nat FifoControl Transition

/-! ## Addresses -/

namespace IoMap

variable {io : IoMap}

theorem getAddr_eq {a p : Nat} (h : io.page (a / 2 ^ 20) = some p) : io.getAddr a = p * 2 ^ 20 + a % 2 ^ 20 := by
  rw [getAddr, h]

theorem page_of_getAddr {a : Nat} (h : io.getAddr a ≠ umax) : ∃ p, io.page (a / 2 ^ 20) = some p := by
  cases hp : io.page (a / 2 ^ 20) with
  | none =>
    rw [getAddr, hp] at h
    exact absurd rfl h
  | some p => exact ⟨p, rfl⟩

theorem lt_of_getAddr {a : Nat} (h : io.getAddr a ≠ umax) : a < 2 ^ 29 := by
  have ⟨p, hp⟩ := page_of_getAddr h
  have := io.ioLt _ p hp
  omega

theorem getAddr_add {a off : Nat} (h : io.getAddr a ≠ umax) (hoff : a % 2 ^ 20 + off < 2 ^ 20) :
    io.getAddr (a + off) = io.getAddr a + off := by
  have ⟨p, hp⟩ := page_of_getAddr h
  have hpage : (a + off) / 2 ^ 20 = a / 2 ^ 20 := by omega
  rw [getAddr_eq hp, getAddr_eq (by rw [hpage]; exact hp)]
  omega

theorem getAddr_add_next {a off : Nat} (h : io.getAddr a ≠ umax)
    (hnext : io.getAddr a / 2 ^ 20 + 1 = io.getAddr (a + 2 ^ 20) / 2 ^ 20) (hlo : 2 ^ 20 ≤ a % 2 ^ 20 + off)
    (hhi : a % 2 ^ 20 + off < 2 ^ 21) : io.getAddr (a + off) = io.getAddr a + off := by
  have ⟨p, hp⟩ := page_of_getAddr h
  have hlt := io.eaLt _ p hp
  have ha := getAddr_eq hp
  -- an unmapped page would be at the top of the address space
  have hmapped : io.getAddr (a + 2 ^ 20) ≠ umax := by
    intro heq
    rw [heq, umax, ha] at hnext
    omega
  have ⟨p', hp'⟩ := page_of_getAddr hmapped
  have hb := getAddr_eq hp'
  have hpage : (a + off) / 2 ^ 20 = (a + 2 ^ 20) / 2 ^ 20 := by omega
  rw [getAddr_eq (show io.page ((a + off) / 2 ^ 20) = some p' by rw [hpage]; exact hp'), ha]
  omega

end IoMap

/-! ## The refill -/

variable {intact : Nat} {cmd : BitVec 32}

namespace FifoControl

variable {env : FifoEnv} {a addr : Nat}

theorem refillSize_le_lines : refillSize env a addr ≤ linesToPut env a := by
  unfold refillSize
  split_ifs with h
  · exact le_of_lt h.1
  · exact le_refl _

theorem refillSize_le : refillSize env a addr ≤ 4096 := by
  have hle : refillSize env a addr ≤ linesToPut env a := refillSize_le_lines
  unfold linesToPut at hle
  omega

theorem refillSize_lines (ha : a % 128 = 0) (ha32 : a < 2 ^ 32) :
    refillSize env a addr % 128 = 0 ∧ 128 ≤ refillSize env a addr := by
  unfold refillSize
  split
  · omega
  · unfold linesToPut
    omega

theorem refillSize_put (ha : a ≤ env.put) : a + refillSize env a addr ≤ env.put / 128 * 128 + 128 := by
  have hle : refillSize env a addr ≤ linesToPut env a := refillSize_le_lines
  unfold linesToPut at hle
  omega

theorem refillSize_getAddr (hmap : env.io.getAddr a ≠ umax) {off : Nat}
    (hoff : off < refillSize env a (env.io.getAddr a)) : env.io.getAddr (a + off) = env.io.getAddr a + off := by
  have hle : refillSize env a (env.io.getAddr a) ≤ 4096 := refillSize_le
  by_cases hin : a % 2 ^ 20 + off < 2 ^ 20
  · exact IoMap.getAddr_add hmap hin
  apply IoMap.getAddr_add_next hmap _ (by omega) (by omega)
  -- the refill goes on into the next page only when it was not trimmed
  by_contra hne
  unfold refillSize at hoff
  split_ifs at hoff with hcond
  · omega
  · exact hcond ⟨by omega, hne⟩

theorem keptLines_cases (mode : FifoMode) (intact lines : Nat) :
    keptLines mode intact lines = lines ∨ (2 ≤ keptLines mode intact lines ∧ keptLines mode intact lines < lines) := by
  unfold keptLines
  split_ifs with h
  · exact .inr h.2
  · exact .inl rfl

theorem refilled_spec {c c' : FifoControl} (haddr : addr < 2 ^ 32) (hmap : env.io.getAddr (lineOf addr) ≠ umax)
    (hc' : c.refilled env addr (env.io.getAddr (lineOf addr)) intact = c') :
    addr - lineOf addr < c'.cacheSize ∧ c'.cacheSize ≤ 4096 ∧
      (∀ off < c'.cacheSize, c'.cache off = env.mem (env.io.getAddr (lineOf addr + off))) ∧
      (addr < env.put → lineOf addr + c'.cacheSize ≤ env.put) := by
  have hline : lineOf addr % 128 = 0 ∧ lineOf addr ≤ addr ∧ addr < lineOf addr + 128 := by
    unfold lineOf
    omega
  subst hc'
  simp only [refilled]
  generalize hsize : refillSize env (lineOf addr) (env.io.getAddr (lineOf addr)) = size
  have ⟨hmod, hge⟩ : size % 128 = 0 ∧ 128 ≤ size := hsize ▸ refillSize_lines hline.1 (by omega)
  have hle := hsize ▸ refillSize_le
  have hput := fun h =>
    hsize ▸ refillSize_put (by omega)
  have hkept := keptLines_cases env.mode intact (size / 128)
  generalize keptLines env.mode intact (size / 128) = kept at *
  refine ⟨?_, ?_, ?_, ?_⟩
  · split_ifs <;> omega
  · split_ifs <;> omega
  · intro off hoff
    -- every word that the size counts was fetched, and is within the range that is translated as a whole
    have hin : off < 128 * kept ∧ off < size := by split_ifs at hoff <;> omega
    rw [if_pos hin.1, refillSize_getAddr hmap (hsize ▸ hin.2)]
  · intro h
    split_ifs <;> omega

variable {c : FifoControl}

theorem refill_ok (hput : env.put ≠ addr) (hmap : env.io.getAddr (lineOf addr) ≠ umax) :
    c.refill env addr intact = (c.refilled env addr (env.io.getAddr (lineOf addr)) intact,
      .ok ((c.refilled env addr (env.io.getAddr (lineOf addr)) intact).cache
        (addr - (c.refilled env addr (env.io.getAddr (lineOf addr)) intact).cacheAddr))) := by
  unfold refill
  rw [if_neg hput]
  exact if_neg hmap

theorem readUnsafe_fast (hrem : c.remaining ≠ 0) (hmode : env.mode = .fast) :
    c.readUnsafe env intact = if c.internalGet + 4 = env.put then (c, .empty)
      else { c with argsPtr := c.argsPtr + 4 }.nextArg (env.mem (c.argsPtr + 4)) := by
  rw [readUnsafe, if_pos hrem, if_neg (fun hne => hne hmode)]

theorem readUnsafe_cached (hrem : c.remaining ≠ 0) (hmode : env.mode ≠ .fast) :
    c.readUnsafe env intact = match c.fetchU32 env (c.internalGet + 4) intact with
      | (c, .ok arg) => c.nextArg arg
      | (c, .empty) => (c, .empty)
      | (c, .error) => (c, .error) := by
  exact (if_pos hrem).trans (if_pos hmode)

variable {e : FifoEnv}

theorem readCommand_nop {i : Nat} (hmethod : isMethod cmd = true) (hcount : methodCount cmd = 0) :
    c.readCommand e cmd i = ({ c with cmd, internalGet := c.internalGet + 4 }, some .nop) := by
  rw [readCommand, if_neg (by rw [hmethod]; decide), if_pos hcount]

theorem readCommand_packet {i : Nat} (hmethod : isMethod cmd = true) (hcount : methodCount cmd ≠ 0) :
    c.readCommand e cmd i =
      if e.mode ≠ .fast then
        match (c.enterPacket cmd).fetchU32 e (c.enterPacket cmd).internalGet i with
        | (c, .ok arg) => (c, some (.pair (methodReg cmd) arg))
        | (c, .error) => (c, some .error)
        | (c, .empty) => ({ c with commandReg := methodReg cmd, remaining := c.remaining + 1 }, some .empty)
      else if e.put = (c.enterPacket cmd).internalGet then ({ c.enterPacket cmd with cacheSize := 0 }, none)
      else
        match (c.enterPacket cmd).firstArg e with
        | (c, out) => (c, some out) := by
  exact (if_neg (by rw [hmethod]; decide)).trans (if_neg hcount)

theorem read_fast {i j : Nat} (hrem : c.remaining = 0) (hmw : c.memwatchAddr = 0)
    (hmode : e.mode = .fast) : c.read e i j = if e.put = c.internalGet then (c, some .empty)
      else if e.io.getAddr c.internalGet = umax then (c, some .error)
      else c.readCommand e (e.mem (e.io.getAddr c.internalGet)) j := by
  have hwatch : c.memwatch e = some c := if_neg (not_not_intro hmw)
  rw [read, if_neg (not_not_intro hrem), hwatch]
  exact if_pos hmode

theorem read_cached {i j : Nat} (hrem : c.remaining = 0) (hmw : c.memwatchAddr = 0) (hmode : e.mode ≠ .fast) :
    c.read e i j = match c.fetchU32 e c.internalGet i with
      | (c, .ok cmd) => c.readCommand e cmd j
      | (c, .empty) => (c, some .empty)
      | (c, .error) => (c, some .error) := by
  have hwatch : c.memwatch e = some c := if_neg (not_not_intro hmw)
  rw [read, if_neg (not_not_intro hrem), hwatch]
  exact if_neg hmode

end FifoControl

/-! ## The ring as the FIFO finds it -/

variable {io : IoMap} {mode : FifoMode} {s s' : Fifo} {k : Nat} {c c' : FifoControl}

/-- What the guest guarantees when `k` words are behind the FIFO. -/
structure Ring (io : IoMap) (s : Fifo) (k : Nat) : Prop where
  le : k ≤ s.covered.length
  baseLt : s.base < 2 ^ 32
  putIn : s.left = false → s.put = s.base + 4 * s.covered.length
  putOut : s.left = true →
    (ringRead s.covered).place = .stopped ∧ (s.put < s.base ∨ s.base + 4 * s.covered.length ≤ s.put)
  mapped : ∀ j < s.covered.length, io.getAddr (s.base + 4 * j) ≠ umax
  mem : ∀ j w, s.covered[j]? = some w → k ≤ j → s.mem (io.getAddr (s.base + 4 * j)) = w

/-- The cache holds unread words of the ring, and words that are not covered only when the guest has gone. -/
structure CacheOk (s : Fifo) (c : FifoControl) (k : Nat) : Prop where
  size : c.cacheSize ≤ 4096
  addrLt : c.cacheSize ≠ 0 → c.cacheAddr < 2 ^ 29
  words : ∀ j w, s.covered[j]? = some w → k ≤ j → c.cacheAddr ≤ s.base + 4 * j →
    s.base + 4 * j < c.cacheAddr + c.cacheSize → c.cache (s.base + 4 * j - c.cacheAddr) = w
  bound : s.left = false → c.cacheSize ≠ 0 → c.cacheAddr + c.cacheSize ≤ s.base + 4 * s.covered.length

theorem CacheOk.mono (h : CacheOk s c k) {k' : Nat} (hk : k ≤ k') : CacheOk s c k' :=
  { h with words := fun j w hw hj => h.words j w hw (le_trans hk hj) }

theorem CacheOk.of_invalid (h : c.cacheSize = 0) : CacheOk s c k :=
  ⟨by omega, fun hne => absurd h hne, fun _ _ _ _ _ hlt => by omega, fun _ hne => absurd h hne⟩

namespace Ring

theorem forward (h : Ring io s k) {k' : Nat} (hk : k ≤ k') (hle : k' ≤ s.covered.length) : Ring io s k' :=
  { h with le := hle, mem := fun j w hw hj => h.mem j w hw (le_trans hk hj) }

theorem addr_lt (h : Ring io s k) : s.base + 4 * s.covered.length < 2 ^ 32 := by
  have hbase := h.baseLt
  by_cases hlen : s.covered.length = 0
  · omega
  · have := IoMap.lt_of_getAddr (h.mapped (s.covered.length - 1) (by omega))
    omega

theorem put_eq_iff (h : Ring io s k) (hplace : (ringRead (s.covered.take k)).place ≠ .stopped) :
    s.put = s.base + 4 * k ↔ k = s.covered.length := by
  have hle := h.le
  cases hleft : s.left with
  | false =>
    have := h.putIn hleft
    omega
  | true =>
    -- the guest has left behind a word that is not read
    have ⟨hstop, hput⟩ := h.putOut hleft
    have hne : k ≠ s.covered.length := by
      intro heq
      rw [heq, List.take_length] at hplace
      exact hplace hstop
    omega

theorem get_next (h : Ring io s k) (hk : k < s.covered.length) {get : Nat} (hget : get = s.base + 4 * k) :
    ∃ w, s.covered[k]? = some w ∧ io.getAddr get ≠ umax ∧ s.mem (io.getAddr get) = w := by
  subst hget
  have hw := List.getElem?_eq_getElem hk
  exact ⟨_, hw, h.mapped k hk, h.mem k _ hw (le_refl k)⟩

end Ring

structure SameCommand (c c' : FifoControl) : Prop where
  internalGet : c'.internalGet = c.internalGet
  memwatchAddr : c'.memwatchAddr = c.memwatchAddr
  commandReg : c'.commandReg = c.commandReg
  commandInc : c'.commandInc = c.commandInc
  remaining : c'.remaining = c.remaining
  cmd : c'.cmd = c.cmd

theorem SameCommand.refl (c : FifoControl) : SameCommand c c := ⟨rfl, rfl, rfl, rfl, rfl, rfl⟩

theorem refill_spec (hr : Ring io s k) (hk : k < s.covered.length) (hput : s.put ≠ s.base + 4 * k) (intact : Nat) :
    ∃ c' w, s.covered[k]? = some w ∧ c.refill (s.env io mode) (s.base + 4 * k) intact = (c', .ok w) ∧
      CacheOk s c' k ∧ SameCommand c c' := by
  have ⟨w, hw, hmap, hmem⟩ := hr.get_next hk rfl
  have hlt := IoMap.lt_of_getAddr hmap
  have hline : lineOf (s.base + 4 * k) ≤ s.base + 4 * k := by
    unfold lineOf
    omega
  have hpage : lineOf (s.base + 4 * k) / 2 ^ 20 = (s.base + 4 * k) / 2 ^ 20 := by
    unfold lineOf
    omega
  have hmapLine : io.getAddr (lineOf (s.base + 4 * k)) ≠ umax := by
    have ⟨p, hp⟩ := IoMap.page_of_getAddr hmap
    have hpLt := io.eaLt _ p hp
    rw [IoMap.getAddr_eq (hpage ▸ hp), umax]
    omega
  have haddr : s.base + 4 * k < 2 ^ 32 := by omega
  generalize hc' : c.refilled (s.env io mode) (s.base + 4 * k)
    (io.getAddr (lineOf (s.base + 4 * k))) intact = c'
  have ⟨hin, hsize, hcache, hbound⟩ := refilled_spec haddr hmapLine hc'
  have hcacheAddr : c'.cacheAddr = lineOf (s.base + 4 * k) := by rw [← hc']; rfl
  refine ⟨c', w, hw, ?_, ⟨hsize, ?_, ?_, ?_⟩, ?_⟩
  · have hword : c'.cache (s.base + 4 * k - c'.cacheAddr) = w := by
      rw [hcacheAddr, hcache _ hin, Nat.add_sub_cancel' hline]
      exact hmem
    have hrefill : c.refill (s.env io mode) (s.base + 4 * k) intact =
        (c', .ok (c'.cache (s.base + 4 * k - c'.cacheAddr))) := by
      rw [← hc']
      exact refill_ok hput hmapLine
    rw [hrefill, hword]
  · intro _
    omega
  · intro j w' hw' hj hlo hhi
    rw [hcacheAddr, hcache _ (by omega), Nat.add_sub_cancel' (by omega)]
    exact hr.mem j w' hw' hj
  · intro hleft _
    have hputIn := hr.putIn hleft
    rw [hcacheAddr, ← hputIn]
    apply hbound
    show s.base + 4 * k < s.put
    omega
  · rw [← hc']
    exact ⟨rfl, rfl, rfl, rfl, rfl, rfl⟩

theorem fetchU32_spec (hr : Ring io s k) (hc : CacheOk s c k) (hplace : (ringRead (s.covered.take k)).place ≠ .stopped)
    (intact : Nat) : (k = s.covered.length ∧ c.fetchU32 (s.env io mode) (s.base + 4 * k) intact = (c, .empty)) ∨
      ∃ c' w, s.covered[k]? = some w ∧ c.fetchU32 (s.env io mode) (s.base + 4 * k) intact = (c', .ok w) ∧
        CacheOk s c' k ∧ SameCommand c c' := by
  have hiff := hr.put_eq_iff hplace
  have hle := hr.le
  have haddr := hr.addr_lt
  have hoffset : c.cacheOffset (s.base + 4 * k) = (s.base + 4 * k + 2 ^ 32 - c.cacheAddr) % 2 ^ 32 := rfl
  unfold fetchU32
  by_cases hk : k = s.covered.length
  · -- the cache ends before PUT
    have hput : (s.env io mode).put = s.base + 4 * k := hiff.mpr hk
    have hmiss : c.cacheSize ≤ c.cacheOffset (s.base + 4 * k) := by
      by_cases hzero : c.cacheSize = 0
      · omega
      have hleft : s.left = false := by
        cases hleft : s.left with
        | false => rfl
        | true =>
          have ⟨hstop, _⟩ := hr.putOut hleft
          rw [hk, List.take_length] at hplace
          exact absurd hstop hplace
      have := hc.bound hleft hzero
      omega
    exact .inl ⟨hk, by rw [if_pos hmiss, refill, if_pos hput]⟩
  · have hklt : k < s.covered.length := by omega
    have hput := fun heq => hk (hiff.mp heq)
    refine .inr ?_
    by_cases hmiss : c.cacheSize ≤ c.cacheOffset (s.base + 4 * k)
    · rw [if_pos hmiss]
      exact refill_spec hr hklt hput intact
    rw [if_neg hmiss]
    have haddrLt := hc.addrLt (by omega)
    have hsize := hc.size
    have hge : c.cacheAddr ≤ s.base + 4 * k := by omega
    have hoff : c.cacheOffset (s.base + 4 * k) = s.base + 4 * k - c.cacheAddr := by omega
    have ⟨w, hw, _⟩ := hr.get_next hklt rfl
    have hword := hc.words k w hw (le_refl k) hge (by omega)
    exact ⟨c, w, hw, by rw [hoff, hword], hc, SameCommand.refl c⟩

/-! ## The invariant -/

namespace FifoControl

def expects (c : FifoControl) : RingPlace :=
  if c.remaining = 0 then .command else .args (c.commandReg + c.commandInc) c.commandInc c.remaining

structure Pending (c : FifoControl) : Prop where
  pos : methodCount c.cmd ≠ 0
  remaining : c.remaining = methodCount c.cmd - 1
  command : 1 < methodCount c.cmd → c.commandReg = methodReg c.cmd ∧ c.commandInc = methodInc c.cmd

theorem Pending.expects (h : c.Pending) : c.expects = if methodCount c.cmd = 1 then .command
    else .args (methodReg c.cmd + methodInc c.cmd) (methodInc c.cmd) (methodCount c.cmd - 1) := by
  have hpos := h.pos
  have hrem := h.remaining
  by_cases hone : methodCount c.cmd = 1
  · rw [FifoControl.expects, if_pos (by omega), if_pos hone]
  · have ⟨hreg, hinc⟩ := h.command (by omega)
    rw [FifoControl.expects, if_neg (by omega), if_neg hone, hreg, hinc, hrem]

theorem pending_enterPacket (hrem : c.remaining = 0) (hpos : methodCount cmd ≠ 0) :
    (c.enterPacket cmd).Pending ∧ (c.enterPacket cmd).cmd = cmd ∧ (c.enterPacket cmd).internalGet = c.internalGet + 4 ∧
      (c.enterPacket cmd).memwatchAddr = c.memwatchAddr := by
  by_cases hone : 1 < methodCount cmd
  · rw [enterPacket, if_pos hone]
    exact ⟨⟨hpos, rfl, fun _ => ⟨rfl, rfl⟩⟩, rfl, rfl, rfl⟩
  rw [enterPacket, if_neg hone]
  refine ⟨⟨hpos, ?_, fun h => absurd h hone⟩, rfl, rfl, rfl⟩
  show c.remaining = methodCount cmd - 1
  omega

theorem enterPacket_cache (s : Fifo) (h : CacheOk s c k) : CacheOk s (c.enterPacket cmd) k := by
  unfold enterPacket
  split
  · exact { h with }
  · exact { h with }

end FifoControl

namespace Fifo

/-- Where GET is when `k` words are behind the FIFO, and what comes next. -/
def At (s : Fifo) (k : Nat) : Prop :=
  match s.caller with
  | .read => (if s.ctrl.remaining = 0 then s.ctrl.internalGet else s.ctrl.internalGet + 4) = s.base + 4 * k ∧
      (ringRead (s.covered.take k)).place = s.ctrl.expects
  | .readUnsafe => s.ctrl.internalGet + 4 = s.base + 4 * k ∧ (ringRead (s.covered.take k)).place = s.ctrl.expects
  | .incGet => s.ctrl.internalGet = s.base + 4 * k ∧ s.ctrl.Pending ∧
      (ringRead (s.covered.take k)).place = .args (methodReg s.ctrl.cmd) (methodInc s.ctrl.cmd) (methodCount s.ctrl.cmd)

theorem At.position (h : s.At k) : s.position = k := by
  unfold At at h
  unfold Fifo.position
  cases hcaller : s.caller with rw [hcaller] at h
  | read =>
    have hget := h.1
    show (if s.ctrl.remaining = 0 then _ else _) = k
    split_ifs at hget with h0
    · rw [if_pos h0]
      omega
    · rw [if_neg h0]
      omega
  | readUnsafe =>
    show (s.ctrl.internalGet + 4 - s.base) / 4 = k
    omega
  | incGet =>
    show (s.ctrl.internalGet - s.base) / 4 = k
    omega

theorem expects_ne_stopped (c : FifoControl) : c.expects ≠ .stopped := by
  unfold expects
  split <;> exact nofun

theorem At.place (h : s.At k) : (ringRead (s.covered.take k)).place ≠ .stopped := by
  unfold At at h
  split at h
  · exact h.2 ▸ expects_ne_stopped _
  · exact h.2 ▸ expects_ne_stopped _
  · exact h.2.2 ▸ nofun

structure Outcome (s : Fifo) (k : Nat) : Prop where
  drained : s.last = some .empty → k = s.covered.length
  flow : ∀ cmd, s.last = some (.flow cmd) → s.covered[k]? = some cmd ∧ isFlow cmd = true
  error : s.last = some .error → ∃ cmd, s.covered[k]? = some cmd ∧ isMethod cmd = false ∧ isFlow cmd = false
  unset : s.last ≠ some .unset

theorem Outcome.of_none (h : s.last = none) : s.Outcome k := by
  refine ⟨?_, ?_, ?_, ?_⟩ <;> rw [h]
  · exact nofun
  · exact nofun
  · exact nofun
  · exact nofun

structure Inv (io : IoMap) (s : Fifo) (k : Nat) : Prop where
  ring : Ring io s k
  cache : CacheOk s s.ctrl k
  memwatch : s.ctrl.memwatchAddr = 0
  here : s.At k
  delivered : s.delivered = (ringRead (s.covered.take k)).pairs
  outcome : s.Outcome k

/-! ## The guest -/

theorem Inv.advance (h : Inv io s k) (hs : s.advance io = some s') : Inv io s' k := by
  have ⟨⟨hleft, hmap⟩, rfl⟩ := Option.ite_some_none_eq_some.mp hs
  have hput := h.ring.putIn hleft
  have hle := h.ring.le
  have htake : (s.covered ++ [s.mem (io.getAddr s.put)]).take k = s.covered.take k := List.take_append_of_le_length hle
  have hget : ∀ j w, (s.covered ++ [s.mem (io.getAddr s.put)])[j]? = some w →
      s.covered[j]? = some w ∨ (j = s.covered.length ∧ s.mem (io.getAddr s.put) = w) := by
    intro j w hw
    by_cases hj : j < s.covered.length
    · rw [List.getElem?_append_left hj] at hw
      exact .inl hw
    rw [List.getElem?_append_right (by omega)] at hw
    have hj0 : j - s.covered.length = 0 := by
      by_contra hne
      rw [List.getElem?_eq_none (by rw [List.length_singleton]; omega)] at hw
      cases hw
    rw [hj0] at hw
    exact .inr ⟨by omega, Option.some.inj hw⟩
  refine ⟨⟨?_, h.ring.baseLt, ?_, ?_, ?_, ?_⟩, ⟨h.cache.size, h.cache.addrLt, ?_, ?_⟩, h.memwatch, ?_, ?_,
    Outcome.of_none rfl⟩
  · rw [List.length_append]
    exact le_add_right_of_le hle
  · intro _
    rw [List.length_append, List.length_singleton]
    show s.put + 4 = s.base + 4 * (s.covered.length + 1)
    omega
  · intro hl
    exact absurd (hleft.symm.trans hl) (by decide)
  · intro j hj
    rw [List.length_append, List.length_singleton] at hj
    by_cases hj' : j < s.covered.length
    · exact h.ring.mapped j hj'
    · have heq : s.base + 4 * j = s.put := by omega
      rw [heq]
      exact hmap
  · intro j w hw hj
    rcases hget j w hw with hw | ⟨hj', hw⟩
    · exact h.ring.mem j w hw hj
    · have heq : s.base + 4 * j = s.put := by omega
      rw [heq, hw]
  · intro j w hw hj hlo hhi
    rcases hget j w hw with hw | ⟨hj', _⟩
    · exact h.cache.words j w hw hj hlo hhi
    -- the cache does not reach the word that is covered now
    have hlo : s.ctrl.cacheAddr ≤ s.base + 4 * j := hlo
    have hhi : s.base + 4 * j < s.ctrl.cacheAddr + s.ctrl.cacheSize := hhi
    have := h.cache.bound hleft (by omega)
    omega
  · intro _ hne
    have := h.cache.bound hleft hne
    rw [List.length_append, List.length_singleton]
    show s.ctrl.cacheAddr + s.ctrl.cacheSize ≤ s.base + 4 * (s.covered.length + 1)
    omega
  · have hhere := h.here
    unfold At at hhere ⊢
    simp only [htake]
    exact hhere
  · simp only [htake]
    exact h.delivered

theorem Inv.leave (h : Inv io s k) {put : Nat} (hs : s.leave put = some s') : Inv io s' k := by
  have ⟨⟨hstop, _, _, hput⟩, rfl⟩ := Option.ite_some_none_eq_some.mp hs
  exact ⟨{ h.ring with putIn := nofun, putOut := fun _ => ⟨hstop, hput⟩ }, { h.cache with bound := nofun },
    h.memwatch, h.here, h.delivered, .of_none rfl⟩

theorem Inv.write (h : Inv io s k) {ea : Nat} {value : BitVec 32} (hs : s.write io ea value = some s') :
    Inv io s' k := by
  unfold Fifo.write at hs
  split at hs
  next hcond =>
    cases hs
    refine ⟨{ h.ring with mem := ?_ }, { h.cache with }, h.memwatch, h.here, h.delivered, .of_none rfl⟩
    intro j w hw hj
    have hlen := (List.getElem?_eq_some_iff.mp hw).1
    show (if io.getAddr (s.base + 4 * j) = ea then value else s.mem (io.getAddr (s.base + 4 * j))) = w
    rw [if_neg (hcond j hlen (by rw [h.here.position]; exact hj))]
    exact h.ring.mem j w hw hj
  · cases hs

/-! ## The calls -/

variable {out : FifoOutput}

theorem readUnsafe_eq (hcaller : s.caller = .readUnsafe) (hcall : s.ctrl.readUnsafe (s.env io mode) intact = (c, out)) :
    s.readUnsafe io mode intact = some ({ s with ctrl := c }.deliver out) := by
  unfold Fifo.readUnsafe
  rw [hcaller]
  simp only [hcall]

variable {intact intact' : Nat}

theorem read_eq (hcaller : s.caller = .read) (hcall : s.ctrl.read (s.env io mode) intact intact' = (c, some out)) :
    s.read io mode intact intact' = some ({ s with ctrl := c }.deliver out) := by
  unfold Fifo.read
  rw [hcaller]
  simp only [hcall]

theorem read_eq_wait (hcaller : s.caller = .read) (hcall : s.ctrl.read (s.env io mode) intact intact' = (c, none)) :
    s.read io mode intact intact' = some { s with ctrl := c, caller := .incGet, last := none } := by
  unfold Fifo.read
  rw [hcaller]
  simp only [hcall]

variable {w : BitVec 32}

theorem deliverPair (hr : Ring io s k) (hd : s.delivered = (ringRead (s.covered.take k)).pairs)
    {reg inc left : Nat} (hw : s.covered[k]? = some w) (hplace : (ringRead (s.covered.take k)).place = .args reg inc left)
    (hcache : CacheOk s c k) (hmw : c.memwatchAddr = 0) (hget : c.internalGet = s.base + 4 * k)
    (hexp : c.expects = if left = 1 then .command else .args (reg + inc) inc (left - 1)) :
    Inv io ({ s with ctrl := c }.deliver (.pair reg w)) (k + 1) := by
  have hlt := (List.getElem?_eq_some_iff.mp hw).1
  have hnext := ringRead_take_succ hw
  unfold RingRead.next at hnext
  rw [hplace] at hnext
  have hr' := hr.forward (le_succ k) hlt
  have hcache' := hcache.mono (le_succ k)
  refine ⟨{ hr' with }, { hcache' with }, hmw, ⟨?_, ?_⟩, ?_, ?_⟩
  · show c.internalGet + 4 = s.base + 4 * (k + 1)
    omega
  · show (ringRead (s.covered.take (k + 1))).place = c.expects
    rw [hnext, hexp]
  · show s.delivered ++ [(reg, w)] = (ringRead (s.covered.take (k + 1))).pairs
    rw [hnext, hd]
  · exact ⟨nofun, nofun, nofun, nofun⟩

theorem readUnsafe_spec (hr : Ring io s k) (hcache : CacheOk s c k) (hrem : c.remaining ≠ 0)
    (hget : c.internalGet + 4 = s.base + 4 * k) (hplace : (ringRead (s.covered.take k)).place ≠ .stopped)
    (hcont : mode = .fast → k < s.covered.length → io.getAddr (c.internalGet + 4) = c.argsPtr + 4) (intact : Nat) :
    (k = s.covered.length ∧ c.readUnsafe (s.env io mode) intact = (c, .empty)) ∨ ∃ c' w, s.covered[k]? = some w ∧
        c.readUnsafe (s.env io mode) intact = (c', .pair (c.commandReg + c.commandInc) w) ∧ CacheOk s c' k ∧
        c'.memwatchAddr = c.memwatchAddr ∧ c'.internalGet = s.base + 4 * k ∧
        c'.expects = if c.remaining = 1 then .command
          else .args (c.commandReg + c.commandInc + c.commandInc) c.commandInc (c.remaining - 1) := by
  have hexp : ∀ c' : FifoControl, c'.commandReg = c.commandReg + c.commandInc → c'.commandInc = c.commandInc →
      c'.remaining = c.remaining - 1 → c'.expects = if c.remaining = 1 then .command
        else .args (c.commandReg + c.commandInc + c.commandInc) c.commandInc (c.remaining - 1) := by
    intro c' hreg hinc hrem'
    rw [expects, hreg, hinc, hrem']
    by_cases hone : c.remaining = 1
    · rw [if_pos (by omega), if_pos hone]
    · rw [if_neg (by omega), if_neg hone]
  by_cases hmode : mode = .fast
  · rw [readUnsafe_fast hrem hmode]
    by_cases hk : k = s.covered.length
    · have hput := hget.trans ((hr.put_eq_iff hplace).mpr hk).symm
      exact .inl ⟨hk, if_pos hput⟩
    have hput : c.internalGet + 4 ≠ (s.env io mode).put := fun heq =>
      hk ((hr.put_eq_iff hplace).mp (heq.symm.trans hget))
    have hlt := lt_of_le_of_ne hr.le hk
    have ⟨w, hw, _, hword⟩ := hr.get_next hlt hget
    rw [hcont hmode hlt] at hword
    rw [if_neg hput, show (s.env io mode).mem _ = w from hword]
    exact .inr ⟨_, w, hw, rfl, { hcache with }, rfl, hget, hexp _ rfl rfl rfl⟩
  · rw [readUnsafe_cached hrem hmode, hget]
    rcases fetchU32_spec hr hcache hplace intact with ⟨hk, hfetch⟩ | ⟨c', w, hw, hfetch, hcache', hsame⟩
    · rw [hfetch]
      exact .inl ⟨hk, rfl⟩
    rw [hfetch]
    have hreg : c'.commandReg + c'.commandInc = c.commandReg + c.commandInc := by
      rw [hsame.commandReg, hsame.commandInc]
    refine .inr ⟨(c'.nextArg w).1, w, hw, ?_, { hcache' with }, hsame.memwatchAddr, ?_, hexp _ hreg hsame.commandInc ?_⟩
    · rw [← hreg]
      rfl
    · show c'.internalGet + 4 = _
      rw [hsame.internalGet, hget]
    · show c'.remaining - 1 = _
      rw [hsame.remaining]

theorem expects_of_remaining (hrem : c.remaining ≠ 0) :
    c.expects = .args (c.commandReg + c.commandInc) c.commandInc c.remaining := if_neg hrem

theorem Inv.deliverOther (h : Inv io s k) (hcaller : ({ s with ctrl := c }.deliver out).caller = .read)
    (hdel : ({ s with ctrl := c }.deliver out).delivered = s.delivered) (hcache : CacheOk s c k)
    (hmw : c.memwatchAddr = 0)
    (hget : (if c.remaining = 0 then c.internalGet else c.internalGet + 4) = s.base + 4 * k)
    (hexp : (ringRead (s.covered.take k)).place = c.expects)
    (hout : ({ s with ctrl := c }.deliver out).Outcome k) : Inv io ({ s with ctrl := c }.deliver out) k := by
  refine ⟨{ h.ring with }, { hcache with }, hmw, ?_, hdel.trans h.delivered, hout⟩
  unfold At
  rw [hcaller]
  exact ⟨hget, hexp⟩

theorem Inv.readUnsafe (h : Inv io s k) (hC : Smooth io mode s (.readUnsafe intact))
    (hs : s.readUnsafe io mode intact = some s') : ∃ k', Inv io s' k' := by
  have hhere := h.here
  have hplace := h.here.place
  have hpos := h.here.position
  unfold At at hhere
  cases hcaller : s.caller with
  | read | incGet => rw [Fifo.readUnsafe, hcaller] at hs; cases hs
  | readUnsafe =>
    rw [hcaller] at hhere
    have ⟨hget, hexp⟩ := hhere
    by_cases hrem : s.ctrl.remaining = 0
    · -- the packet is behind the FIFO
      have hcall : s.ctrl.readUnsafe (s.env io mode) intact =
          ({ s.ctrl with internalGet := s.ctrl.internalGet + 4 }, .ended) := if_neg (not_not_intro hrem)
      rw [readUnsafe_eq hcaller hcall] at hs
      refine ⟨k, Option.some.inj hs ▸ h.deliverOther rfl rfl { h.cache with } h.memwatch ?_ hexp
        ⟨nofun, nofun, nofun, nofun⟩⟩
      rw [if_pos hrem, hget]
    · have hcont :=
        fun hmode hk => hC hmode hrem (by rw [hpos]; exact hk)
      rcases readUnsafe_spec h.ring h.cache hrem hget hplace hcont intact with
        ⟨hk, hcall⟩ | ⟨c', w, hw, hcall, hcache, hmw, hget', hexp'⟩
      · rw [readUnsafe_eq hcaller hcall] at hs
        refine ⟨k, Option.some.inj hs ▸ h.deliverOther rfl rfl h.cache h.memwatch ?_ hexp
          ⟨fun _ => hk, nofun, nofun, nofun⟩⟩
        rw [if_neg hrem, hget]
      · rw [readUnsafe_eq hcaller hcall] at hs
        exact ⟨k + 1, Option.some.inj hs ▸ deliverPair h.ring h.delivered hw (hexp.trans (expects_of_remaining hrem))
          hcache (hmw.trans h.memwatch) hget' hexp'⟩

theorem Inv.resume (h : Inv io s k) (hcaller : s.caller = .read) (hrem : s.ctrl.remaining ≠ 0)
    (hC : Smooth io mode s (.read intact intact')) (hs : s.read io mode intact intact' = some s') : ∃ k', Inv io s' k' := by
  have hhere := h.here
  have hplace := h.here.place
  have hpos := h.here.position
  unfold At at hhere
  rw [hcaller] at hhere
  have ⟨hget, hexp⟩ := hhere
  rw [if_neg hrem] at hget
  have ⟨hlt, hfast⟩ := hC.1 hrem
  rcases readUnsafe_spec h.ring h.cache hrem hget hplace (fun hmode _ => hfast hmode) intact with
    ⟨hk, _⟩ | ⟨c', w, hw, hcall, hcache, hmw, hget', hexp'⟩
  · omega
  have hread : s.ctrl.read (s.env io mode) intact intact' =
      (c', some (.pair (s.ctrl.commandReg + s.ctrl.commandInc) w)) := by
    rw [FifoControl.read, if_pos hrem, hcall]
  rw [read_eq hcaller hread] at hs
  exact ⟨k + 1, Option.some.inj hs ▸ deliverPair h.ring h.delivered hw (hexp.trans (expects_of_remaining hrem))
    hcache (hmw.trans h.memwatch) hget' hexp'⟩

theorem firstArg_spec (mode : FifoMode) (hr : Ring io s k) (hk : k < s.covered.length)
    (hget : c.internalGet = s.base + 4 * k) :
    ∃ w, s.covered[k]? = some w ∧
      c.firstArg (s.env io mode) = ({ c with argsPtr := io.getAddr c.internalGet }, .pair (methodReg c.cmd) w) := by
  have ⟨w, hw, hmap, hword⟩ := hr.get_next hk hget
  refine ⟨w, hw, ?_⟩
  rw [← hword]
  exact if_neg hmap

theorem deliverFirst (hr : Ring io s k) (hd : s.delivered = (ringRead (s.covered.take k)).pairs)
    (hw : s.covered[k]? = some w) (hpend : c.Pending)
    (hplace : (ringRead (s.covered.take k)).place = .args (methodReg c.cmd) (methodInc c.cmd) (methodCount c.cmd))
    (hcache : CacheOk s c k) (hmw : c.memwatchAddr = 0) (hget : c.internalGet = s.base + 4 * k) :
    Inv io ({ s with ctrl := c }.deliver (.pair (methodReg c.cmd) w)) (k + 1) :=
  deliverPair hr hd hw hplace hcache hmw hget hpend.expects

theorem Inv.wake (h : Inv io s k) (hs : s.wake io mode = some s') : ∃ k', Inv io s' k' := by
  have hhere := h.here
  have hplace := h.here.place
  unfold At at hhere
  unfold Fifo.wake at hs
  split at hs
  next hcaller =>
    rw [hcaller] at hhere
    have ⟨hget, hpend, hargs⟩ := hhere
    have ⟨hput, hs⟩ := Option.ite_none_left_eq_some.mp hs
    have hne := fun hk =>
      hput (((h.ring.put_eq_iff hplace).mpr hk).trans hget.symm)
    have ⟨w, hw, hfirst⟩ := firstArg_spec mode h.ring (lt_of_le_of_ne h.ring.le hne) hget
    rw [hfirst] at hs
    refine ⟨k + 1, Option.some.inj hs ▸ ?_⟩
    exact deliverFirst h.ring h.delivered hw { hpend with } hargs { h.cache with } h.memwatch hget
  · cases hs

theorem packet_spec (hr : Ring io s k) (hd : s.delivered = (ringRead (s.covered.take k)).pairs)
    {intact' : Nat} (hmethod : isMethod cmd = true) (hpend : (c.enterPacket cmd).Pending)
    (hcmd : (c.enterPacket cmd).cmd = cmd) (hmw : (c.enterPacket cmd).memwatchAddr = 0)
    (hget : (c.enterPacket cmd).internalGet = s.base + 4 * k) (hcache : CacheOk s (c.enterPacket cmd) k)
    (hplace : (ringRead (s.covered.take k)).place = .args (methodReg cmd) (methodInc cmd) (methodCount cmd))
    (hfirst : mode ≠ .fast → k < s.covered.length) :
    (∃ c' out, c.readCommand (s.env io mode) cmd intact' = (c', some out) ∧
        Inv io ({ s with ctrl := c' }.deliver out) (k + 1)) ∨
      ∃ c', c.readCommand (s.env io mode) cmd intact' = (c', none) ∧
        Inv io { s with ctrl := c', caller := .incGet, last := none } k := by
  have hstop : (ringRead (s.covered.take k)).place ≠ .stopped := by
    rw [hplace]
    exact nofun
  have hcount := hcmd ▸ hpend.pos
  have hcall := readCommand_packet (c := c) (i := intact') (e := s.env io mode) hmethod hcount
  rw [hcall]
  rw [hcmd.symm] at hplace
  by_cases hmode : mode = .fast
  · rw [if_neg (show ¬ (s.env io mode).mode ≠ .fast from not_not_intro hmode)]
    by_cases hk : k = s.covered.length
    · -- the argument is not there, and `read` waits for it
      have hput : (s.env io mode).put = (c.enterPacket cmd).internalGet :=
        ((hr.put_eq_iff hstop).mpr hk).trans hget.symm
      rw [if_pos hput]
      exact .inr ⟨_, rfl, { hr with }, .of_invalid rfl, hmw, ⟨hget, { hpend with }, hplace⟩, hd, .of_none rfl⟩
    · have hput : (s.env io mode).put ≠ (c.enterPacket cmd).internalGet := fun heq =>
        hk ((hr.put_eq_iff hstop).mp (heq.trans hget))
      have ⟨w, hw, hfirst⟩ := firstArg_spec mode hr (lt_of_le_of_ne hr.le hk) hget
      rw [if_neg hput, hfirst]
      exact .inl ⟨_, _, rfl, deliverFirst hr hd hw { hpend with } hplace { hcache with } hmw hget⟩
  · rw [if_pos (show (s.env io mode).mode ≠ .fast from hmode), hget]
    have hlt := hfirst hmode
    rcases fetchU32_spec hr hcache hstop intact' with ⟨hk, _⟩ | ⟨c', w, hw, hfetch, hcache', hsame⟩
    · omega
    rw [hfetch]
    have hcmd' := hsame.cmd.trans hcmd
    refine .inl ⟨c', .pair (methodReg cmd) w, rfl, ?_⟩
    have hpend' : c'.Pending := by
      refine ⟨?_, ?_, ?_⟩
      · rw [hsame.cmd]
        exact hpend.pos
      · rw [hsame.cmd, hsame.remaining]
        exact hpend.remaining
      · rw [hsame.cmd, hsame.commandReg, hsame.commandInc]
        exact hpend.command
    rw [← hsame.cmd] at hplace
    have hdeliver := deliverFirst hr hd hw hpend' hplace hcache' (hsame.memwatchAddr.trans hmw)
      (hsame.internalGet.trans hget)
    rw [hcmd'] at hdeliver
    exact hdeliver

theorem Inv.command (h : Inv io s k) (hcaller : s.caller = .read) (hrem : s.ctrl.remaining = 0)
    (hw : s.covered[k]? = some w) (hsame : SameCommand s.ctrl c) (hcache : CacheOk s c k)
    (hread : s.ctrl.read (s.env io mode) intact intact' = c.readCommand (s.env io mode) w intact')
    (hC : mode ≠ .fast → s.HeaderCovered) (hs : s.read io mode intact intact' = some s') : ∃ k', Inv io s' k' := by
  have hhere := h.here
  have hpos := h.here.position
  have hlt := (List.getElem?_eq_some_iff.mp hw).1
  unfold At at hhere
  rw [hcaller] at hhere
  obtain ⟨hget, hexp⟩ := hhere
  rw [if_pos hrem] at hget
  have hremc := hsame.remaining.trans hrem
  have hgetc := hsame.internalGet.trans hget
  have hmwc := hsame.memwatchAddr.trans h.memwatch
  have hcommand := hexp.trans (if_pos hrem)
  have hexpc : c.expects = .command := if_pos hremc
  have hnext := ringRead_take_succ hw
  rw [RingRead.next, hcommand] at hnext
  by_cases hmethod : isMethod w = false
  · -- flow control, or a word that is malformed
    have hcall := hread.trans (if_pos hmethod)
    rw [read_eq hcaller hcall] at hs
    refine ⟨k, Option.some.inj hs ▸ ?_⟩
    have hgoal : ∀ out, (({ s with ctrl := { c with cmd := w } }.deliver out).caller = .read) →
        ({ s with ctrl := { c with cmd := w } }.deliver out).delivered = s.delivered →
        ({ s with ctrl := { c with cmd := w } }.deliver out).Outcome k →
        Inv io ({ s with ctrl := { c with cmd := w } }.deliver out) k := by
      intro out hc hd hout
      apply h.deliverOther hc hd { hcache with } hmwc _ _ hout
      · rw [if_pos hremc, hgetc]
      · exact hcommand.trans hexpc.symm
    cases hflow : isFlow w with
    | true =>
      refine hgoal _ rfl rfl ⟨by rintro ⟨⟩, fun cmd hcmd => ?_, by rintro ⟨⟩, by rintro ⟨⟩⟩
      injection hcmd with hcmd
      injection hcmd with hcmd
      subst hcmd
      exact ⟨hw, hflow⟩
    | false =>
      exact hgoal _ rfl rfl ⟨by rintro ⟨⟩, by rintro _ ⟨⟩, fun _ => ⟨w, hw, hmethod, hflow⟩, by rintro ⟨⟩⟩
  · have hmethod := Bool.eq_true_of_not_eq_false hmethod
    by_cases hcount : methodCount w = 0
    · have hcall := hread.trans (readCommand_nop hmethod hcount)
      rw [read_eq hcaller hcall] at hs
      have hnext : ringRead (s.covered.take (k + 1)) = ringRead (s.covered.take k) := by
        rw [hnext]
        rw [if_pos hmethod, if_pos hcount]
      have hr := h.ring.forward (le_succ k) hlt
      have hc := hcache.mono (le_succ k)
      refine ⟨k + 1, Option.some.inj hs ▸ ⟨{ hr with }, { hc with }, hmwc, ⟨?_, ?_⟩, ?_,
        ⟨by rintro ⟨⟩, by rintro _ ⟨⟩, by rintro ⟨⟩, by rintro ⟨⟩⟩⟩⟩
      · show (if c.remaining = 0 then c.internalGet + 4 else _) = s.base + 4 * (k + 1)
        rw [if_pos hremc]
        omega
      · show (ringRead (s.covered.take (k + 1))).place = c.expects
        rw [hnext, hcommand, hexpc]
      · show s.delivered = (ringRead (s.covered.take (k + 1))).pairs
        rw [hnext]
        exact h.delivered
    · obtain ⟨hpend, hcmd, hgetp, hmwp⟩ := pending_enterPacket hremc hcount
      have hargs : ringRead (s.covered.take (k + 1)) =
          { ringRead (s.covered.take k) with place := .args (methodReg w) (methodInc w) (methodCount w) } := by
        rw [hnext]
        rw [if_pos hmethod, if_neg hcount]
      have hplace : (ringRead (s.covered.take (k + 1))).place = .args (methodReg w) (methodInc w) (methodCount w) := by
        rw [hargs]
      have hd : s.delivered = (ringRead (s.covered.take (k + 1))).pairs := by
        rw [hargs]
        exact h.delivered
      have hfirst : mode ≠ .fast → k + 1 < s.covered.length := by
        intro hmode
        have hcov := hC hmode
        rw [HeaderCovered, hpos, hplace] at hcov
        exact hcov
      rcases packet_spec (h.ring.forward (le_succ k) hlt) hd hmethod hpend hcmd (hmwp.trans hmwc) (by omega)
        (enterPacket_cache s (hcache.mono (le_succ k))) hplace hfirst with
        ⟨c', out, hcall, hinv⟩ | ⟨c', hcall, hinv⟩
      · rw [read_eq hcaller (hread.trans hcall)] at hs
        exact ⟨k + 1 + 1, Option.some.inj hs ▸ hinv⟩
      · rw [read_eq_wait hcaller (hread.trans hcall)] at hs
        exact ⟨k + 1, Option.some.inj hs ▸ hinv⟩

theorem Inv.read (h : Inv io s k) (hC : Smooth io mode s (.read intact intact'))
    (hs : s.read io mode intact intact' = some s') : ∃ k', Inv io s' k' := by
  cases hcaller : s.caller with
  | readUnsafe | incGet => rw [Fifo.read, hcaller] at hs; cases hs
  | read =>
    by_cases hrem : s.ctrl.remaining = 0
    · have hhere := h.here
      have hstop := h.here.place
      unfold At at hhere
      rw [hcaller] at hhere
      have ⟨hget, hexp⟩ := hhere
      rw [if_pos hrem] at hget
      -- a ring that has been read up to PUT
      have hempty : k = s.covered.length → s.ctrl.read (s.env io mode) intact intact' = (s.ctrl, some .empty) →
          ∃ k', Inv io s' k' := by
        intro hk hcall
        rw [read_eq hcaller hcall] at hs
        refine ⟨k, Option.some.inj hs ▸ h.deliverOther rfl rfl h.cache h.memwatch ?_ hexp
          ⟨fun _ => hk, nofun, nofun, nofun⟩⟩
        rw [if_pos hrem, hget]
      by_cases hmode : mode = .fast
      · have hread := read_fast (i := intact) (j := intact') (e := s.env io mode) hrem h.memwatch hmode
        by_cases hk : k = s.covered.length
        · have hput : (s.env io mode).put = s.ctrl.internalGet := ((h.ring.put_eq_iff hstop).mpr hk).trans hget.symm
          rw [if_pos hput] at hread
          exact hempty hk hread
        have hput : (s.env io mode).put ≠ s.ctrl.internalGet := fun heq =>
          hk ((h.ring.put_eq_iff hstop).mp (heq.trans hget))
        have hlt := lt_of_le_of_ne h.ring.le hk
        have ⟨w, hw, hmap, hword⟩ := h.ring.get_next hlt hget
        rw [if_neg hput, if_neg (show (s.env io mode).io.getAddr _ ≠ umax from hmap),
          show (s.env io mode).mem ((s.env io mode).io.getAddr _) = w from hword] at hread
        exact h.command hcaller hrem hw (.refl _) h.cache hread (fun hne => absurd hmode hne) hs
      · have hread := read_cached (i := intact) (j := intact') (e := s.env io mode) hrem h.memwatch hmode
        rw [hget] at hread
        rcases fetchU32_spec h.ring h.cache hstop intact with ⟨hk, hfetch⟩ | ⟨c', w, hw, hfetch, hcache', hsame⟩
        · rw [hfetch] at hread
          exact hempty hk hread
        · rw [hfetch] at hread
          exact h.command hcaller hrem hw hsame hcache' hread (hC.2 hrem) hs
    · exact h.resume hcaller hrem hC hs

theorem inv_step (h : Inv io s k) {e : FifoEvent} (hC : Smooth io mode s e) (hs : s.step io mode e = some s') :
    ∃ k', Inv io s' k' := by
  cases e with
  | advance => exact ⟨k, h.advance hs⟩
  | leave => exact ⟨k, h.leave hs⟩
  | write => exact ⟨k, h.write hs⟩
  | read => exact h.read hC hs
  | readUnsafe => exact h.readUnsafe hC hs
  | wake => exact h.wake hs

theorem Inv.safe (h : Inv io s k) : FifoSafe s := by
  have hpos := h.here.position
  subst hpos
  refine ⟨h.ring.le, h.delivered, ?_, h.outcome.drained, h.outcome.flow, h.outcome.error, h.outcome.unset⟩
  intro ps hps
  rw [h.delivered, hps, ringRead_packets]

end Fifo

/-- In every run in which packets are taken up and resumed with their words covered, and with contiguous arguments in
the fast mode, the FIFO delivers what the ring encodes. -/
theorem fifo_safe {io : IoMap} {mode : FifoMode} {s : Fifo}
    (hs : ((fifoSystem io mode).restrict (Fifo.Smooth io mode)).Reachable s) : FifoSafe s := by
  have ⟨k, hinv⟩ : ∃ k, s.Inv io k := by
    apply hs.invariant
    · intro s ⟨c, mem, get, _, hlt, hmw, hs⟩
      subst hs
      refine ⟨0, ⟨le_refl 0, hlt, fun _ => rfl, nofun, nofun, nofun⟩,
        .of_invalid rfl, hmw, ⟨rfl, rfl⟩, rfl, .of_none rfl⟩
    · intro s e s' ⟨k, h⟩ hstep
      have ⟨hC, hstep⟩ := System.step_restrict.mp hstep
      exact Fifo.inv_step h hC hstep
  exact hinv.safe

/-- Two pages of io memory whose order in memory is the other one. -/
def swappedPages : IoMap where
  page i := if i = 0 then some 5 else if i = 1 then some 3 else none
  ioLt i p h := by
    split at h
    · omega
    · split at h
      · omega
      · cases h
  eaLt i p h := by
    split at h
    · injection h with h
      omega
    split at h
    · injection h with h
      omega
    · cases h

/-- A header for two arguments from register 0x100 on, at `get`, and its arguments. -/
def ringAt (get : Nat) : Fifo where
  ctrl := setGet { internalGet := 0 } get
  mem a :=
    if a = swappedPages.getAddr get then 0x00080100
    else if a = swappedPages.getAddr (get + 4) then 11
    else if a = swappedPages.getAddr (get + 8) then 22
    else if a = swappedPages.getAddr (get + 12) then 33
    else 99
  put := get
  base := get

theorem fifoSystem_init (mode : FifoMode) {get : Nat} (hmod : get % 4 = 0) (hlt : get < 2 ^ 32) :
    (fifoSystem swappedPages mode).init (ringAt get) :=
  ⟨{ internalGet := 0 }, _, get, hmod, hlt, rfl, rfl⟩

/-- A packet that waits in its middle, through the cache and across a page. -/
theorem fifo_safe_suspended : ∃ s,
    ((fifoSystem swappedPages .atomic).restrict (Fifo.Smooth swappedPages .atomic)).Reachable s ∧
      s.delivered = [(0x100, 11), (0x104, 22)] ∧ FifoSafe s :=
  System.Reachable.exists_of_run_and fifo_safe (fifoSystem_init .atomic (by decide : 0xffff8 % 4 = 0) (by decide))
    [.advance, .advance, .read 0 0, .readUnsafe 0, .write 0 7, .advance, .read 0 0, .readUnsafe 0] (by decide +kernel)

/-- A header whose first argument is not covered loses this argument; a page that is not contiguous is not noticed;
a packet that is resumed without its next word delivers nothing as if it were a pair. -/
theorem fifo_misreads : (∃ s, (fifoSystem swappedPages .atomic).Reachable s ∧ s.covered = [0x00080100, 11, 22, 33] ∧
      s.delivered = [(0x104, 22), (0x108, 33)] ∧ ¬ FifoSafe s) ∧
    (∃ s, (fifoSystem swappedPages .fast).Reachable s ∧ s.covered = [0x00080100, 11, 22] ∧
      s.delivered = [(0x100, 11), (0x104, 99)] ∧ ¬ FifoSafe s) ∧
    ∃ s, (fifoSystem swappedPages .fast).Reachable s ∧ s.last = some .unset ∧ ¬ FifoSafe s := by
  refine ⟨?_, ?_, ?_⟩
  · have ⟨s, hs, hc, hd, hp⟩ := System.Reachable.exists_of_run
      (fifoSystem_init .atomic (by decide : 0 % 4 = 0) (by decide))
      [.advance, .read 0 0, .advance, .advance, .advance, .read 0 0, .readUnsafe 0]
      (fun s => s.covered = [0x00080100, 11, 22, 33] ∧ s.delivered = [(0x104, 22), (0x108, 33)] ∧
        s.delivered ≠ (ringRead (s.covered.take s.position)).pairs) (by decide +kernel)
    exact ⟨s, hs, hc, hd, fun hsafe => hp hsafe.delivered⟩
  · have ⟨s, hs, hc, hd, hp⟩ := System.Reachable.exists_of_run
      (fifoSystem_init .fast (by decide : 0xffff8 % 4 = 0) (by decide))
      [.advance, .advance, .advance, .read 0 0, .readUnsafe 0]
      (fun s => s.covered = [0x00080100, 11, 22] ∧ s.delivered = [(0x100, 11), (0x104, 99)] ∧
        s.delivered ≠ (ringRead (s.covered.take s.position)).pairs) (by decide +kernel)
    exact ⟨s, hs, hc, hd, fun hsafe => hp hsafe.delivered⟩
  · have ⟨s, hs, hl⟩ := System.Reachable.exists_of_run (fifoSystem_init .fast (by decide : 0 % 4 = 0) (by decide))
      [.advance, .advance, .read 0 0, .readUnsafe 0, .read 0 0] (fun s => s.last = some .unset) (by decide +kernel)
    exact ⟨s, hs, hl, fun hsafe => hsafe.unset hl⟩

end Armsx3.Rsx
