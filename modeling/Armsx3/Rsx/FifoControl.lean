import Armsx3.Library.Transition
import Armsx3.Rsx.FifoRing

/-!
# FifoControl — reading the command ring of the RSX

`FIFO_control::read`, `read_unsafe` and what they call, in the fast mode, which reads the memory directly, and in the
modes that read through a cache of 32 lines.  The guest writes to memory and moves PUT word by word; the state lists the
words that PUT has covered since `set_get`.
-/

namespace Armsx3.Rsx

def umax : Nat := 2 ^ 32 - 1

/-- `rsx_iomap_table::ea`.  `sys_rsx_context_iomap` admits the first 512 MiB of io addresses; the highest two pages of
memory cannot be mapped. -/
structure IoMap where
  page : Nat → Option Nat
  ioLt : ∀ i p, page i = some p → i < 512
  eaLt : ∀ i p, page i = some p → p < 0xffe

namespace IoMap

def getAddr (io : IoMap) (offs : Nat) : Nat :=
  match io.page (offs / 2 ^ 20) with
  | some p => p * 2 ^ 20 + offs % 2 ^ 20
  | none => umax

end IoMap

inductive FifoMode
  | fast | atomic | atomicOrdered | asPs3
deriving DecidableEq, Repr

structure FifoControl where
  internalGet : Nat
  memwatchAddr : Nat := 0
  memwatchCmp : BitVec 32 := 0
  commandReg : Nat := 0
  commandInc : Nat := 0
  remaining : Nat := 0
  argsPtr : Nat := 0
  cmd : BitVec 32 := 0xffffffff
  cacheAddr : Nat := 0
  cacheSize : Nat := 0
  cache : Nat → BitVec 32 := fun _ => 0

/-- What a call can see: the io table, the memory and PUT. -/
structure FifoEnv where
  io : IoMap
  mode : FifoMode
  mem : Nat → BitVec 32
  put : Nat

inductive Fetched
  | ok (word : BitVec 32)
  | empty
  | error
deriving DecidableEq, Repr

/-- What a call leaves in `data`, or that it returns false. -/
inductive FifoOutput
  | pair (reg : Nat) (value : BitVec 32)
  | empty
  | nop
  | flow (cmd : BitVec 32)
  | error
  /-- `read` returns without having set `data`. -/
  | unset
  /-- `read_unsafe` has left a packet behind. -/
  | ended
deriving DecidableEq, Repr

namespace FifoControl

/-- `set_get`, where it does not find the FIFO spinning. -/
def setGet (c : FifoControl) (get : Nat) : FifoControl :=
  { c with cacheSize := 0, internalGet := get, remaining := 0 }

def cacheOffset (c : FifoControl) (addr : Nat) : Nat := (addr + 2 ^ 32 - c.cacheAddr) % 2 ^ 32

/-- `(put | 0x7f) - m_cache_addr` in 32 bits, up to the size of the cache. -/
def linesToPut (env : FifoEnv) (cacheAddr : Nat) : Nat :=
  min ((env.put / 128 * 128 + 127 + 2 ^ 32 - cacheAddr) % 2 ^ 32) 4095 + 1

/-- The size of a refill from `cacheAddr`, which is at `addr1` in memory: it ends with the page if the memory layout
changes there. -/
def refillSize (env : FifoEnv) (cacheAddr addr1 : Nat) : Nat :=
  if 2 ^ 20 - cacheAddr % 2 ^ 20 < linesToPut env cacheAddr ∧
      addr1 / 2 ^ 20 + 1 ≠ env.io.getAddr (cacheAddr + 2 ^ 20) / 2 ^ 20 then
    2 ^ 20 - cacheAddr % 2 ^ 20
  else linesToPut env cacheAddr

def lineOf (addr : Nat) : Nat := addr / 128 * 128

/-- The lines that are fetched.  `intact` of them were there when the first one was found to be changing; with two or
more the refill is content, except in the mode that fills the cache by force. -/
def keptLines (mode : FifoMode) (intact lines : Nat) : Nat :=
  if mode ≠ .atomicOrdered ∧ 2 ≤ intact ∧ intact < lines then intact else lines

/-- The cache after a refill from `addr1` in memory; a full one is adjusted to the bounds that PUT gives. -/
def refilled (c : FifoControl) (env : FifoEnv) (addr addr1 intact : Nat) : FifoControl :=
  let size := refillSize env (lineOf addr) addr1
  let kept := keptLines env.mode intact (size / 128)
  { c with
    cacheAddr := lineOf addr
    cacheSize :=
      if kept < size / 128 then 128 * kept
      else if addr < env.put ∧ env.put < lineOf addr + size then env.put - lineOf addr
      else size
    cache := fun off => if off < 128 * kept then env.mem (addr1 + off) else c.cache off }

def refill (c : FifoControl) (env : FifoEnv) (addr intact : Nat) : FifoControl × Fetched :=
  if env.put = addr then (c, .empty)
  else
    let addr1 := env.io.getAddr (lineOf addr)
    if addr1 = umax then ({ c with cacheAddr := lineOf addr, cacheSize := 0 }, .error)
    else
      let c := c.refilled env addr addr1 intact
      (c, .ok (c.cache (addr - c.cacheAddr)))

def fetchU32 (c : FifoControl) (env : FifoEnv) (addr intact : Nat) : FifoControl × Fetched :=
  if c.cacheSize ≤ c.cacheOffset addr then c.refill env addr intact
  else (c, .ok (c.cache (c.cacheOffset addr)))

def nextArg (c : FifoControl) (arg : BitVec 32) : FifoControl × FifoOutput :=
  ({ c with
      internalGet := c.internalGet + 4
      commandReg := c.commandReg + c.commandInc
      remaining := c.remaining - 1 }, .pair (c.commandReg + c.commandInc) arg)

def readUnsafe (c : FifoControl) (env : FifoEnv) (intact : Nat) : FifoControl × FifoOutput :=
  if c.remaining ≠ 0 then
    if env.mode ≠ .fast then
      match c.fetchU32 env (c.internalGet + 4) intact with
      | (c, .ok arg) => c.nextArg arg
      | (c, .empty) => (c, .empty)
      | (c, .error) => (c, .error)
    else if c.internalGet + 4 = env.put then (c, .empty)
    else { c with argsPtr := c.argsPtr + 4 }.nextArg (env.mem (c.argsPtr + 4))
  else ({ c with internalGet := c.internalGet + 4 }, .ended)

/-- The end of `read` in the fast mode, behind `inc_get`. -/
def firstArg (c : FifoControl) (env : FifoEnv) : FifoControl × FifoOutput :=
  let argsPtr := env.io.getAddr c.internalGet
  let c := { c with argsPtr }
  if argsPtr = umax then (c, .error) else (c, .pair (methodReg c.cmd) (env.mem argsPtr))

/-- The readback parameters of a packet are set up for more than one argument; GET moves to the first one. -/
def enterPacket (c : FifoControl) (cmd : BitVec 32) : FifoControl :=
  if 1 < methodCount cmd then
    { c with
      cmd
      internalGet := c.internalGet + 4
      commandReg := methodReg cmd
      commandInc := methodInc cmd
      remaining := methodCount cmd - 1 }
  else { c with cmd, internalGet := c.internalGet + 4 }

/-- `read` on a command that it has fetched; `none` stands for the wait in `inc_get`. -/
def readCommand (c : FifoControl) (env : FifoEnv) (cmd : BitVec 32) (intact : Nat) : FifoControl × Option FifoOutput :=
  if isMethod cmd = false then ({ c with cmd }, some (if isFlow cmd then .flow cmd else .error))
  else if methodCount cmd = 0 then ({ c with cmd, internalGet := c.internalGet + 4 }, some .nop)
  else if env.mode ≠ .fast then
    match (c.enterPacket cmd).fetchU32 env (c.enterPacket cmd).internalGet intact with
    | (c, .ok arg) => (c, some (.pair (methodReg cmd) arg))
    | (c, .error) => (c, some .error)
    | (c, .empty) => ({ c with commandReg := methodReg cmd, remaining := c.remaining + 1 }, some .empty)
  else if env.put = (c.enterPacket cmd).internalGet then ({ c.enterPacket cmd with cacheSize := 0 }, none)
  else
    match (c.enterPacket cmd).firstArg env with
    | (c, out) => (c, some out)

/-- The check for a jump to itself; `none` if the FIFO is still spinning. -/
def memwatch (c : FifoControl) (env : FifoEnv) : Option FifoControl :=
  if c.memwatchAddr ≠ 0 then
    if c.internalGet = c.memwatchAddr ∧ env.io.getAddr c.memwatchAddr ≠ umax ∧
        env.mem (env.io.getAddr c.memwatchAddr) = c.memwatchCmp then none
    else some { c with memwatchAddr := 0, memwatchCmp := 0 }
  else some c

def read (c : FifoControl) (env : FifoEnv) (intact intact' : Nat) : FifoControl × Option FifoOutput :=
  if c.remaining ≠ 0 then
    -- the result of `read_unsafe` is not looked at
    match c.readUnsafe env intact with
    | (c, .pair reg value) => (c, some (.pair reg value))
    | (c, _) => (c, some .unset)
  else
    match c.memwatch env with
    | none => (c, some .empty)
    | some c =>
      if env.mode = .fast then
        if env.put = c.internalGet then (c, some .empty)
        else if env.io.getAddr c.internalGet = umax then (c, some .error)
        else c.readCommand env (env.mem (env.io.getAddr c.internalGet)) intact'
      else
        match c.fetchU32 env c.internalGet intact with
        | (c, .ok cmd) => c.readCommand env cmd intact'
        | (c, .empty) => (c, some .empty)
        | (c, .error) => (c, some .error)

end FifoControl

/-- The next call of `run_FIFO`; in `incGet` it is inside `read`. -/
inductive FifoCaller
  | read | readUnsafe | incGet
deriving DecidableEq, Repr

structure Fifo where
  ctrl : FifoControl
  mem : Nat → BitVec 32
  put : Nat
  caller : FifoCaller := .read
  base : Nat
  /-- The words from there that PUT has covered. -/
  covered : List (BitVec 32) := []
  /-- The guest goes on writing elsewhere, behind a word of flow control. -/
  left : Bool := false
  delivered : List (Nat × BitVec 32) := []
  /-- The outcome of the last event, if it was a call. -/
  last : Option FifoOutput := none

namespace Fifo

def env (s : Fifo) (io : IoMap) (mode : FifoMode) : FifoEnv where
  io := io
  mode := mode
  mem := s.mem
  put := s.put

/-- How many words are behind the FIFO: in a packet GET is at the last argument that was delivered. -/
def position (s : Fifo) : Nat :=
  match s.caller with
  | .readUnsafe => (s.ctrl.internalGet + 4 - s.base) / 4
  | .incGet => (s.ctrl.internalGet - s.base) / 4
  | .read => if s.ctrl.remaining = 0 then (s.ctrl.internalGet - s.base) / 4 else (s.ctrl.internalGet + 4 - s.base) / 4

/-! ## The guest -/

def advance (s : Fifo) (io : IoMap) : Option Fifo :=
  if s.left = false ∧ io.getAddr s.put ≠ umax then
    some { s with put := s.put + 4, covered := s.covered ++ [s.mem (io.getAddr s.put)], last := none }
  else none

/-- The guest has written a word of flow control, and PUT goes on somewhere else. -/
def leave (s : Fifo) (put : Nat) : Option Fifo :=
  if (ringRead s.covered).place = .stopped ∧ put % 4 = 0 ∧ put < 2 ^ 32 ∧
      (put < s.base ∨ s.base + 4 * s.covered.length ≤ put) then
    some { s with put, left := true, last := none }
  else none

/-- The guest writes to a word that is not covered and unread. -/
def write (s : Fifo) (io : IoMap) (ea : Nat) (value : BitVec 32) : Option Fifo :=
  if ∀ k < s.covered.length, s.position ≤ k → io.getAddr (s.base + 4 * k) ≠ ea then
    some { s with mem := fun a => if a = ea then value else s.mem a, last := none }
  else none

/-! ## The calls -/

def deliver (s : Fifo) (out : FifoOutput) : Fifo :=
  { s with
    caller := match out with
      | .pair _ _ | .unset => .readUnsafe
      | _ => .read
    delivered := match out with
      | .pair reg value => s.delivered ++ [(reg, value)]
      | _ => s.delivered
    last := some out }

def read (s : Fifo) (io : IoMap) (mode : FifoMode) (intact intact' : Nat) : Option Fifo :=
  match s.caller with
  | .read =>
    match s.ctrl.read (s.env io mode) intact intact' with
    | (ctrl, some out) => some ({ s with ctrl }.deliver out)
    | (ctrl, none) => some { s with ctrl, caller := .incGet, last := none }
  | _ => none

def readUnsafe (s : Fifo) (io : IoMap) (mode : FifoMode) (intact : Nat) : Option Fifo :=
  match s.caller with
  | .readUnsafe =>
    let (ctrl, out) := s.ctrl.readUnsafe (s.env io mode) intact
    some ({ s with ctrl }.deliver out)
  | _ => none

def wake (s : Fifo) (io : IoMap) (mode : FifoMode) : Option Fifo :=
  match s.caller with
  | .incGet =>
    if s.put = s.ctrl.internalGet then none
    else
      let (ctrl, out) := s.ctrl.firstArg (s.env io mode)
      some ({ s with ctrl }.deliver out)
  | _ => none

end Fifo

inductive FifoEvent
  | advance
  | leave (put : Nat)
  | write (ea : Nat) (value : BitVec 32)
  | read (intact intact' : Nat)
  | readUnsafe (intact : Nat)
  | wake
deriving DecidableEq, Repr

def Fifo.step (io : IoMap) (mode : FifoMode) (s : Fifo) : FifoEvent → Option Fifo
  | .advance => s.advance io
  | .leave put => s.leave put
  | .write ea value => s.write io ea value
  | .read intact intact' => s.read io mode intact intact'
  | .readUnsafe intact => s.readUnsafe io mode intact
  | .wake => s.wake io mode

/-- The FIFO from `set_get` on, with PUT at the same place. -/
def fifoSystem (io : IoMap) (mode : FifoMode) : Transition.System Fifo FifoEvent where
  init s := ∃ (c : FifoControl) (mem : Nat → BitVec 32) (get : Nat), get % 4 = 0 ∧ get < 2 ^ 32 ∧ c.memwatchAddr = 0 ∧
    s = { ctrl := c.setGet get, mem, put := get, base := get }
  step := Fifo.step io mode

namespace Fifo

/-- The next argument is behind the last one in memory too. -/
def Contiguous (s : Fifo) (io : IoMap) : Prop := io.getAddr (s.ctrl.internalGet + 4) = s.ctrl.argsPtr + 4

instance (s : Fifo) (io : IoMap) : Decidable (s.Contiguous io) :=
  inferInstanceAs (Decidable (_ = _))

/-- The next word is covered, and if it is the header of a packet, so is the first argument. -/
def HeaderCovered (s : Fifo) : Prop :=
  match (ringRead (s.covered.take (s.position + 1))).place with
  | .args _ _ _ => s.position + 1 < s.covered.length
  | _ => True

instance (s : Fifo) : Decidable s.HeaderCovered :=
  match h : (ringRead (s.covered.take (s.position + 1))).place with
  | .args _ _ _ => decidable_of_iff (s.position + 1 < s.covered.length) (by rw [HeaderCovered, h])
  | .command | .stopped => .isTrue (by rw [HeaderCovered, h]; trivial)

/-- A packet is resumed with the next word covered, and in the fast mode its arguments are contiguous in memory; in the
other modes a header is read with its first argument covered. -/
def Smooth (io : IoMap) (mode : FifoMode) (s : Fifo) : FifoEvent → Prop
  | .read _ _ =>
    (s.ctrl.remaining ≠ 0 → s.position < s.covered.length ∧ (mode = .fast → s.Contiguous io)) ∧
    (s.ctrl.remaining = 0 → mode ≠ .fast → s.HeaderCovered)
  | .readUnsafe _ => mode = .fast → s.ctrl.remaining ≠ 0 → s.position < s.covered.length → s.Contiguous io
  | _ => True

instance (io : IoMap) (mode : FifoMode) (s : Fifo) (e : FifoEvent) : Decidable (Smooth io mode s e) :=
  match e with
  | .read _ _ => inferInstanceAs (Decidable (_ ∧ _))
  | .readUnsafe _ => inferInstanceAs (Decidable (_ → _))
  | .advance | .leave _ | .write _ _ | .wake => .isTrue trivial

end Fifo

/-- The pairs that were delivered are those of the words behind the FIFO, and it stops only where it must. -/
structure FifoSafe (s : Fifo) : Prop where
  position : s.position ≤ s.covered.length
  delivered : s.delivered = (ringRead (s.covered.take s.position)).pairs
  /-- Of packets, these are the arguments with their registers. -/
  packets : ∀ ps : List Packet, s.covered.take s.position = ps.flatMap Packet.words →
    s.delivered = ps.flatMap Packet.pairs
  /-- The FIFO is found empty only at PUT. -/
  drained : s.last = some .empty → s.position = s.covered.length
  flow : ∀ cmd, s.last = some (.flow cmd) → s.covered[s.position]? = some cmd ∧ isFlow cmd = true
  error : s.last = some .error → ∃ cmd, s.covered[s.position]? = some cmd ∧ isMethod cmd = false ∧ isFlow cmd = false
  unset : s.last ≠ some .unset

end Armsx3.Rsx
