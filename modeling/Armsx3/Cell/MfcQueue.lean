import Armsx3.Cell.MfcCommand
import Armsx3.Library.Transition

/-!
# MfcQueue — the command queue of the memory flow controller

`process_mfc_cmd` for the commands that can be queued, `do_dma_check`, `do_mfc` and `MFC_WrListStallAck`.  How a list
transfer ends, the execution mask and whether transfers are shuffled are given with each step.
-/

namespace Armsx3.Cell

namespace SpuMfcCmd

def barrierClass (c : SpuMfcCmd) : Bool := c.cmd &&& ~~~0xc = MFC.barrier

def barrierFlag (c : SpuMfcCmd) : Bool := c.cmd &&& MFC.barrierMask ≠ 0

def flagged (c : SpuMfcCmd) : Bool := c.cmd &&& (MFC.barrierMask ||| MFC.fenceMask) ≠ 0

def isList (c : SpuMfcCmd) : Bool := c.cmd &&& MFC.listMask ≠ 0

def stalled (c : SpuMfcCmd) : Bool := c.tag &&& 0x80 ≠ 0

end SpuMfcCmd

def tagMask (tag : BitVec 8) : BitVec 32 := (1 : BitVec 32).rotateLeft tag.toNat

inductive ListOutcome
  | finished
  | stalled (eal lsa : BitVec 32) (size : BitVec 16)

structure MfcEntry where
  cmd : SpuMfcCmd := ⟨0, 0, 0, 0, 0, 0⟩
  /-- the number of the command, and whether its log has a start -/
  id : Nat := 0
  started : Bool := false

inductive MfcLog
  | start (id : Nat)
  | finish (id : Nat)
deriving DecidableEq, Repr

structure MfcState where
  /-- the slots of `mfc_queue` -/
  queue : Nat → MfcEntry := fun _ => {}
  size : BitVec 32 := 0
  barrier : BitVec 32 := 0
  fence : BitVec 32 := 0
  stallMask : BitVec 32 := 0
  /-- the commands in the order they were issued -/
  issued : List SpuMfcCmd := []
  log : List MfcLog := []

namespace MfcState

def starts (e : MfcEntry) : List MfcLog := if e.started then [] else [.start e.id]

def execute (s : MfcState) (e : MfcEntry) : MfcState := { s with log := s.log ++ (starts e ++ [.finish e.id]) }

def stall (e : MfcEntry) (eal lsa : BitVec 32) (size : BitVec 16) : MfcEntry :=
  { e with cmd := { e.cmd with tag := e.cmd.tag ||| 0x80, eal := eal, lsa := lsa, size := size }, started := true }

def executeStalled (s : MfcState) (i : Nat) (e : MfcEntry) (eal lsa : BitVec 32) (size : BitVec 16) : MfcState :=
  { s with
    queue := Function.update s.queue i (stall e eal lsa size)
    stallMask := s.stallMask ||| tagMask e.cmd.tag
    log := s.log ++ starts e }

end MfcState

/-! ## Passes over the queue -/

structure MfcPass where
  state : MfcState
  removed : Nat := 0
  barrier : BitVec 32 := 0
  fence : BitVec 32 := 0
  pending : Bool := false

namespace MfcPass

/-- Blocks what has to wait for a command that stays in the queue. -/
def block (p : MfcPass) (c : SpuMfcCmd) : MfcPass :=
  { p with
    barrier := if c.barrierFlag then p.barrier ||| tagMask c.tag else p.barrier
    fence := p.fence ||| tagMask c.tag }

/-- `process_command` on slot `i`, and whether the command is to be removed.  `reenter` is what comes of the call of
`test_stopped` in the store of a `PUTQLLUC`. -/
def processCommand (execMask : BitVec 16) (outcome : Nat → ListOutcome) (reenter : Nat → MfcState → MfcState)
    (p : MfcPass) (i : Nat) : Bool × MfcPass :=
  let e := p.state.queue i
  let mask := tagMask e.cmd.tag
  if e.cmd.barrierClass then
    -- a barrier-class command is removed if it is the first in the queue
    if i ≤ p.removed then (true, { p with removed := p.removed + 1, state := p.state.execute e })
    else (false, { p with barrier := .allOnes 32, fence := p.fence ||| mask })
  else if p.barrier &&& mask ≠ 0 then (false, { p with fence := p.fence ||| mask })
  else if e.cmd.flagged && p.fence &&& mask ≠ 0 then
    (false, { p with barrier := if e.cmd.barrierFlag then p.barrier ||| mask else p.barrier })
  else if !execMask.getLsbD i then (false, { p.block e.cmd with pending := true })
  else if e.cmd.isList then
    if e.cmd.stalled then (false, p.block e.cmd)
    else
      match outcome i with
      | .finished => (true, { p with removed := p.removed + 1, state := p.state.execute e })
      | .stalled eal lsa size =>
        (false, { p with state := p.state.executeStalled i e eal lsa size }.block e.cmd)
  else if e.cmd.cmd = MFC.putqlluc then
    if p.fence &&& mask ≠ 0 then (false, p)
    else (true, { p with removed := p.removed + 1, state := reenter i (p.state.execute e) })
  else (true, { p with removed := p.removed + 1, state := p.state.execute e })

/-- One round of `std::remove_if`: what is kept moves down over what was removed. -/
def visit (execMask : BitVec 16) (outcome : Nat → ListOutcome) (reenter : Nat → MfcState → MfcState)
    (p : MfcPass) (i : Nat) : MfcPass :=
  let r := p.processCommand execMask outcome reenter i
  if r.1 then r.2
  else
    let queue := r.2.state.queue
    { r.2 with state := { r.2.state with queue := Function.update queue (i - p.removed) (queue i) } }

end MfcPass

namespace MfcState

def pass (execMask : BitVec 16) (outcome : Nat → ListOutcome) (reenter : Nat → MfcState → MfcState)
    (s : MfcState) : MfcState :=
  let p := (List.range s.size.toNat).foldl (MfcPass.visit execMask outcome reenter) { state := s }
  { p.state with size := p.state.size - BitVec.ofNat 32 p.removed, barrier := p.barrier, fence := p.fence }

/-- What a round depends on; `nested` are the rounds of `do_mfc` that `cpu_work` makes when it is called from the store
of the command in a slot (`in_cpu_work` allows no further nesting). -/
structure RoundInput where
  execMask : BitVec 16 := .allOnes 16
  outcome : Nat → ListOutcome := fun _ => .finished
  nested : Nat → List (BitVec 16 × (Nat → ListOutcome)) := fun _ => []

def doMfc (s : MfcState) (r : RoundInput) : MfcState :=
  s.pass r.execMask r.outcome fun i s =>
    (r.nested i).foldl (fun s n => s.pass n.1 n.2 fun _ s => s) s

/-! ## Issuing commands -/

def doDmaCheck (s : MfcState) (c : SpuMfcCmd) : Bool :=
  let mask := tagMask c.tag
  !(s.barrier &&& mask ≠ 0 || c.flagged && s.fence &&& mask ≠ 0)

/-- `mfc_queue[mfc_size++] = e`, with the bits for the command. -/
def enqueue (s : MfcState) (e : MfcEntry) : MfcState :=
  { s with
    queue := Function.update s.queue s.size.toNat e
    size := s.size + 1
    fence := s.fence ||| tagMask e.cmd.tag
    barrier := if e.cmd.barrierFlag then s.barrier ||| tagMask e.cmd.tag else s.barrier }

def singleCommands : List MFC := [.put, .putb, .putf, .putr, .putrb, .putrf, .get, .getb, .getf, .sdcrz]
def signalCommands : List MFC := [.sndsig, .sndsigb, .sndsigf]
def listCommands : List MFC := [.putl, .putlb, .putlf, .putrl, .putrlb, .putrlf, .getl, .getlb, .getlf]
def barrierCommands : List MFC := [.barrier, .eieio, .sync]

/-- `process_mfc_cmd` with room in the queue, in the cases of the commands that can be queued; `none` is the exception for
an unknown command. -/
def processMfcCmd (s : MfcState) (c : SpuMfcCmd) (shuffling : Bool) (outcome : ListOutcome) : Option MfcState :=
  let e : MfcEntry := { cmd := c, id := s.issued.length }
  let s := { s with issued := s.issued ++ [c] }
  if c.cmd = MFC.putqlluc then
    if (s.barrier ||| s.fence) &&& tagMask c.tag ≠ 0 then some (s.enqueue e) else some (s.execute e)
  else if c.cmd ∈ singleCommands ∨ c.cmd ∈ signalCommands ∧ c.size = 4 then
    if c.size ≤ 0x4000 then
      if s.doDmaCheck c && !shuffling then some (s.execute e) else some (s.enqueue e)
    else none
  else if c.cmd ∈ listCommands then
    if c.size ≤ 0x4000 then
      if s.doDmaCheck c && !shuffling then
        if c.size = 0 then some (s.execute e)
        else
          match outcome with
          | .finished => some (s.execute e)
          | .stalled eal lsa size =>
            some ((s.executeStalled s.size.toNat e eal lsa size).enqueue (stall e eal lsa size))
      else some (s.enqueue e)
    else none
  else if c.cmd ∈ barrierCommands then
    if s.size = 0 then some (s.execute e)
    else some { s.enqueue e with barrier := .allOnes 32 }
  else none

def stallAck (s : MfcState) (value : BitVec 8) : MfcState :=
  let tag := value &&& 0x1f
  if s.stallMask &&& tagMask tag ≠ 0 then
    { s with
      stallMask := s.stallMask &&& ~~~tagMask tag
      queue := fun i =>
        let e := s.queue i
        if e.cmd.tag = tag ||| 0x80 then { e with cmd := { e.cmd with tag := e.cmd.tag &&& 0x7f } } else e }
  else s

end MfcState

inductive MfcEvent
  | issue (cmd : SpuMfcCmd) (shuffling : Bool) (outcome : ListOutcome)
  | round (input : MfcState.RoundInput)
  | stallAck (value : BitVec 8)

/-- The queue under any commands, rounds of `do_mfc` and acknowledgements.  `MFC_TagID` keeps five bits of the tag, and
a command is not taken while the queue is full. -/
def mfcSystem : Transition.System MfcState MfcEvent where
  init s := s = {}
  step s
    | .issue cmd shuffling outcome =>
      if s.size < 16 then s.processMfcCmd { cmd with tag := cmd.tag &&& 0x1f } shuffling outcome else none
    | .round input => some (s.doMfc input)
    | .stallAck value => some (s.stallAck value)

/-! ## The order of commands -/

/-- The later command `b` may start only when the earlier command `a` has completed. -/
def mustPrecede (a b : SpuMfcCmd) : Bool :=
  a.barrierClass || b.barrierClass || a.tag &&& 0x1f = b.tag &&& 0x1f && (a.barrierFlag || b.flagged)

/-- Every start in the log comes after the completions it has to wait for. -/
def MfcState.Ordered (s : MfcState) : Prop :=
  ∀ i n, s.log[i]? = some (.start n) → ∀ m a b, m < n → s.issued[m]? = some a → s.issued[n]? = some b →
    mustPrecede a b → .finish m ∈ s.log.take i

end Armsx3.Cell
