import Armsx3.Library.ByteStore
import Armsx3.Library.Transition

/-!
# DmuxQueue — the output queue of the PAMF demuxer

Pointers are offsets from the start of the buffer, so that a `wrap_pos` of zero means that the back pointer has
not wrapped around.
-/

namespace Armsx3.Cell.DmuxPamf

inductive Ensure
  | auSize
  | auAddr
  | freeSize
  | cacheSize
  | pesPacketMissing
  | pesPacketPending
  | readBounds
deriving DecidableEq, Repr

/-- An `ensure` that fires, an access outside of a span, or the end of the rounds that a loop was given. -/
inductive Fault
  | ensure (e : Ensure)
  | outOfBounds
  | rounds
deriving DecidableEq, Repr

structure OutputQueue where
  size : Nat
  buffer : Nat → UInt8
  back : Nat := 0
  front : Nat := 0
  wrapPos : Nat := 0

/-- `static_cast<u32>` of a difference of pointers. -/
def sub32 (a b : Nat) : Nat := (a + 2 ^ 32 - b) % 2 ^ 32

namespace OutputQueue

def popBack (q : OutputQueue) (auSize : Nat) : Except Fault OutputQueue :=
  if auSize ≤ q.back then .ok { q with back := q.back - auSize } else .error (.ensure .auSize)

def popBackAddr (q : OutputQueue) (auAddr : Nat) : Except Fault OutputQueue :=
  if auAddr < q.size then
    .ok { q with wrapPos := if auAddr > q.back then 0 else q.wrapPos, back := auAddr }
  else .error (.ensure .auAddr)

def popFront (q : OutputQueue) (auSize : Nat) : Except Fault OutputQueue :=
  if q.front + auSize ≤ q.size then
    if q.wrapPos ≠ 0 ∧ q.wrapPos ≤ q.front + auSize then
      if q.wrapPos = q.front + auSize then .ok { q with front := 0, wrapPos := 0 } else .error (.ensure .auSize)
    else .ok { q with front := q.front + auSize }
  else .error (.ensure .auSize)

def clear (q : OutputQueue) : OutputQueue := { q with back := 0, front := 0, wrapPos := 0 }

def pushUnchecked (q : OutputQueue) (chunk : List UInt8) : OutputQueue :=
  { q with buffer := ByteStore.write q.buffer q.back chunk, back := q.back + chunk.length }

def fits (q : OutputQueue) (n : Nat) : Bool :=
  if q.wrapPos = 0 then !(n > sub32 q.size q.back) else !(n + 0x10 > sub32 q.front q.back)

/-- `push`; `none` if there is no space. -/
def push (q : OutputQueue) (chunk : List UInt8) : Option OutputQueue :=
  if q.fits chunk.length then some (q.pushUnchecked chunk) else none

/-- `prepare_next_au`; `none` if the back pointer cannot be wrapped around. -/
def prepareNextAu (q : OutputQueue) (auMaxSize : Nat) : Option OutputQueue :=
  if q.size < q.back + auMaxSize then
    if q.wrapPos ≠ 0 then none else some { q with wrapPos := q.back, back := 0 }
  else some q

def getFreeSize (q : OutputQueue) : Nat :=
  ((if q.wrapPos ≠ 0 then q.front else q.size) + 2 ^ 64 - q.back) % 2 ^ 64

end OutputQueue

inductive AuState
  | none
  | incomplete
  | commenced
  | complete
  | sizeMismatch
  | m2vSequence
deriving DecidableEq, Repr

inductive EsState
  | initial
  | pushingAuQueue
  | notifyingAuFound
  | preparingForNextAu
deriving DecidableEq, Repr

/-- What an elementary stream knows about the access unit that is being cut out.  The chunk is the cached bytes
of `au_chunk` followed by its data. -/
structure Cutter where
  auMaxSize : Nat
  queue : OutputQueue
  state : EsState := .initial
  au : AuState := .none
  accumulatedSize : Nat := 0
  chunk : List UInt8 := []

/-- `au_max_size` as the constructor of `elementary_stream` sets it. -/
def effectiveAuMaxSize (auMaxSize bufferSize : Nat) : Nat :=
  if auMaxSize = 2 ^ 32 - 1 ∨ auMaxSize > bufferSize then 0x800 else auMaxSize

/-- How far `process_pes_packet_data` gets: it returns because something is refused, it starts over one byte
later, or it goes on with the stream. -/
inductive Progress
  | stalled
  | mismatch
  | ready
deriving DecidableEq, Repr

/-- `found` is the access unit that `on_au_found` was called with, if it returned true. -/
structure Drained where
  cutter : Cutter
  progress : Progress
  found : Option (Nat × Nat) := none

namespace Cutter

def parsed (c : Cutter) (chunk : List UInt8) (au : AuState) : Cutter :=
  { c with
    chunk := chunk
    au := au
    accumulatedSize := (c.accumulatedSize + chunk.length) % 2 ^ 32
    state := .pushingAuQueue }

def prepare (c : Cutter) (found : Option (Nat × Nat)) : Drained :=
  if c.au = .complete then
    match c.queue.prepareNextAu c.auMaxSize with
    | none => ⟨{ c with state := .preparingForNextAu }, .stalled, found⟩
    | some queue => ⟨{ c with queue := queue, au := .none, accumulatedSize := 0, state := .initial }, .ready, found⟩
  else ⟨{ c with state := .initial }, .ready, found⟩

/-- `case state::notifying_au_found`; `accept` is what `on_au_found` returns. -/
def notify (c : Cutter) (accept : Bool) : Drained :=
  if c.au = .complete then
    if accept then c.prepare (some (c.queue.back - c.accumulatedSize, c.accumulatedSize))
    else ⟨{ c with state := .notifyingAuFound }, .stalled, none⟩
  else c.prepare none

/-- The rest of `case state::pushing_au_queue`, when the chunk was pushed. -/
def pushed (c : Cutter) (accept : Bool) : Except Fault Drained :=
  if c.au = .sizeMismatch then
    -- the whole access unit is removed
    (c.queue.popBack c.accumulatedSize).map fun queue =>
      ⟨{ c with queue := queue, accumulatedSize := 0, state := .initial }, .mismatch, none⟩
  else .ok (c.notify accept)

/-- From where the state machine is to where it stops, or to the start of its loop. -/
def drain (c : Cutter) (accept : Bool) : Except Fault Drained :=
  match c.state with
  | .initial => .ok ⟨c, .ready, none⟩
  | .pushingAuQueue =>
    if c.chunk = [] then c.pushed accept
    else match c.queue.push c.chunk with
      | none => .ok ⟨c, .stalled, none⟩
      | some queue => { c with queue := queue, chunk := [] }.pushed accept
  | .notifyingAuFound => .ok (c.notify accept)
  | .preparingForNextAu => .ok (c.prepare none)

end Cutter

/-! ## Runs -/

structure Found where
  addr : Nat
  size : Nat
  bytes : List UInt8
deriving DecidableEq, Repr

/-- `found` are the access units that were found and not released, and `current` the bytes that were pushed for
the one being cut out. -/
structure QueueState where
  cutter : Cutter
  found : List Found := []
  current : List UInt8 := []
  failed : Bool := false

/-- `parse` stands for any stream parser. -/
inductive QueueEvent
  | parse (chunk : List UInt8) (au : AuState) (accept : Bool)
  | resume (accept : Bool)
  | release

/-- The bytes of the current access unit go along with its chunks. -/
def QueueState.drained (s : QueueState) (chunk : List UInt8) : Except Fault Drained → QueueState
  | .error _ => { s with failed := true }
  | .ok r =>
    let current := if r.cutter.chunk = [] then s.current ++ chunk else s.current
    match r.found with
    | some (addr, size) =>
      { s with cutter := r.cutter, found := s.found ++ [⟨addr, size, current⟩], current := [] }
    | none =>
      { s with cutter := r.cutter, current := if r.progress = .mismatch then [] else current }

/-- Calls of `process_pes_packet_data` go on where the last one stopped, and access units are released between
them, in the order in which they were found. -/
def queueStep (s : QueueState) : QueueEvent → Option QueueState
  | .parse chunk au accept =>
    if s.cutter.state = .initial then
      some (s.drained chunk ((s.cutter.parsed chunk au).drain accept))
    else none
  | .resume accept =>
    if s.cutter.state = .initial then none
    else some (s.drained s.cutter.chunk (s.cutter.drain accept))
  | .release =>
    match s.found with
    | [] => none
    | f :: rest =>
      match s.cutter.queue.popFront f.size with
      | .ok queue => some { s with cutter := { s.cutter with queue := queue }, found := rest }
      | .error _ => some { s with failed := true }

/-- An elementary stream with a buffer and a maximum size of access units. -/
def queueSystem (size auMaxSize : BitVec 32) : Transition.System QueueState QueueEvent where
  init s := ∃ buffer, s = { cutter := {
    auMaxSize := effectiveAuMaxSize auMaxSize.toNat size.toNat
    queue := { size := size.toNat, buffer := buffer } } }
  step := queueStep

end Armsx3.Cell.DmuxPamf
