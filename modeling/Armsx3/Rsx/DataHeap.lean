import Armsx3.Library.Transition

/-!
# DataHeap — the ring buffer memory helper

`rsx::data_heap`, with the stub of `grow`, and runs of it.  Positions in the record of a run are also counted from the
first lap around the heap, so that they never go back; the heap itself knows nothing of this.
-/

namespace Armsx3.Rsx

abbrev Usz := BitVec 64

def alignUsz (value align : Usz) : Usz := (value + (align - 1)) &&& (0 - align)

structure DataHeap where
  size : Usz
  putPos : Usz
  getPos : Usz
  minGuardSize : Usz := 0x10000
  name : String := "<unnamed>"
deriving DecidableEq, Repr

inductive HeapError
  /-- `[%s] Working buffer not big enough, buffer_length=%d requested=%d guard=%d` -/
  | notBigEnough (name : String) (bufferLength requested guard : Usz)
  | misaligned
deriving DecidableEq, Repr

/-- The `Alignment` of a template, a power of two that is an `int`. -/
def alignment (k : Fin 31) : Usz := BitVec.ofNat 64 (2 ^ k.val)

namespace DataHeap

def initial (heapSize : Usz) (bufferName : Option String) (minGuardSize : Usz) : DataHeap where
  size := heapSize
  putPos := 0
  getPos := heapSize - 1
  minGuardSize := minGuardSize
  name := bufferName.getD "<unnamed>"

def canAllocImpl (h : DataHeap) (alignedPutPos alignedAllocSize : Usz) : Bool :=
  let allocEnd := alignedPutPos + alignedAllocSize
  if allocEnd < h.size then
    -- range before get, or range after get
    if allocEnd < h.getPos then true else alignedPutPos > h.getPos
  else if alignedPutPos < h.getPos then false
  -- all resources extending beyond heap space start at 0
  else if alignedAllocSize > h.getPos then false
  else true

def canAlloc (h : DataHeap) (k : Fin 31) (size : Usz) : Bool :=
  h.canAllocImpl (alignUsz h.putPos (alignment k)) (alignUsz size (alignment k))

def grow (_h : DataHeap) (_size : Usz) : Bool := false

/-- What `alloc` and `static_alloc` do once the allocation is known to be possible. -/
def place (h : DataHeap) (alignedPutPos allocSize : Usz) : DataHeap × Usz :=
  let allocEnd := alignedPutPos + allocSize
  if allocEnd < h.size then ({ h with putPos := allocEnd }, alignedPutPos) else ({ h with putPos := allocSize }, 0)

def notBigEnough (h : DataHeap) (requested : Usz) : HeapError :=
  .notBigEnough h.name h.size requested h.minGuardSize

def alloc (h : DataHeap) (k : Fin 31) (size : Usz) : Except HeapError (DataHeap × Usz) :=
  let allocSize := alignUsz size (alignment k)
  let alignedPutPos := alignUsz h.putPos (alignment k)
  if !h.canAlloc k size && !h.grow allocSize then .error (h.notBigEnough size)
  else .ok (h.place alignedPutPos allocSize)

def staticAlloc (h : DataHeap) (k : Fin 31) (size : Usz) : Except HeapError (DataHeap × Usz) :=
  if h.putPos &&& (alignment k - 1) ≠ 0 then .error .misaligned
  else if !h.canAllocImpl h.putPos size && !h.grow size then .error (h.notBigEnough size)
  else .ok (h.place h.putPos size)

def getCurrentPutPosMinusOne (h : DataHeap) : Usz := if h.putPos > 0 then h.putPos - 1 else h.size - 1

def setGetPos (h : DataHeap) (value : Usz) : DataHeap := { h with getPos := value }

end DataHeap

/-! ## Runs -/

structure HeapAlloc where
  pos : Usz
  size : Usz
  align : Fin 31
  lap : Nat
deriving DecidableEq, Repr

/-- A value of `get_current_put_pos_minus_one`, the position of the next allocation when it was taken, and how many
allocations there were. -/
structure HeapMark where
  value : Usz
  position : Nat
  count : Nat
deriving DecidableEq, Repr

structure HeapRun where
  heap : DataHeap
  lap : Nat := 0
  /-- where the memory in use by the GPU starts, counted from the first lap -/
  start : Nat := 0
  allocs : List HeapAlloc := []
  /-- the number of allocations before the position last passed to `set_get_pos` was taken -/
  retired : Nat := 0
  taken : List HeapMark := []
deriving DecidableEq, Repr

namespace HeapRun

def finish (s : HeapRun) : Nat := s.lap * s.heap.size.toNat + s.heap.putPos.toNat

/-- Enters an allocation; a position before the put position is in the next lap. -/
def record (s : HeapRun) (k : Fin 31) (size : Usz) (r : DataHeap × Usz) : HeapRun :=
  let lap := if r.2 < s.heap.putPos then s.lap + 1 else s.lap
  { s with heap := r.1, lap := lap, allocs := s.allocs ++ [⟨r.2, size, k, lap⟩] }

def live (s : HeapRun) : List HeapAlloc := s.allocs.drop s.retired

end HeapRun

inductive HeapEvent
  | alloc (k : Fin 31) (size : Usz)
  | staticAlloc (k : Fin 31) (size : Usz)
  | getCurrentPutPosMinusOne
  /-- `set_get_pos` with a value that was taken earlier, and not before the one that was passed last -/
  | setGetPos (i : Nat)

def heapStep (s : HeapRun) : HeapEvent → Option HeapRun
  | .alloc k size => (s.heap.alloc k size).toOption.map (s.record k size)
  | .staticAlloc k size =>
    -- the static assertion
    if size &&& (alignment k - 1) = 0 then (s.heap.staticAlloc k size).toOption.map (s.record k size) else none
  | .getCurrentPutPosMinusOne =>
    some { s with taken := s.taken ++ [⟨s.heap.getCurrentPutPosMinusOne, s.finish, s.allocs.length⟩] }
  | .setGetPos i =>
    match s.taken.drop i with
    | [] => none
    | t :: rest =>
      some { s with heap := s.heap.setGetPos t.value, start := t.position, retired := t.count, taken := t :: rest }

def heapSystem : Transition.System HeapRun HeapEvent where
  init s := ∃ heapSize bufferName minGuardSize, s = { heap := .initial heapSize bufferName minGuardSize }
  step := heapStep

end Armsx3.Rsx
