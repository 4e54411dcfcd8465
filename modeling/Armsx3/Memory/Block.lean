import Armsx3.Library.OrderedMap
import Armsx3.Library.Transition

/-!
# Block — the blocks of guest memory and their page table

`vm::block_t` hands out ranges of its part of the guest address space.  A range is in two tables: the block's own map
of entries, and `g_pages`, with the flags of each 4 KiB page.  A step is one call; `none` is an exception, after which
there are no more calls.  Failures of the host's memory mapping and the reference counts of `utils::shm` are left out.
-/

namespace Armsx3.Vm

open Transition Function

abbrev Word := BitVec 32

/-! ## Flags -/

abbrev PageFlags := BitVec 8

def pageReadable : PageFlags := 0x01
def pageWritable : PageFlags := 0x02
def pageExecutable : PageFlags := 0x04
def page64kSize : PageFlags := 0x20
def page1mSize : PageFlags := 0x40
def pageAllocated : PageFlags := 0x80

abbrev BlockFlags := BitVec 64

def stackGuarded : BlockFlags := 0x10
def preallocated : BlockFlags := 0x20
def pageSize4k : BlockFlags := 0x100
def pageSize64k : BlockFlags := 0x200
def pageSize1m : BlockFlags := 0x400
def pageSizeMask : BlockFlags := 0xF00
def allocHidden : BlockFlags := 0x1000
def allocUnwritable : BlockFlags := 0x2000
def allocExecutable : BlockFlags := 0x4000
def allocProtMask : BlockFlags := allocHidden ||| allocUnwritable ||| allocExecutable

def BlockFlags.has (flags mask : BlockFlags) : Bool := flags &&& mask != 0

def processBlockFlags (flags : BlockFlags) : BlockFlags :=
  let flags := if flags &&& pageSizeMask = 0 then flags ||| pageSize1m else flags
  if flags.has pageSize4k then flags ||| preallocated else flags &&& ~~~stackGuarded

/-- What `try_alloc` makes of the flags of an allocation. -/
def entryFlags (bflags : BlockFlags) : PageFlags :=
  (if bflags.has allocHidden then 0
    else if bflags.has allocUnwritable then pageReadable else pageReadable ||| pageWritable) |||
  (if bflags.has allocExecutable then pageExecutable else 0) |||
  (if bflags &&& pageSizeMask = pageSize64k then page64kSize
    else if bflags.has (pageSizeMask &&& ~~~pageSize1m) then 0 else page1mSize)

/-! ## Pages -/

abbrev Pages := Nat → PageFlags

namespace Pages

variable (pages : Pages)

def isFree (first n : Nat) : Bool := (List.range' first n).all fun p => pages p == 0

def fill (first n : Nat) (flags : PageFlags) : Pages :=
  fun p => if first ≤ p ∧ p < first + n then flags else pages p

def guard (p : Nat) : Option Pages :=
  if pages p = 0 then some (pages.fill p 1 pageAllocated) else none

def unguard (p : Nat) : Option Pages :=
  if pages p = pageAllocated then some (pages.fill p 1 0) else none

def map (addr : Word) (flags : PageFlags) (size : Word) : Option Pages :=
  if size = 0 ∨ (size ||| addr).toNat % 4096 ≠ 0 ∨ flags &&& pageAllocated ≠ 0 then none
  else if pages.isFree (addr.toNat / 4096) (size.toNat / 4096) then
    some (pages.fill (addr.toNat / 4096) (size.toNat / 4096) (flags ||| pageAllocated))
  else none

/-- The loop of `_page_unmap` that finds out how many of the next pages are allocated; `exec` is that of
the first one. -/
def countAllocated (p : Nat) : (n : Nat) → (exec : Option Bool) → Option Nat
  | 0, _ => some 0
  | n + 1, exec =>
    if pages p &&& pageAllocated = 0 then some 0
    else
      let isExec := pages p &&& pageExecutable != 0
      if exec = none ∨ exec = some isExec then (countAllocated (p + 1) n (some isExec)).map (· + 1)
      else none

/-- `_page_unmap`, with the number of bytes it has unmapped. -/
def unmap (addr maxSize : Word) : Option (Pages × Nat) :=
  if maxSize = 0 ∨ (maxSize ||| addr).toNat % 4096 ≠ 0 then none
  else
    (pages.countAllocated (addr.toNat / 4096) (maxSize.toNat / 4096) none).map fun n =>
      (pages.fill (addr.toNat / 4096) n 0, n * 4096)

end Pages

/-! ## Blocks -/

/-- `block_t`.  The emulator creates blocks on boundaries of 64 KiB, none at 0. -/
structure Block where
  addr : Word
  size : Word
  flags : BlockFlags
  processed : ∃ f, flags = processBlockFlags f
  addr_pos : 0 < addr.toNat
  addr_mod : addr.toNat % 0x10000 = 0
  size_pos : 0 < size.toNat
  size_mod : size.toNat % 0x1000 = 0
  fits : addr.toNat + size.toNat ≤ 2 ^ 32

def Block.guarded (b : Block) : Bool := b.flags.has stackGuarded

structure Layout (ι : Type) where
  block : ι → Block
  disjoint : ∀ i j, i ≠ j → (block i).addr.toNat + (block i).size.toNat ≤ (block j).addr.toNat ∨
    (block j).addr.toNat + (block j).size.toNat ≤ (block i).addr.toNat

abbrev ShmId := Nat

/-- An argument `src`: no pointer, or one to a reference, which may be empty. -/
abbrev Src := Option (Option ShmId)

structure Entry where
  size : Word
  shm : Option ShmId

/-- `valid` is false of a block after `unmap`.  Shared memory objects are made in the order of their
ids. -/
structure State (ι : Type) where
  pages : Pages
  valid : ι → Bool
  map : ι → OrderedMap Nat Entry
  nextShm : ShmId

variable {ι : Type} [DecidableEq ι] (L : Layout ι)

def State.common (s : State ι) (i : ι) : Bool := (L.block i).flags.has preallocated && s.valid i

def align (value a : Word) : Word := (value + (a - 1)) &&& (0 - a)

def allocFlags (b : Block) (src : Src) (flags : BlockFlags) : BlockFlags :=
  match src with
  | none => (b.flags &&& ~~~allocProtMask) ||| (flags &&& allocProtMask)
  | some _ => flags

def minPageSize (flags : BlockFlags) : Word := if flags.has pageSize4k then 0x1000 else 0x10000

def importShm (s : State ι) (i : ι) (src : Src) : Option ShmId × ShmId :=
  if s.common L i then (none, s.nextShm)
  else match src with
    | some shm => (shm, s.nextShm)
    | none => (some s.nextShm, s.nextShm + 1)

def tryAlloc (s : State ι) (i : ι) (addr : Word) (bflags : BlockFlags) (size : Word)
    (shm : Option ShmId × ShmId) : Option (State ι × Bool) :=
  let guarded := (L.block i).guarded
  let first := addr.toNat / 4096
  if s.pages.isFree first ((addr + size - 1).toNat / 4096 + 1 - first) then
    let marked := if guarded then
        (s.pages.guard first).bind fun pages => pages.guard (first + size.toNat / 4096 - 1)
      else some s.pages
    (marked.bind fun pages => pages.map (addr + if guarded then 0x1000 else 0) (entryFlags bflags)
      (size - if guarded then 0x2000 else 0)).map fun pages =>
        ({ s with pages := pages
                  map := update s.map i ((s.map i).assign addr.toNat ⟨size, shm.1⟩)
                  nextShm := shm.2 }, true)
  else some (s, false)

/-- The search of `block_t::alloc`; `fuel` bounds the number of places it looks at. -/
def search (s : State ι) (i : ι) (flags : BlockFlags) (size : Word) (shm : Option ShmId × ShmId)
    (a max : Word) : (fuel : Nat) → (addr : Word) → Option (State ι × Word)
  | 0, _ => none
  | n + 1, addr =>
    match tryAlloc L s i addr flags size shm with
    | none => none
    | some (s', true) => some (s', addr + if flags.has stackGuarded then 0x1000 else 0)
    | some (_, false) =>
      if addr = max then some (s, 0) else search s i flags size shm a max n (addr + a)

/-- `block_t::alloc`.  There are at most `2^20` places to look at. -/
def alloc (s : State ι) (i : ι) (origSize : Word) (src : Src) (a : Word)
    (flags : BlockFlags) : Option (State ι × Word) :=
  let b := L.block i
  let flags := allocFlags b src flags
  let size := align origSize (minPageSize flags) + if flags.has stackGuarded then 0x2000 else 0
  if a < minPageSize flags ∨ a ≠ 0x80000000#32 >>> a.clz.toNat then none
  else if origSize = 0 ∨ size = 0 ∨ origSize > size ∨ size > b.size then some (s, 0)
  else if s.common L i ∧ src.isSome then none
  else
    let max := (b.addr + b.size - size) &&& (0 - a)
    let addr := align b.addr a
    if b.addr > max ∨ addr > max then some (s, 0)
    else if s.valid i then search L s i flags size (importShm L s i src) a max (2 ^ 20) addr
    else some (s, 0)

def falloc (s : State ι) (i : ι) (addr origSize : Word) (src : Src) (flags : BlockFlags) : Option (State ι × Bool) :=
  let b := L.block i
  let flags := allocFlags b src flags
  let size0 := origSize + addr % minPageSize flags
  let size := align size0 (minPageSize flags)
  if size = 0 ∨ addr < b.addr ∨ origSize > size0 ∨ origSize > size ∨
      (addr - addr % minPageSize flags).toNat + size.toNat > b.addr.toNat + b.size.toNat ∨
      (src.isSome ∧ (origSize ||| addr) % minPageSize flags ≠ 0) ∨ flags.has stackGuarded then
    some (s, false)
  else if s.common L i ∧ src.isSome then none
  else if s.valid i then
    tryAlloc L s i (addr - addr % minPageSize flags) flags size (importShm L s i src)
  else some (s, false)

/-- `block_t::dealloc`, with `src` the shared memory object the entry must have, if any. -/
def dealloc (s : State ι) (i : ι) (addr : Word) (src : Src) : Option (State ι × Word) :=
  let guarded := (L.block i).guarded
  let key := (addr - if guarded then 0x1000 else 0).toNat
  match (s.map i).find? key with
  | none => some (s, 0)
  | some e =>
    if src ≠ none ∧ src ≠ some e.shm then some (s, 0)
    else
      let size := e.size - if guarded then 0x2000 else 0
      let cleared := if guarded then
          (s.pages.unguard (addr.toNat / 4096 - 1)).bind fun pages =>
            pages.unguard (addr.toNat / 4096 + size.toNat / 4096)
        else some s.pages
      match cleared.bind fun pages => pages.unmap addr size with
      | none => none
      | some (pages, n) =>
        if n = size.toNat then
          some ({ s with pages := pages
                         map := update s.map i ((s.map i).erase key) }, size)
        else none

def unmapEntries (pages : Pages) : List (Nat × Entry) → Option Pages
  | [] => some pages
  | (addr, e) :: rest =>
    match pages.unmap (BitVec.ofNat 32 addr) e.size with
    | none => none
    | some (pages, n) => if n = e.size.toNat then unmapEntries pages rest else none

/-- `block_t::unmap`.  The entries stay in the map of the block, which nobody uses any more. -/
def unmap (s : State ι) (i : ι) : Option (State ι × Bool) :=
  if s.valid i then
    (unmapEntries s.pages (s.map i).entries).map fun pages =>
      ({ s with pages := pages
                valid := update s.valid i false
                map := update s.map i <| (s.map i).mapVal fun e =>
                  if (L.block i).addr < 0xE0000000 then { e with shm := none } else e }, true)
  else some (s, false)

/-! ## Calls in any order -/

inductive Event (ι : Type)
  | alloc (i : ι) (origSize : Word) (src : Src) (a : Word) (flags : BlockFlags)
  | falloc (i : ι) (addr origSize : Word) (src : Src) (flags : BlockFlags)
  | dealloc (i : ι) (addr : Word) (src : Src)
  | unmap (i : ι)

def step (s : State ι) : Event ι → Option (State ι)
  | .alloc i origSize src a flags => (alloc L s i origSize src a flags).map Prod.fst
  | .falloc i addr origSize src flags => (falloc L s i addr origSize src flags).map Prod.fst
  | .dealloc i addr src => (dealloc L s i addr src).map Prod.fst
  | .unmap i => (unmap L s i).map Prod.fst

def Initial (s : State ι) : Prop :=
  (∀ p, s.pages p = 0) ∧ (∀ i, s.valid i = true) ∧ ∀ i, s.map i = .empty

def system : System (State ι) (Event ι) := ⟨Initial, step L⟩

end Armsx3.Vm
