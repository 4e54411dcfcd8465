import Armsx3.Library.OrderedMap
import Armsx3.Library.Transition

/-!
# MemoryContainer — the physical memory that system calls charge

Allocations, shared memory objects and virtual memory areas are charged to a memory container, and the containers
themselves to the default one.  A step is one system call with any arguments; the answers of `vm` and the ID manager
are part of it.  `none` stands for an exception.
-/

namespace Armsx3.Lv2.MemoryContainer

open Transition

def u32 (n : Nat) : Nat := n % 2 ^ 32

inductive CellError
  | EAGAIN
  | EALIGN
  | EBUSY
  | EEXIST
  | EFAULT
  | EINVAL
  | ENOMEM
  | EPERM
  | ESRCH
deriving DecidableEq, Repr

/-! ## Containers -/

/-- `lv2_memory_container`; `asked` is the size that the system call was given, here and below. -/
structure Container where
  size : Nat
  used : Nat
  asked : Nat
deriving DecidableEq, Repr

def Container.take (ct : Container) (amount : Nat) : Container × Nat :=
  if amount ≤ u32 (ct.size + 2 ^ 32 - ct.used) then
    ({ ct with used := u32 (ct.used + u32 amount) }, u32 amount)
  else (ct, 0)

def Container.free (ct : Container) (amount : Nat) : Option Container :=
  if amount ≤ ct.used then
    if u32 amount = amount then some { ct with used := ct.used - u32 amount } else none
  else if amount = 0 then some ct
  else none

abbrev Cid := Option Nat

structure Containers where
  dct : Container
  cts : OrderedMap Nat Container

namespace Containers

def get (m : Containers) : Cid → Option Container
  | none => some m.dct
  | some id => m.cts.find? id

def set (m : Containers) (ct : Container) : Cid → Containers
  | none => { m with dct := ct }
  | some id => { m with cts := m.cts.assign id ct }

def take (m : Containers) (c : Cid) (amount : Nat) : Option Containers :=
  (m.get c).bind fun ct =>
    if (ct.take amount).2 = 0 then none else some (m.set (ct.take amount).1 c)

def free (m : Containers) (c : Cid) (amount : Nat) : Option Containers :=
  (m.get c).bind fun ct => (ct.free amount).map fun ct => m.set ct c

end Containers

/-! ## Objects that are charged to containers -/

/-- An allocation, which `sys_memory_address_table` and the block of its address know. -/
structure Alloc where
  ct : Cid
  size : Nat
  asked : Nat
deriving DecidableEq, Repr

/-- `lv2_memory`; `exists` is the number of its IDs. -/
structure Mem where
  ct : Cid
  size : Nat
  asked : Nat
  key : Option Nat
  ids : List Nat
  counter : Nat
deriving DecidableEq, Repr

/-- `sys_vm_t`, under the number of its area of 256 MiB. -/
structure Vm where
  ct : Cid
  size : Nat
  psize : Nat
  asked : Nat
deriving DecidableEq, Repr

structure State where
  containers : Containers
  allocs : OrderedMap Nat Alloc
  mems : OrderedMap Nat Mem
  vms : OrderedMap Nat Vm
  totalVsize : Nat

abbrev Answer := Option (State × Option CellError)

def fail (s : State) (e : CellError) : Answer := some (s, some e)

def ok (s : State) : Answer := some (s, none)

/-! ## `sys_memory` -/

abbrev Flags := BitVec 64

def pageSize64k : Flags := 0x200
def pageSize1m : Flags := 0x400
def pageSizeMask : Flags := 0xf00

/-- The alignment of an allocation, 0 for flags that are not accepted. -/
def allocAlign (flags : Flags) : Nat :=
  if flags = pageSize1m then 0x100000
  else if flags = pageSize64k then 0x10000
  else if flags = 0 then 0x100000
  else 0

def sysMemoryFree (s : State) (addr : Nat) : Answer :=
  if addr % 0x10000 ≠ 0 then fail s .EINVAL
  else
    match s.allocs.find? addr with
    | none => fail s .EINVAL
    | some a =>
      (s.containers.free a.ct a.size).bind fun m =>
        ok { s with containers := m, allocs := s.allocs.erase addr }

/-- The part that `sys_memory_allocate` and `sys_memory_allocate_from_container` share, with the address
that `vm` has found and whether there is a place to write it to. -/
def allocateFrom (s : State) (c : Cid) (size : Nat) (area : Option Nat) (allocAddr : Bool) : Answer :=
  match s.containers.take c size with
  | none => fail s .ENOMEM
  | some m =>
    match area with
    | some addr =>
      if (s.allocs.find? addr).isSome ∨ addr % 0x10000 ≠ 0 then none
      else
        let t := { s with containers := m, allocs := s.allocs.emplace addr ⟨c, u32 size, size⟩ }
        if allocAddr then ok t
        else (sysMemoryFree t addr).map fun r => (r.1, some .EFAULT)
    | none => (m.free c size).bind fun m => fail { s with containers := m } .ENOMEM

def checkAlloc (size : Nat) (flags : Flags) : Option CellError :=
  if size = 0 then some .EALIGN
  else if allocAlign flags = 0 then some .EINVAL
  else if size % allocAlign flags ≠ 0 then some .EALIGN
  else none

def sysMemoryAllocate (s : State) (size : Nat) (flags : Flags) (area : Option Nat) (allocAddr : Bool) : Answer :=
  match checkAlloc size flags with
  | some e => fail s e
  | none => allocateFrom s none size area allocAddr

def sysMemoryAllocateFromContainer (s : State) (size cid : Nat) (flags : Flags) (area : Option Nat)
    (allocAddr : Bool) : Answer :=
  match checkAlloc size flags with
  | some e => fail s e
  | none =>
    if (s.containers.get (some cid)).isNone then fail s .ESRCH
    else allocateFrom s (some cid) size area allocAddr

def roundDown (size : Nat) : Nat := size - size % 0x100000

/-- `sys_memory_container_create` with the new ID, if there is one. -/
def sysMemoryContainerCreate (s : State) (size : Nat) (id : Option Nat) : Answer :=
  if roundDown size = 0 then fail s .ENOMEM
  else
    match s.containers.take none (roundDown size) with
    | none => fail s .ENOMEM
    | some m =>
      match id with
      | some id =>
        if (m.cts.find? id).isSome then none
        else
          let m := { m with cts := m.cts.emplace id ⟨u32 (roundDown size), 0, size⟩ }
          ok { s with containers := m }
      | none => (m.free none (roundDown size)).bind fun m => fail { s with containers := m } .EAGAIN

def sysMemoryContainerDestroy (s : State) (cid : Nat) : Answer :=
  match s.containers.cts.find? cid with
  | none => fail s .ESRCH
  | some ct =>
    if ct.used ≠ 0 then fail s .EBUSY
    else
      let m := { s.containers with cts := s.containers.cts.erase cid }
      (m.free none ct.size).bind fun m => ok { s with containers := m }

/-! ## `sys_mmapper` -/

def noShmKey : Nat := 0xffff000000000000

def checkGranularity (size : Nat) (flags : Flags) : Option CellError :=
  if flags &&& pageSizeMask = 0 ∨ flags &&& pageSizeMask = pageSize1m then
    if size % 0x100000 ≠ 0 then some .EALIGN else none
  else if flags &&& pageSizeMask = pageSize64k then
    if size % 0x10000 ≠ 0 then some .EALIGN else none
  else some .EINVAL

def State.shared (s : State) (key : Nat) : Option (Nat × Mem) :=
  s.mems.entries.find? fun x => x.2.key = some key

def State.nextMem (s : State) : Nat := (s.mems.entries.map Prod.fst).sum + 1

def State.freshId (s : State) (id : Nat) : Bool := s.mems.entries.all fun x => !x.2.ids.contains id

def State.newMem (s : State) (c : Cid) (key : Option Nat) (size id : Nat) : Option State :=
  (s.containers.take c (u32 size)).map fun m =>
    { s with
      containers := m
      mems := s.mems.emplace s.nextMem ⟨c, u32 size, size, key, [id], 0⟩ }

/-- `create_lv2_shm` through `lv2_obj::create`.  If the memory for a shared object cannot be taken and the
call is not exclusive, `on_id_create` is called on a null pointer. -/
def createLv2Shm (s : State) (exclusive : Bool) (key : Option Nat) (size : Nat) (c : Cid) (id : Option Nat) : Answer :=
  match id with
  | none => fail s .EAGAIN
  | some id =>
    if s.freshId id then
      match key with
      | none =>
        match s.newMem c none size id with
        | none => fail s .ENOMEM
        | some t => ok t
      | some key =>
        match s.shared key with
        | some (n, m) =>
          if exclusive then fail s .EEXIST
          else ok { s with mems := s.mems.assign n { m with ids := id :: m.ids } }
        | none =>
          match s.newMem c (some key) size id with
          | none => if exclusive then fail s .EEXIST else none
          | some t => ok t
    else none

/-- The calls that get no entries differ in the container. -/
def allocateShared (s : State) (ipcKey size : Nat) (c : Cid) (flags : Flags) (id : Option Nat) : Answer :=
  if size = 0 then fail s .EALIGN
  else
    match checkGranularity size flags with
    | some e => fail s e
    | none =>
      if (s.containers.get c).isNone then fail s .ESRCH
      else createLv2Shm s false (if ipcKey = noShmKey then none else some ipcKey) size c id

def sysMmapperAllocateSharedMemory (s : State) (ipcKey size : Nat) (flags : Flags) (id : Option Nat) :
    Answer := allocateShared s ipcKey size none flags id

def sysMmapperAllocateSharedMemoryFromContainer (s : State) (ipcKey size cid : Nat) (flags : Flags)
    (id : Option Nat) : Answer := allocateShared s ipcKey size (some cid) flags id

/-- The loop over the entries of the `_ext` calls. -/
def checkEntries (flags : Flags) (debugOrRoot : Bool) (types : List Nat) : Option CellError :=
  if types.any fun t => t ≠ 0 ∧ t ≠ 1 ∧ t ≠ 3 ∧ t ≠ 5 then some .EPERM
  else if types.contains 5 ∧ (flags ≠ pageSize64k ∨ !debugOrRoot) then some .EPERM
  else none

/-- The calls that get entries, of which `types` are the types. -/
def allocateSharedExt (s : State) (ipcKey size : Nat) (c : Cid) (flags : Flags) (entryCount : Int)
    (types : List Nat) (debugOrRoot : Bool) (id : Option Nat) : Answer :=
  if size = 0 then fail s .EALIGN
  else
    match checkGranularity size flags with
    | some e => fail s e
    | none =>
      if flags &&& ~~~pageSizeMask ≠ 0 then fail s .EINVAL
      else if entryCount ≤ 0 ∨ 0x10 < entryCount then fail s .EINVAL
      else
        match checkEntries flags debugOrRoot (types.take entryCount.toNat) with
        | some e => fail s e
        | none =>
          if (s.containers.get c).isNone then fail s .ESRCH
          else createLv2Shm s true (some ipcKey) size c id

def sysMmapperAllocateSharedMemoryExt (s : State) (ipcKey size : Nat) (flags : Flags)
    (entryCount : Int) (types : List Nat) (debugOrRoot : Bool) (id : Option Nat) : Answer :=
  allocateSharedExt s ipcKey size none flags entryCount types debugOrRoot id

def sysMmapperAllocateSharedMemoryFromContainerExt (s : State) (ipcKey size : Nat) (flags : Flags)
    (cid : Nat) (entryCount : Int) (types : List Nat) (debugOrRoot : Bool) (id : Option Nat) : Answer :=
  allocateSharedExt s ipcKey size (some cid) flags entryCount types debugOrRoot id

def sysMmapperFreeSharedMemory (s : State) (memId : Nat) : Answer :=
  match s.mems.entries.find? fun x => x.2.ids.contains memId with
  | none => fail s .ESRCH
  | some (n, m) =>
    if m.counter ≠ 0 then fail s .EBUSY
    else if (m.ids.erase memId).length = 0 then
      (s.containers.free m.ct m.size).bind fun cts =>
        ok { s with containers := cts, mems := s.mems.erase n }
    else ok { s with mems := s.mems.assign n { m with ids := m.ids.erase memId } }

def setCounter (s : State) (n counter : Nat) : Answer :=
  match s.mems.find? n with
  | none => none
  | some m => ok { s with mems := s.mems.assign n { m with counter := counter } }

/-! ## `sys_vm` -/

def vsizeLimit (hasRoot : Bool) : Nat := if hasRoot then 0x1E000000 else 0x10000000

def State.takeVsize (s : State) (n : Nat) : State := { s with totalVsize := u32 (s.totalVsize + n) }

def State.returnVsize (s : State) (n : Nat) : State :=
  { s with totalVsize := u32 (s.totalVsize + 2 ^ 32 - n) }

/-- `idm::make<sys_vm_t>`, which does nothing when all 16 IDs are used. -/
def State.makeVm (s : State) (i : Nat) (v : Vm) : State :=
  if s.vms.entries.length < 16 then { s with vms := s.vms.emplace i v } else s

def vmContainer (cid : Nat) : Cid := if cid = 0xFFFFFFFF then none else some cid

/-- `sys_vm_memory_map` with the number of the area that `vm::find_map` has found; `syscall300` is
`ppu.gpr[11] == 300`. -/
def sysVmMemoryMap (hasRoot : Bool) (s : State) (vsize psize cid policy : Nat) (syscall300 : Bool)
    (area : Option Nat) : Answer :=
  if vsize = 0 ∨ psize = 0 ∨ vsize % 0x2000000 ≠ 0 ∨ 0x10000000 < vsize ∨ psize % 0x10000 ≠ 0 ∨
      policy ≠ 1 then fail s .EINVAL
  else if syscall300 ∧ psize < 0x100000 then fail s .EINVAL
  else if (s.containers.get (vmContainer cid)).isNone then fail s .ESRCH
  else if u32 (vsizeLimit hasRoot + 2 ^ 32 - s.totalVsize) < vsize then fail s .EBUSY
  else
    match s.containers.take (vmContainer cid) psize with
    | none => fail ((s.takeVsize (u32 vsize)).returnVsize (u32 vsize)) .ENOMEM
    | some m =>
      match area with
      | some i =>
        if (s.vms.find? i).isSome then none
        else
          ok ({ s.takeVsize (u32 vsize) with containers := m }.makeVm i
            ⟨vmContainer cid, u32 vsize, u32 psize, psize⟩)
      | none =>
        (m.free (vmContainer cid) psize).bind fun m =>
          fail ({ s.takeVsize (u32 vsize) with containers := m }.returnVsize (u32 vsize)) .ENOMEM

def sysVmUnmap (s : State) (addr : Nat) : Answer :=
  if addr % 0x10000000 ≠ 0 then fail s .EINVAL
  else
    match s.vms.find? (addr / 0x10000000) with
    | none => fail s .EINVAL
    | some v =>
      (s.containers.free v.ct v.psize).bind fun m =>
        ok ({ s with
          containers := m
          vms := s.vms.erase (addr / 0x10000000) }.returnVsize v.size)

/-- The object that `sys_vm_append_memory` and `sys_vm_return_memory` work on. -/
def findVm (s : State) (addr size : Nat) : Option Vm :=
  if size = 0 ∨ size % 0x100000 ≠ 0 then none
  else
    match s.vms.find? (addr / 0x10000000) with
    | none => none
    | some v => if addr % 0x10000000 ≠ 0 then none else some v

def Vm.append (v : Vm) (size : Nat) : Vm :=
  { v with psize := u32 (v.psize + u32 size), asked := v.asked + size }

def sysVmAppendMemory (s : State) (addr size : Nat) : Answer :=
  match findVm s addr size with
  | none => fail s .EINVAL
  | some v =>
    match s.containers.take v.ct size with
    | none => fail s .ENOMEM
    | some m =>
      ok { s with containers := m, vms := s.vms.assign (addr / 0x10000000) (v.append size) }

def Vm.giveBack (v : Vm) (size : Nat) : Vm :=
  { v with psize := v.psize - u32 size, asked := v.asked - size }

def sysVmReturnMemory (s : State) (addr size : Nat) : Answer :=
  match findVm s addr size with
  | none => fail s .EINVAL
  | some v =>
    if v.psize ≤ size ∨ v.psize - size < 0x100000 then fail s .EBUSY
    else
      (s.containers.free v.ct size).bind fun m =>
        ok { s with containers := m, vms := s.vms.assign (addr / 0x10000000) (v.giveBack size) }

/-! ## System calls in any order -/

inductive Syscall
  | allocate (size : Nat) (flags : Flags) (area : Option Nat) (allocAddr : Bool)
  | allocateFromContainer (size cid : Nat) (flags : Flags) (area : Option Nat) (allocAddr : Bool)
  | free (addr : Nat)
  | containerCreate (size : Nat) (id : Option Nat)
  | containerDestroy (cid : Nat)
  | allocateShared (ipcKey size : Nat) (flags : Flags) (id : Option Nat)
  | allocateSharedFromContainer (ipcKey size cid : Nat) (flags : Flags) (id : Option Nat)
  | allocateSharedExt (ipcKey size : Nat) (flags : Flags) (entryCount : Int) (types : List Nat)
      (debugOrRoot : Bool) (id : Option Nat)
  | allocateSharedFromContainerExt (ipcKey size : Nat) (flags : Flags) (cid : Nat) (entryCount : Int)
      (types : List Nat) (debugOrRoot : Bool) (id : Option Nat)
  | freeShared (memId : Nat)
  | setCounter (n counter : Nat)
  | vmMap (vsize psize cid policy : Nat) (syscall300 : Bool) (area : Option Nat)
  | vmUnmap (addr : Nat)
  | vmAppend (addr size : Nat)
  | vmReturn (addr size : Nat)
deriving Repr

def syscall (hasRoot : Bool) (s : State) : Syscall → Answer
  | .allocate size flags area allocAddr => sysMemoryAllocate s size flags area allocAddr
  | .allocateFromContainer size cid flags area allocAddr =>
    sysMemoryAllocateFromContainer s size cid flags area allocAddr
  | .free addr => sysMemoryFree s addr
  | .containerCreate size id => sysMemoryContainerCreate s size id
  | .containerDestroy cid => sysMemoryContainerDestroy s cid
  | .allocateShared ipcKey size flags id => sysMmapperAllocateSharedMemory s ipcKey size flags id
  | .allocateSharedFromContainer ipcKey size cid flags id =>
    sysMmapperAllocateSharedMemoryFromContainer s ipcKey size cid flags id
  | .allocateSharedExt ipcKey size flags entryCount types debugOrRoot id =>
    sysMmapperAllocateSharedMemoryExt s ipcKey size flags entryCount types debugOrRoot id
  | .allocateSharedFromContainerExt ipcKey size flags cid entryCount types debugOrRoot id =>
    sysMmapperAllocateSharedMemoryFromContainerExt s ipcKey size flags cid entryCount types
      debugOrRoot id
  | .freeShared memId => sysMmapperFreeSharedMemory s memId
  | .setCounter n counter => setCounter s n counter
  | .vmMap vsize psize cid policy syscall300 area =>
    sysVmMemoryMap hasRoot s vsize psize cid policy syscall300 area
  | .vmUnmap addr => sysVmUnmap s addr
  | .vmAppend addr size => sysVmAppendMemory s addr size
  | .vmReturn addr size => sysVmReturnMemory s addr size

def Initial (s : State) : Prop :=
  s.containers.dct.size < 2 ^ 32 ∧ s.containers.dct.used = 0 ∧ s.containers.cts = .empty ∧
  s.allocs = .empty ∧ s.mems = .empty ∧ s.vms = .empty ∧ s.totalVsize = 0

def system (hasRoot : Bool) : System State Syscall :=
  ⟨Initial, fun s e => (syscall hasRoot s e).map Prod.fst⟩

end Armsx3.Lv2.MemoryContainer
