import Armsx3.Lv2.MemoryBooks

/-!
# MemoryAccounting — what the counters of the memory containers stand for

A system call that fails gives back what it has taken, so it leaves the whole state as it was.
-/

namespace Armsx3.Lv2.MemoryContainer

open Transition OrderedMap Option Containers State

/-! ## The calls one by one -/

variable {c : Cid}

section Outcomes

variable {hasRoot : Bool} {shared : Nat} {s : State} {r : State × Option CellError}

theorem Outcome.of_fail {e : CellError} (h : fail s e = some r) : Outcome hasRoot shared s r := by
  cases h
  exact .inl rfl

variable {t : State}

theorem Outcome.of_ok (ht : Effect hasRoot shared s t) (h : ok t = some r) : Outcome hasRoot shared s r := by
  cases h
  exact .inr ⟨rfl, ht⟩

variable {addr : Nat}

theorem sysMemoryFree_cases (h : sysMemoryFree s addr = some r) :
    (∃ e, fail s e = some r) ∨ ∃ a m, s.allocs.find? addr = some a ∧ s.containers.free a.ct a.size = some m ∧
      r = ({ s with containers := m, allocs := s.allocs.erase addr }, none) := by
  unfold sysMemoryFree at h
  split at h
  · exact .inl ⟨_, h⟩
  split at h
  · exact .inl ⟨_, h⟩
  next a ha =>
    have ⟨m, hm, hok⟩ := bind_eq_some_iff.mp h
    exact .inr ⟨a, m, ha, hm, (Option.some.inj hok).symm⟩

theorem sysMemoryFree_outcome (h : sysMemoryFree s addr = some r) : Outcome hasRoot shared s r := by
  rcases sysMemoryFree_cases h with ⟨e, he⟩ | ⟨a, m, ha, hm, hr⟩
  · exact .of_fail he
  · have ⟨ct, hct, hn, heq⟩ := free_cases hm
    rw [hr, heq]
    exact .inr ⟨rfl, .allocFree addr a ct ha hct hn⟩

theorem sysMemoryFree_emplace {ct : Container} {n addr : Nat}
    (hct : s.containers.get c = some ct) (haddr : s.allocs.find? addr = none)
    (haligned : addr % 0x10000 = 0)
    (h : sysMemoryFree { s with
      containers := s.containers.charge c ct n
      allocs := s.allocs.emplace addr ⟨c, n, n⟩ } addr = some r) : r.1 = s := by
  have hfind : (s.allocs.emplace addr ⟨c, n, n⟩).find? addr = some ⟨c, n, n⟩ := by
    rw [find?_emplace haddr, if_pos rfl]
  unfold sysMemoryFree at h
  rw [if_neg (not_not.mpr haligned)] at h
  simp only [hfind] at h
  have ⟨m, hm, hok⟩ := bind_eq_some_iff.mp h
  have hback := free_charge hct hm
  rw [hback, erase_emplace haddr] at hok
  cases hok
  rfl

theorem allocateFrom_outcome {size : Nat} {area : Option Nat} {allocAddr : Bool}
    (hb : s.containers.Bounded) (h : allocateFrom s c size area allocAddr = some r) : Outcome hasRoot shared s r := by
  unfold allocateFrom at h
  split at h
  · exact .of_fail h
  rename_i m hm
  have ⟨ct, hct, hn, hn32, hcharge⟩ := take_cases hb hm
  rw [u32_of_lt hn32, hcharge] at h
  split at h
  next addr =>
    have ⟨hfree, h⟩ := ite_none_left_eq_some.mp h
    have haddr : s.allocs.find? addr = none := by
      rw [← not_isSome_iff_eq_none]
      exact fun hsome => hfree (.inl hsome)
    have haligned : addr % 0x10000 = 0 := by
      by_contra hne
      exact hfree (.inr hne)
    split at h
    · exact .of_ok (.alloc c ct size addr hct hn haddr) h
    have ⟨r', hr', heq⟩ := map_eq_some_iff.mp h
    rw [sysMemoryFree_emplace hct haddr haligned hr'] at heq
    rw [← heq]
    exact .inl rfl
  · have ⟨m', hm', hfail⟩ := bind_eq_some_iff.mp h
    rw [free_charge hct hm'] at hfail
    exact .of_fail hfail

variable {id : Option Nat}

theorem sysMemoryContainerCreate_outcome {size : Nat} (hb : s.containers.Bounded)
    (h : sysMemoryContainerCreate s size id = some r) : Outcome hasRoot shared s r := by
  unfold sysMemoryContainerCreate at h
  split at h
  · exact .of_fail h
  split at h
  · exact .of_fail h
  rename_i m hm
  have ⟨ct, hct, hn, hn32, hcharge⟩ := take_cases hb hm
  cases hct
  rw [u32_of_lt hn32, hcharge] at h
  split at h
  next id =>
    have ⟨hfree, h⟩ := ite_none_left_eq_some.mp h
    have hid := not_isSome_iff_eq_none.mp hfree
    exact .of_ok (.create id size hid hn hn32) h
  · have ⟨m', hm', hfail⟩ := bind_eq_some_iff.mp h
    rw [free_charge rfl hm'] at hfail
    exact .of_fail hfail

theorem sysMemoryContainerDestroy_outcome {cid : Nat} (h : sysMemoryContainerDestroy s cid = some r) :
    Outcome hasRoot shared s r := by
  unfold sysMemoryContainerDestroy at h
  split at h
  · exact .of_fail h
  rename_i ct hct
  split at h
  · exact .of_fail h
  rename_i hused
  have ⟨m, hm, hok⟩ := bind_eq_some_iff.mp h
  have ⟨d, hd, hn, heq⟩ := free_cases hm
  cases hd
  rw [heq] at hok
  exact .of_ok (.destroy cid ct hct (not_not.mp hused) hn) hok

theorem find?_nextMem (s : State) : s.mems.find? s.nextMem = none := by
  rw [find?_eq_none]
  intro y hy heq
  have hle : y.1 ≤ (s.mems.entries.map Prod.fst).sum := List.le_sum_of_mem (List.mem_map_of_mem hy)
  unfold nextMem at heq
  omega

section

variable (hb : s.containers.Bounded)
include hb

theorem newMem_effect {key : Option Nat} {id : Nat}
    (h : s.newMem c key shared id = some t) : Effect hasRoot shared s t := by
  have ⟨m, hm, ht⟩ := map_eq_some_iff.mp h
  have ⟨ct, hct, hn, _, hcharge⟩ := take_cases hb hm
  rw [← ht, hcharge]
  exact .memNew c ct s.nextMem key id hct hn (find?_nextMem s)

theorem createLv2Shm_outcome {exclusive : Bool} {key : Option Nat}
 (h : createLv2Shm s exclusive key shared c id = some r) :
    Outcome hasRoot shared s r := by
  unfold createLv2Shm at h
  split at h
  · exact .of_fail h
  rename_i id
  have ⟨_, h⟩ := ite_none_right_eq_some.mp h
  split at h
  · -- an object of its own
    split at h
    · exact .of_fail h
    next t ht =>
      exact .of_ok (newMem_effect hb ht) h
  split at h
  · -- one more ID of the object under the key
    rename_i n m hshared
    split at h
    · exact .of_fail h
    have hm := find?_eq_some.mpr (List.mem_of_find?_eq_some hshared)
    exact .of_ok (.memSet n m { m with ids := id :: m.ids } hm ⟨rfl, rfl, rfl⟩) h
  · split at h
    · split at h
      · exact .of_fail h
      · cases h
    next t ht =>
      exact .of_ok (newMem_effect hb ht) h

theorem allocateShared_outcome {ipcKey : Nat} {flags : Flags}
 (h : allocateShared s ipcKey shared c flags id = some r) :
    Outcome hasRoot shared s r := by
  unfold allocateShared at h
  split at h
  · exact .of_fail h
  split at h
  · exact .of_fail h
  · split at h
    · exact .of_fail h
    · exact createLv2Shm_outcome hb h

theorem allocateSharedExt_outcome {ipcKey : Nat} {flags : Flags} {entryCount : Int}
    {types : List Nat} {debugOrRoot : Bool}
    (h : allocateSharedExt s ipcKey shared c flags entryCount types debugOrRoot id = some r) :
    Outcome hasRoot shared s r := by
  unfold allocateSharedExt at h
  split at h
  · exact .of_fail h
  split at h
  · exact .of_fail h
  split at h
  · exact .of_fail h
  split at h
  · exact .of_fail h
  split at h
  · exact .of_fail h
  · split at h
    · exact .of_fail h
    · exact createLv2Shm_outcome hb h

end

theorem sysMmapperFreeSharedMemory_outcome {memId : Nat}
    (h : sysMmapperFreeSharedMemory s memId = some r) : Outcome hasRoot shared s r := by
  unfold sysMmapperFreeSharedMemory at h
  split at h
  · exact .of_fail h
  rename_i n m hfind
  have hm := find?_eq_some.mpr (List.mem_of_find?_eq_some hfind)
  split at h
  · exact .of_fail h
  split at h
  · -- the last ID
    have ⟨cts, hcts, hok⟩ := bind_eq_some_iff.mp h
    have ⟨ct, hct, hn, heq⟩ := free_cases hcts
    rw [heq] at hok
    exact .of_ok (.memFree n m ct hm hct hn) hok
  · exact .of_ok (.memSet n m { m with ids := m.ids.erase memId } hm ⟨rfl, rfl, rfl⟩) h

theorem setCounter_outcome {n counter : Nat} (h : setCounter s n counter = some r) : Outcome hasRoot shared s r := by
  unfold setCounter at h
  split at h
  · cases h
  next m hm =>
    exact .of_ok (.memSet n m { m with counter := counter } hm ⟨rfl, rfl, rfl⟩) h

theorem returnVsize_takeVsize (hi : Inv hasRoot s) (vsize : Nat) :
    (s.takeVsize (u32 vsize)).returnVsize (u32 vsize) = s := by
  have hlimit := hi.limit
  have hle := vsizeLimit_le hasRoot
  have htotal : u32 (u32 (s.totalVsize + u32 vsize) + 2 ^ 32 - u32 vsize) = s.totalVsize := by
    unfold u32
    omega
  unfold returnVsize takeVsize
  simp only [htotal]

variable {i : Nat} {v : Vm}

theorem makeVm_eq (h : s.vms.entries.length < 16) : s.makeVm i v = { s with vms := s.vms.emplace i v } := if_pos h

theorem sysVmMemoryMap_outcome {vsize psize cid policy : Nat} {syscall300 : Bool} {area : Option Nat}
    (hi : Inv hasRoot s) (h : sysVmMemoryMap hasRoot s vsize psize cid policy syscall300 area = some r) :
    Outcome hasRoot shared s r := by
  have hlimit := hi.limit
  have hle := vsizeLimit_le hasRoot
  unfold sysVmMemoryMap at h
  split at h
  · exact .of_fail h
  split at h
  · exact .of_fail h
  split at h
  · exact .of_fail h
  split at h
  · exact .of_fail h
  rename_i htotal
  -- neither the sum nor the difference wraps
  have hv : 0x2000000 ≤ vsize ∧ vsize ≤ 0x10000000 := by omega
  have hroom : s.totalVsize + vsize ≤ vsizeLimit hasRoot := by
    unfold u32 at htotal
    omega
  have hv32 : u32 vsize = vsize := u32_of_lt (by omega)
  split at h
  · rw [returnVsize_takeVsize hi vsize] at h
    exact .of_fail h
  rename_i m hm
  have ⟨ct, hct, hn, hn32, hcharge⟩ := take_cases hi.books.bounded hm
  split at h
  next i =>
    have ⟨hfree, h⟩ := ite_none_left_eq_some.mp h
    have hi' := not_isSome_iff_eq_none.mp hfree
    have hsum : u32 (s.totalVsize + vsize) = s.totalVsize + vsize := u32_of_lt (by omega)
    change ok (makeVm { s with
      containers := m
      totalVsize := u32 (s.totalVsize + u32 vsize) } i _) = some r at h
    rw [hv32, hsum, u32_of_lt hn32, hcharge] at h
    rw [makeVm_eq (by exact hi.length_vms)] at h
    exact .of_ok (.vmMap (vmContainer cid) ct vsize psize i hct hn hi' hv.1 hroom) h
  · have ⟨m', hm', hfail⟩ := bind_eq_some_iff.mp h
    rw [hcharge] at hm'
    rw [free_charge hct hm'] at hfail
    change fail ((s.takeVsize (u32 vsize)).returnVsize (u32 vsize)) _ = some r at hfail
    rw [returnVsize_takeVsize hi vsize] at hfail
    exact .of_fail hfail

theorem Inv.vm_size_le (hi : Inv hasRoot s) (hv : s.vms.find? i = some v) : v.size ≤ s.totalVsize := by
  have hsum := sum_erase (fun x : Nat × Vm => x.2.size) (find?_eq_some.mp hv)
  have hvsize := hi.vsize
  simp only at hsum
  omega

theorem sysVmUnmap_outcome (hi : Inv hasRoot s) (h : sysVmUnmap s addr = some r) : Outcome hasRoot shared s r := by
  unfold sysVmUnmap at h
  split at h
  · exact .of_fail h
  split at h
  · exact .of_fail h
  rename_i v hv
  have ⟨m, hm, hok⟩ := bind_eq_some_iff.mp h
  have ⟨ct, hct, hn, heq⟩ := free_cases hm
  have htotal : u32 (s.totalVsize + 2 ^ 32 - v.size) = s.totalVsize - v.size := by
    have hsize := hi.vm_size_le hv
    have hlimit := hi.limit
    have hle := vsizeLimit_le hasRoot
    unfold u32
    omega
  unfold returnVsize at hok
  simp only [htotal, heq] at hok
  exact .of_ok (.vmUnmap _ v ct hv hct hn) hok

variable {addr size : Nat}

theorem findVm_cases (h : findVm s addr size = some v) : s.vms.find? (addr / 0x10000000) = some v := by
  have ⟨_, h⟩ := ite_none_left_eq_some.mp h
  split at h
  · cases h
  rename_i v' hv'
  split at h
  · cases h
  · cases h
    exact hv'

section

variable (hi : Inv hasRoot s)
include hi

theorem Inv.vm_psize_le {ct : Container}
    (hv : s.vms.find? i = some v) (hct : s.containers.get v.ct = some ct) : v.psize ≤ ct.used := by
  have hused := hi.books.account v.ct ct hct
  have htally := tally_erase (c := v.ct) Vm.ct Vm.psize hv
  rw [if_pos rfl] at htally
  unfold held at hused
  omega

theorem sysVmAppendMemory_outcome (h : sysVmAppendMemory s addr size = some r) : Outcome hasRoot shared s r := by
  unfold sysVmAppendMemory at h
  split at h
  · exact .of_fail h
  rename_i v hfind
  have hv := findVm_cases hfind
  split at h
  · exact .of_fail h
  rename_i m hm
  have ⟨ct, hct, hn, hn32, hcharge⟩ := take_cases hi.books.bounded hm
  have ⟨hused, hsize⟩ := hi.books.bounded v.ct ct hct
  have hpsize := hi.vm_psize_le hv hct
  have hsum : u32 (v.psize + size) = v.psize + size := u32_of_lt (by omega)
  unfold Vm.append at h
  rw [u32_of_lt hn32, hsum, hcharge] at h
  exact .of_ok (.vmAppend _ v ct size hv hct hn) h

theorem sysVmReturnMemory_outcome (h : sysVmReturnMemory s addr size = some r) : Outcome hasRoot shared s r := by
  unfold sysVmReturnMemory at h
  split at h
  · exact .of_fail h
  rename_i v hfind
  have hv := findVm_cases hfind
  split at h
  · exact .of_fail h
  have ⟨m, hm, hok⟩ := bind_eq_some_iff.mp h
  have ⟨ct, hct, hn, heq⟩ := free_cases hm
  have ⟨hused, hsize⟩ := hi.books.bounded v.ct ct hct
  have hle : size ≤ v.psize := by omega
  have hn32 : u32 size = size := u32_of_lt (by omega)
  unfold Vm.giveBack at hok
  rw [hn32, heq] at hok
  exact .of_ok (.vmReturn _ v ct size hv hct hle hn) hok

theorem sum_size_assign {v v' : Vm} (hv : s.vms.find? i = some v) (hsize : v'.size = v.size) :
    s.totalVsize = ((s.vms.assign i v').entries.map fun x => x.2.size).sum := by
  have hsum := sum_assign (v := v') (fun x : Nat × Vm => x.2.size) (find?_eq_some.mp hv)
  have hvsize := hi.vsize
  simp only at hsum
  omega

theorem chunk_assign {v v' : Vm} (hv : s.vms.find? i = some v)
    (hsize : v'.size = v.size) : ∀ x ∈ s.vms.assign i v', 0x2000000 ≤ x.2.size := by
  apply forall_assign hi.chunk
  rw [hsize]
  exact hi.chunk (i, v) (find?_eq_some.mp hv)

/-- What an effect leaves as it is needs no proof: only the tables that it changes count. -/
theorem inv_effect (he : Effect hasRoot shared s t) : Inv hasRoot t := by
  have hbooks := hi.books
  have hvsize := hi.vsize
  cases he with
  | alloc c ct n addr hct hn haddr =>
    refine ⟨hbooks.charge hct hn fun d => ?_, hi.vsize, hi.limit, hi.chunk⟩
    have htally := tally_emplace (c := d) (v := ⟨c, n, n⟩) Alloc.ct Alloc.size haddr
    unfold held
    simp only at htally ⊢
    omega
  | allocFree addr a ct ha hct hn =>
    refine ⟨hbooks.refund hct hn fun d => ?_, hi.vsize, hi.limit, hi.chunk⟩
    have htally := tally_erase (c := d) Alloc.ct Alloc.size ha
    unfold held
    simp only
    omega
  | create id size hid hn hsize => exact ⟨hbooks.create hid hn hsize, hi.vsize, hi.limit, hi.chunk⟩
  | destroy id ct hct hused hn => exact ⟨hbooks.destroy hct hused hn, hi.vsize, hi.limit, hi.chunk⟩
  | memNew c ct n key id hct hn hfresh =>
    refine ⟨hbooks.charge hct hn fun d => ?_, hi.vsize, hi.limit, hi.chunk⟩
    have htally := tally_emplace (c := d) (v := ⟨c, u32 shared, shared, key, [id], 0⟩) Mem.ct Mem.size hfresh
    unfold held
    simp only at htally ⊢
    omega
  | memSet n m m' hm hsame =>
    -- the object is charged the same
    have hheld : held { s with mems := s.mems.assign n m' } = s.held := by
      funext d
      have htally := tally_assign (c := d) (v := m') Mem.ct Mem.size hm
      rw [hsame.1, hsame.2.1] at htally
      unfold held
      simp only
      omega
    refine ⟨?_, hi.vsize, hi.limit, hi.chunk⟩
    rw [hheld]
    exact hbooks
  | memFree n m ct hm hct hn =>
    refine ⟨hbooks.refund hct hn fun d => ?_, hi.vsize, hi.limit, hi.chunk⟩
    have htally := tally_erase (c := d) Mem.ct Mem.size hm
    unfold held
    simp only
    omega
  | vmMap c ct vsize psize i hct hn hi' hv hlimit =>
    refine ⟨hbooks.charge hct hn fun d => ?_, ?_, hlimit, ?_⟩
    · have htally := tally_emplace (c := d) (v := ⟨c, vsize, psize, psize⟩) Vm.ct Vm.psize hi'
      unfold held
      simp only at htally ⊢
      omega
    · have hsum := sum_emplace (v := (⟨c, vsize, psize, psize⟩ : Vm))
        (fun x : Nat × Vm => x.2.size) (find?_eq_none.mp hi')
      simp only at hsum ⊢
      omega
    · exact forall_emplace hi.chunk hv
  | vmUnmap i v ct hv hct hn =>
    have hsum := sum_erase (fun x : Nat × Vm => x.2.size) (find?_eq_some.mp hv)
    refine ⟨hbooks.refund hct hn fun d => ?_, ?_, ?_, ?_⟩
    · have htally := tally_erase (c := d) Vm.ct Vm.psize hv
      unfold held
      simp only
      omega
    · simp only at hsum ⊢
      omega
    · exact Nat.le_trans (Nat.sub_le _ _) hi.limit
    · exact forall_erase hi.chunk
  | vmAppend i v ct n hv hct hn =>
    refine ⟨hbooks.charge hct hn fun d => ?_, ?_, hi.limit, ?_⟩
    · have htally := tally_assign (c := d)
        (v := { v with psize := v.psize + n, asked := v.asked + n }) Vm.ct Vm.psize hv
      unfold held
      simp only at htally ⊢
      split at htally <;> split <;> first | omega | contradiction
    · exact sum_size_assign hi hv rfl
    · exact chunk_assign hi hv rfl
  | vmReturn i v ct n hv hct hn hused =>
    refine ⟨hbooks.refund hct hused fun d => ?_, ?_, hi.limit, ?_⟩
    · have htally := tally_assign (c := d)
        (v := { v with psize := v.psize - n, asked := v.asked - n }) Vm.ct Vm.psize hv
      unfold held
      simp only at htally ⊢
      split at htally <;> split <;> first | omega | contradiction
    · exact sum_size_assign hi hv rfl
    · exact chunk_assign hi hv rfl

end

variable {e : Syscall}

theorem syscall_outcome (hi : Inv hasRoot s) (h : syscall hasRoot s e = some r) : Outcome hasRoot e.sharedSize s r := by
  have hb := hi.books.bounded
  cases e with
  | allocate size flags area allocAddr =>
    change sysMemoryAllocate s size flags area allocAddr = some r at h
    unfold sysMemoryAllocate at h
    split at h
    · exact .of_fail h
    · exact allocateFrom_outcome hb h
  | allocateFromContainer size cid flags area allocAddr =>
    change sysMemoryAllocateFromContainer s size cid flags area allocAddr = some r at h
    unfold sysMemoryAllocateFromContainer at h
    split at h
    · exact .of_fail h
    split at h
    · exact .of_fail h
    · exact allocateFrom_outcome hb h
  | free => exact sysMemoryFree_outcome h
  | containerCreate => exact sysMemoryContainerCreate_outcome hb h
  | containerDestroy => exact sysMemoryContainerDestroy_outcome h
  | allocateShared => exact allocateShared_outcome hb h
  | allocateSharedFromContainer => exact allocateShared_outcome hb h
  | allocateSharedExt =>
    exact allocateSharedExt_outcome hb h
  | allocateSharedFromContainerExt =>
    exact allocateSharedExt_outcome hb h
  | freeShared => exact sysMmapperFreeSharedMemory_outcome h
  | setCounter => exact setCounter_outcome h
  | vmMap => exact sysVmMemoryMap_outcome hi h
  | vmUnmap => exact sysVmUnmap_outcome hi h
  | vmAppend => exact sysVmAppendMemory_outcome hi h
  | vmReturn => exact sysVmReturnMemory_outcome hi h

theorem syscall_fail {err : CellError} (hi : Inv hasRoot s) (h : syscall hasRoot s e = some (t, some err)) : t = s := by
  rcases syscall_outcome hi h with heq | ⟨hok, _⟩
  · exact heq
  · cases hok

theorem effect_of_step (hi : Inv hasRoot s)
    (h : (system hasRoot).step s e = some t) : t = s ∨ Effect hasRoot e.sharedSize s t := by
  have ⟨r, hr, ht⟩ := map_eq_some_iff.mp h
  cases ht
  rcases syscall_outcome hi hr with heq | ⟨_, heffect⟩
  · exact .inl heq
  · exact .inr heffect

theorem inv_initial (h : Initial s) : Inv hasRoot s := by
  have ⟨hsize, hused, hcts, hallocs, hmems, hvms, htotal⟩ := h
  have hheld : ∀ c, s.held c = 0 := by
    intro c
    unfold held
    rw [hallocs, hmems, hvms]
    rfl
  have hget : ∀ c ct, s.containers.get c = some ct → ct = s.containers.dct := by
    intro c ct hct
    cases c with
    | none => exact (Option.some.inj hct).symm
    | some id =>
      change s.containers.cts.find? id = some ct at hct
      rw [hcts, find?_empty] at hct
      cases hct
  refine ⟨⟨?_, ?_, fun c _ => hheld c⟩, ?_, ?_, ?_⟩
  · intro c ct hct
    unfold children
    rw [hget c ct hct, hused, hheld, hcts]
    rfl
  · intro c ct hct
    rw [hget c ct hct]
    omega
  · rw [htotal, hvms]
    rfl
  · rw [htotal]
    exact Nat.zero_le _
  · intro x hx
    rw [hvms] at hx
    exact absurd hx not_mem_empty

end Outcomes

theorem Inv.of_reachable {hasRoot : Bool} {s : State} (hs : (system hasRoot).Reachable s) : Inv hasRoot s := by
  apply hs.invariant
  · exact fun _ h => inv_initial h
  · intro s e t hi hstep
    rcases effect_of_step hi hstep with heq | heffect
    · exact heq ▸ hi
    · exact inv_effect hi heffect

/-! ## Sizes that were asked for -/

/-- The sizes that have been asked for, over the live objects of a container. -/
def State.asked (s : State) (c : Cid) : Nat :=
  s.allocs.tally Alloc.ct Alloc.asked c + s.mems.tally Mem.ct Mem.asked c +
  s.vms.tally Vm.ct Vm.asked c + s.containers.cts.tally (fun _ => (none : Cid)) Container.asked c

/-- The same with the sizes of containers rounded down to 1 MiB. -/
def State.granted (s : State) (c : Cid) : Nat :=
  s.allocs.tally Alloc.ct Alloc.asked c + s.mems.tally Mem.ct Mem.asked c +
  s.vms.tally Vm.ct Vm.asked c +
  s.containers.cts.tally (fun _ => (none : Cid)) (fun ct => roundDown ct.asked) c

/-- How the size of an object comes from the size that was asked for. -/
structure Sized (s : State) : Prop where
  allocs : ∀ x ∈ s.allocs, x.2.size = x.2.asked
  mems : ∀ x ∈ s.mems, x.2.size = u32 x.2.asked
  vms : ∀ x ∈ s.vms, x.2.psize = x.2.asked
  cts : ∀ x ∈ s.containers.cts, x.2.size = roundDown x.2.asked

section Sized

variable {hasRoot : Bool} {shared : Nat} {s t : State}

theorem Sized.set {ct ct' : Container} (hs : Sized s) (hct : s.containers.get c = some ct)
    (hsize : ct'.size = ct.size) (hasked : ct'.asked = ct.asked) :
    ∀ x ∈ (s.containers.set ct' c).cts, x.2.size = roundDown x.2.asked := by
  cases c with
  | none => exact hs.cts
  | some id =>
    apply forall_assign hs.cts
    rw [hsize, hasked]
    exact hs.cts (id, ct) (find?_eq_some.mp hct)

theorem sized_effect (hs : Sized s) (he : Effect hasRoot shared s t) : Sized t := by
  cases he with
  | alloc c ct n addr hct =>
    exact ⟨forall_emplace hs.allocs rfl, hs.mems, hs.vms, hs.set hct rfl rfl⟩
  | allocFree addr a ct ha hct =>
    exact ⟨forall_erase hs.allocs, hs.mems, hs.vms, hs.set hct rfl rfl⟩
  | create =>
    exact ⟨hs.allocs, hs.mems, hs.vms, forall_emplace hs.cts rfl⟩
  | destroy =>
    exact ⟨hs.allocs, hs.mems, hs.vms, forall_erase hs.cts⟩
  | memNew c ct n key id hct =>
    exact ⟨hs.allocs, forall_emplace hs.mems rfl, hs.vms, hs.set hct rfl rfl⟩
  | memSet n m m' hm hsame =>
    refine ⟨hs.allocs, forall_assign hs.mems ?_, hs.vms, hs.cts⟩
    rw [hsame.2.1, hsame.2.2]
    exact hs.mems (n, m) (find?_eq_some.mp hm)
  | memFree n m ct hm hct =>
    exact ⟨hs.allocs, forall_erase hs.mems, hs.vms, hs.set hct rfl rfl⟩
  | vmMap c ct vsize psize i hct =>
    exact ⟨hs.allocs, hs.mems, forall_emplace hs.vms rfl, hs.set hct rfl rfl⟩
  | vmUnmap i v ct hv hct =>
    exact ⟨hs.allocs, hs.mems, forall_erase hs.vms, hs.set hct rfl rfl⟩
  | vmAppend i v ct n hv hct hn | vmReturn i v ct n hv hct hn hused =>
    refine ⟨hs.allocs, hs.mems, forall_assign hs.vms ?_, hs.set hct rfl rfl⟩
    have hpsize : v.psize = v.asked := hs.vms (i, v) (find?_eq_some.mp hv)
    simp only [hpsize]

theorem sized_initial (h : Initial s) : Sized s := by
  have ⟨_, _, hcts, hallocs, hmems, hvms, _⟩ := h
  exact ⟨hallocs ▸ forall_empty, hmems ▸ forall_empty, hvms ▸ forall_empty, hcts ▸ forall_empty⟩

theorem Sized.of_reachable (hs : (system hasRoot).Reachable s) : Sized s := by
  -- what a step does is known only where the counters are right
  have hboth := hs.invariant (P := fun s => Inv hasRoot s ∧ Sized s) (fun _ h => ⟨inv_initial h, sized_initial h⟩) (by
      intro s e t ⟨hi, hs⟩ hstep
      rcases effect_of_step hi hstep with heq | heffect
      · exact heq ▸ ⟨hi, hs⟩
      · exact ⟨inv_effect hi heffect, sized_effect hs heffect⟩)
  exact hboth.2

theorem Sized.granted_eq (hs : Sized s) (hshared : ∀ x ∈ s.mems, x.2.asked < 2 ^ 32) (c : Cid) :
    s.held c + s.containers.children c = s.granted c := by
  have hmems : ∀ x ∈ s.mems, x.2.size = x.2.asked := by
    intro x hx
    rw [hs.mems x hx, u32_of_lt (hshared x hx)]
  have hcts : s.containers.children c =
      s.containers.cts.tally (fun _ => (none : Cid)) (fun ct => roundDown ct.asked) c :=
    tally_congr hs.cts
  unfold held granted
  rw [tally_congr hs.allocs, tally_congr hmems, tally_congr hs.vms, hcts]

end Sized

/-- No container has used more than it has.  It has used the sum of the sizes that were asked for, if those of shared
memory fit in 32 bits.  A call that fails leaves everything as it was. -/
theorem used_eq_granted {hasRoot : Bool} {s : State} (hs : (system hasRoot).Reachable s) :
    (∀ c ct, s.containers.get c = some ct → ct.used ≤ ct.size ∧
      ((∀ x ∈ s.mems, x.2.asked < 2 ^ 32) → ct.used = s.granted c)) ∧
    ∀ e t err, syscall hasRoot s e = some (t, some err) → t = s := by
  have hi := Inv.of_reachable hs
  constructor
  · intro c ct hct
    refine ⟨(hi.books.bounded c ct hct).1, fun hshared => ?_⟩
    rw [hi.books.account c ct hct]
    exact (Sized.of_reachable hs).granted_eq hshared c
  · intro e t err h
    exact syscall_fail hi h

def boot : State := ⟨⟨⟨0xd500000, 0, 0⟩, .empty⟩, .empty, .empty, .empty, 0⟩

theorem boot_initial : Initial boot := by
  refine ⟨by decide, rfl, rfl, rfl, rfl, rfl, rfl⟩

/-- A container, and an object of each kind. -/
theorem used_eq_granted_objects : ∃ s, (system false).Reachable s ∧
    (s.containers.dct.used = 0x1300000 ∧ s.granted none = 0x1300000) ∧
    ∀ e t err, syscall false s e = some (t, some err) → t = s := by
  have ⟨s, hs, hused, hmems⟩ := System.Reachable.exists_of_run (M := system false) boot_initial
    [.containerCreate 0x10fffff (some 1), .allocateFromContainer 0x10000 1 pageSize64k (some 0x20000000) true,
      .allocate 0x100000 0 (some 0x30000000) true, .allocateShared noShmKey 0x100000 0 (some 1),
      .vmMap 0x2000000 0x100000 0xffffffff 1 false (some 6)]
    (fun s => s.containers.dct.used = 0x1300000 ∧ ∀ x ∈ s.mems.entries, x.2.asked < 2 ^ 32)
    (by decide +kernel)
  have ⟨hsum, hfail⟩ := used_eq_granted hs
  exact ⟨s, hs, ⟨hused, ((hsum none s.containers.dct rfl).2 hmems).symm.trans hused⟩, hfail⟩

/-- The size of a container is rounded down, and the size of shared memory loses its upper half. -/
theorem used_ne_asked : (∃ s, (system false).Reachable s ∧ s.containers.dct.used = 0x100000 ∧ s.asked none = 0x1fffff) ∧
    ∃ s, (system false).Reachable s ∧ s.containers.dct.used = 0x100000 ∧ s.asked none = 0x100100000 := by
  constructor
  · exact System.Reachable.exists_of_run boot_initial
      [.containerCreate 0x1fffff (some 1)] _ (by decide +kernel)
  · exact System.Reachable.exists_of_run boot_initial
      [.allocateShared noShmKey 0x100100000 0 (some 1)] _ (by decide +kernel)

end Armsx3.Lv2.MemoryContainer
