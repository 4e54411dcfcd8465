import Mathlib

/-!
# MemoryBytes — guest memory in a savestate

`serialize_memory_bytes` saves memory without its 128-byte lines of zeros: a bitmap with one bit for each line, then
the lines whose bit is set, in runs.  The loop over the runs is modeled by the list of spans it hands to the archive.
-/

namespace Armsx3.Vm.MemoryBytes

open List Bool

abbrev Byte := BitVec 8
abbrev Mem := Nat → Byte

/-- `check_cache_line_zero`: the disjunction of the eight vectors of a line is zero. -/
def checkCacheLineZero (mem : Mem) (ptr : Nat) : Bool :=
  (range 128).all fun k => mem (ptr + k) == 0

/-- A `u64` that is not zero. -/
def sample64 (mem : Mem) (ptr : Nat) : Bool := (range 8).any fun k => mem (ptr + k) != 0

/-- The bits of two lines, at the bottom of the bitmap. -/
def pairBits (mem : Mem) (ptr : Nat) : Byte :=
  if sample64 mem ptr && sample64 mem (ptr + 128) then 3
  else (if checkCacheLineZero mem ptr then 0 else 1) |||
    (if checkCacheLineZero mem (ptr + 128) then 0 else 2)

def lineBitmap (mem : Mem) (ptr : Nat) : Byte :=
  [0, 256, 512, 768].foldl (fun bitmap i => bitmap ||| pairBits mem (ptr + i) <<< (i / 128)) 0

def bitArray (mem : Mem) (size : Nat) : List Byte :=
  (range (size / 1024)).map fun k => lineBitmap mem (1024 * k)

/-- `read_from_ptr<le_t<u32>>(bit_array, 4 * g)`. -/
def bitmapAt (bits : List Byte) (g : Nat) : BitVec 32 :=
  bits.getD (4 * g + 3) 0 ++ bits.getD (4 * g + 2) 0 ++ bits.getD (4 * g + 1) 0 ++ bits.getD (4 * g) 0

/-- The inner loop: how many bits are set from `bit` on. -/
def blockCount (bitmap : BitVec 32) (bit : Nat) : Nat :=
  if bit < 32 ∧ bitmap.getLsbD bit then blockCount bitmap (bit + 1) + 1 else 0
termination_by 32 - bit

/-- The runs of set bits from `i` on, each with its length. -/
def runs (bitmap : BitVec 32) (i : Nat) : List (Nat × Nat) :=
  if 32 ≤ i then []
  else if blockCount bitmap i = 0 then runs bitmap (i + 1)
  else (i, blockCount bitmap i) :: runs bitmap (i + blockCount bitmap i)
termination_by 32 - i

/-- The spans the loop hands to the archive, as offsets and sizes in bytes. -/
def spans (bits : List Byte) (size : Nat) : List (Nat × Nat) :=
  (range (size / 4096)).flatMap fun g =>
    (runs (bitmapAt bits g) 0).map fun r => (4096 * g + 128 * r.1, 128 * r.2)

/-- What `raw_serialize` appends when the archive is written. -/
def bytes (mem : Mem) (span : Nat × Nat) : List Byte :=
  (range span.2).map fun k => mem (span.1 + k)

abbrev Covers (span : Nat × Nat) (a : Nat) : Prop := span.1 ≤ a ∧ a < span.1 + span.2

/-- `raw_serialize` when the archive is read; it throws where the data ends early. -/
def load (s : List Byte × Mem) (span : Nat × Nat) : Option (List Byte × Mem) :=
  if s.1.length < span.2 then none
  else some (s.1.drop span.2, fun a => if Covers span a then s.1.getD (a - span.1) 0 else s.2 a)

/-- `serialize_memory_bytes` with an archive that is written. -/
def save (mem : Mem) (size : Nat) : Option (List Byte) :=
  if size % 4096 ≠ 0 then none
  else
    let bits := bitArray mem size
    some (bits ++ (spans bits size).flatMap (bytes mem))

/-- `serialize_memory_bytes` with an archive that is read, into `mem`. -/
def restore (data : List Byte) (mem : Mem) (size : Nat) : Option (List Byte × Mem) :=
  if size % 4096 ≠ 0 ∨ data.length < size / 1024 then none
  else
    (spans (data.take (size / 1024)) size).foldlM load (data.drop (size / 1024), mem)

variable {mem : Mem}

/-! ## The bitmap -/

theorem checkCacheLineZero_iff {ptr : Nat} : checkCacheLineZero mem ptr = true ↔ ∀ k < 128, mem (ptr + k) = 0 := by
  simp [checkCacheLineZero]

theorem not_sample64_of_zero {ptr : Nat} (h : checkCacheLineZero mem ptr = true) : sample64 mem ptr = false := by
  rw [checkCacheLineZero_iff] at h
  simp only [sample64, any_eq_false, mem_range]
  intro k hk
  simp [h k (by omega)]

/-- The shortcut changes nothing. -/
theorem pairBits_eq (ptr : Nat) : pairBits mem ptr = (if checkCacheLineZero mem ptr then 0 else 1) |||
      (if checkCacheLineZero mem (ptr + 128) then 0 else 2) := by
  unfold pairBits
  split
  next h =>
    rw [and_eq_true] at h
    have h1 : ¬ checkCacheLineZero mem ptr = true := by
      intro hz
      rw [not_sample64_of_zero hz] at h
      exact false_ne_true h.1
    have h2 : ¬ checkCacheLineZero mem (ptr + 128) = true := by
      intro hz
      rw [not_sample64_of_zero hz] at h
      exact false_ne_true h.2
    rw [if_neg h1, if_neg h2]
    rfl
  next => rfl

theorem getLsbD_lineBitmap (ptr : Nat) {j : Nat} (hj : j < 8) :
    (lineBitmap mem ptr).getLsbD j = !checkCacheLineZero mem (ptr + 128 * j) := by
  have hbit : ∀ (b : Bool) (x : Byte) (i : Nat), (if b then 0 else x : Byte).getLsbD i = (!b && x.getLsbD i) := by
    intro b x i
    cases b <;> simp
  simp only [lineBitmap, pairBits_eq, foldl_cons, foldl_nil, BitVec.getLsbD_or, BitVec.getLsbD_shiftLeft, hbit]
  interval_cases j <;> simp

theorem getLsbD_bitmapAt (bits : List Byte) (g : Nat) {j : Nat} (hj : j < 32) :
    (bitmapAt bits g).getLsbD j = (bits.getD (4 * g + j / 8) 0).getLsbD (j % 8) := by
  simp only [bitmapAt, BitVec.getLsbD_append]
  interval_cases j <;> rfl

/-- A line of which the bit is not set is zero. -/
theorem zero_of_not_bit {size g j k : Nat} (hg : g < size / 4096) (hj : j < 32) (hk : k < 128)
    (h : (bitmapAt (bitArray mem size) g).getLsbD j = false) : mem (4096 * g + 128 * j + k) = 0 := by
  have hlt : 4 * g + j / 8 < size / 1024 := by omega
  rw [getLsbD_bitmapAt _ _ hj] at h
  simp only [bitArray, getD_eq_getElem?_getD, getElem?_map, getElem?_range hlt, Option.map_some, Option.getD_some] at h
  rw [getLsbD_lineBitmap _ (Nat.mod_lt _ (by omega)), not_eq_false', checkCacheLineZero_iff] at h
  have hline : 1024 * (4 * g + j / 8) + 128 * (j % 8) = 4096 * g + 128 * j := by omega
  rw [← hline]
  exact h k hk

/-! ## The runs -/

theorem not_bit_of_blockCount {bitmap : BitVec 32} {i : Nat} (hi : i < 32)
    (h : blockCount bitmap i = 0) : bitmap.getLsbD i = false := by
  rw [blockCount] at h
  simpa [hi] using h

theorem exists_run {bitmap : BitVec 32} {i j : Nat} (hij : i ≤ j) (hj : j < 32)
    (hbit : bitmap.getLsbD j = true) : ∃ r ∈ runs bitmap i, r.1 ≤ j ∧ j < r.1 + r.2 := by
  induction i using runs.induct bitmap with
  | case1 => omega
  | case2 i hi hzero ih =>
    have hne : i ≠ j := by
      rintro rfl
      rw [not_bit_of_blockCount hj hzero] at hbit
      exact false_ne_true hbit
    rw [runs, if_neg hi, if_pos hzero]
    exact ih (by omega)
  | case3 i hi hzero ih =>
    rw [runs, if_neg hi, if_neg hzero]
    by_cases hlt : j < i + blockCount bitmap i
    · exact ⟨_, mem_cons_self, hij, hlt⟩
    · obtain ⟨r, hr, hcov⟩ := ih (by omega)
      exact ⟨r, mem_cons_of_mem _ hr, hcov⟩

/-- What the spans leave out is zero. -/
theorem zero_of_not_covered {size a : Nat} (hsize : size % 4096 = 0) (ha : a < size)
    (h : ∀ s ∈ spans (bitArray mem size) size, ¬ Covers s a) : mem a = 0 := by
  have hg : a / 4096 < size / 4096 := by omega
  have hj : a % 4096 / 128 < 32 := by omega
  have hbit : (bitmapAt (bitArray mem size) (a / 4096)).getLsbD (a % 4096 / 128) = false := by
    by_contra hset
    obtain ⟨r, hr, hcov⟩ := exists_run (Nat.zero_le _) hj (eq_true_of_not_eq_false hset)
    apply h (4096 * (a / 4096) + 128 * r.1, 128 * r.2)
    · exact mem_flatMap.mpr ⟨_, mem_range.mpr hg, mem_map_of_mem hr⟩
    · omega
  have hzero := zero_of_not_bit hg hj (Nat.mod_lt a (by omega : 0 < 128)) hbit
  rwa [show 4096 * (a / 4096) + 128 * (a % 4096 / 128) + a % 128 = a by omega] at hzero

/-! ## The archive -/

theorem load_bytes (m : Mem) (span : Nat × Nat) (rest : List Byte) : load (bytes mem span ++ rest, m) span =
      some (rest, fun a => if Covers span a then mem a else m a) := by
  have hlen : (bytes mem span).length = span.2 := by simp [bytes]
  have hget : ∀ a, Covers span a → (bytes mem span ++ rest).getD (a - span.1) 0 = mem a := by
    intro a ha
    have hk : a - span.1 < span.2 := by omega
    rw [getD_eq_getElem?_getD, getElem?_append_left (by omega)]
    simp only [bytes, getElem?_map, getElem?_range hk, Option.map_some, Option.getD_some, Nat.add_sub_cancel' ha.1]
  unfold load
  rw [if_neg (by rw [length_append]; omega), drop_left' hlen]
  congr 2
  funext a
  split
  next ha => exact hget a ha
  next => rfl

/-- Spans that were written are read back, one behind the other. -/
theorem load_spans (l : List (Nat × Nat)) (rest : List Byte) (m : Mem) :
    ∃ m', l.foldlM load (l.flatMap (bytes mem) ++ rest, m) = some (rest, m') ∧
      ∀ a, m' a = mem a ∨ m' a = m a ∧ ∀ s ∈ l, ¬ Covers s a := by
  induction l generalizing m with
  | nil => exact ⟨m, rfl, fun a => .inr ⟨rfl, by simp⟩⟩
  | cons s l ih =>
    obtain ⟨m', hrun, hm'⟩ := ih fun a => if Covers s a then mem a else m a
    refine ⟨m', ?_, fun a => ?_⟩
    · rw [foldlM_cons, flatMap_cons, append_assoc, load_bytes]
      exact hrun
    rcases hm' a with heq | ⟨heq, hnot⟩
    · exact .inl heq
    by_cases hs : Covers s a
    · rw [if_pos hs] at heq
      exact .inl heq
    · rw [if_neg hs] at heq
      exact .inr ⟨heq, forall_mem_cons.mpr ⟨hs, hnot⟩⟩

/-- What was saved is restored into memory of zeros, and all of it is consumed. -/
theorem restore_save (mem : Mem) {size : Nat} (hsize : size % 4096 = 0) {m : Mem}
    (hm : ∀ a < size, m a = 0) (rest : List Byte) :
    ∃ data m', save mem size = some data ∧ restore (data ++ rest) m size = some (rest, m') ∧
      ∀ a < size, m' a = mem a := by
  have hlen : (bitArray mem size).length = size / 1024 := by simp [bitArray]
  obtain ⟨m', hload, hm'⟩ := load_spans (spans (bitArray mem size) size) rest m
  refine ⟨_, m', if_neg (not_not_intro hsize), ?_, ?_⟩
  · -- the bitmap is read first, and with it the spans are those of the writer
    rw [append_assoc, restore, if_neg, take_left' hlen, drop_left' hlen, hload]
    rw [length_append, hlen]
    omega
  · intro a ha
    rcases hm' a with heq | ⟨heq, hnot⟩
    · exact heq
    · rw [heq, hm a ha, zero_of_not_covered hsize ha hnot]

/-- One page with a single byte that is not zero. -/
theorem restore_save_page : let mem : Mem := fun a => if a = 300 then 1 else 0
    ∃ data m', save mem 4096 = some data ∧ restore (data ++ []) (fun _ => 0) 4096 = some ([], m') ∧
      ∀ a < 4096, m' a = mem a :=
  restore_save _ rfl (fun _ _ => rfl) []

end Armsx3.Vm.MemoryBytes
