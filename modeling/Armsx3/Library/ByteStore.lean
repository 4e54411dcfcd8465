import Mathlib

/-!
# ByteStore — a memory with ranges that are copied at once
-/

namespace ByteStore

open List

variable {β : Type*} {mem : Nat → β} {off a n : Nat} {bs : List β}

def write (mem : Nat → β) (off : Nat) (bs : List β) (a : Nat) : β :=
  if off ≤ a then (bs[a - off]?).getD (mem a) else mem a

def read (mem : Nat → β) (off n : Nat) : List β := (range n).map fun i => mem (off + i)

@[simp] theorem length_read : (read mem off n).length = n := by
  rw [read, length_map, length_range]

theorem read_congr {mem' : Nat → β} (h : ∀ i, i < n → mem (off + i) = mem' (off + i)) :
    read mem off n = read mem' off n := by
  apply map_congr_left
  intro i hi
  exact h i (mem_range.mp hi)

theorem read_add (mem : Nat → β) (off m n : Nat) : read mem off (m + n) = read mem off m ++ read mem (off + m) n := by
  simp only [read, range_add, map_append, map_map]
  congr 2
  funext i
  show mem (off + (m + i)) = mem (off + m + i)
  rw [Nat.add_assoc]

theorem read_write (mem : Nat → β) (off : Nat) (bs : List β) : read (write mem off bs) off bs.length = bs := by
  apply ext_getElem
  · exact length_read
  · intro i hi hi'
    have hle : off ≤ off + i := by omega
    have hsub : off + i - off = i := by omega
    simp only [read, getElem_map, getElem_range, write, if_pos hle, hsub, getElem?_eq_getElem hi', Option.getD_some]

theorem read_write_disjoint (h : off + bs.length ≤ a ∨ a + n ≤ off) : read (write mem off bs) a n = read mem a n := by
  apply read_congr
  intro i hi
  unfold write
  split
  next hle =>
    have hnone : bs[a + i - off]? = none := by
      rw [getElem?_eq_none_iff]
      omega
    rw [hnone, Option.getD_none]
  · rfl

end ByteStore
