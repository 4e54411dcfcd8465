import Mathlib

/-!
# LinkedList — singly linked lists in a heap

A heap gives the node at an address, if the address is in use; address 0 is the null pointer.
`Linked heap ptr l` says that the nodes of `l` are what is found from `ptr` on by following the links up to a
null pointer.
-/

namespace LinkedList

open List Function

structure Node (α : Type*) where
  link : Nat
  data : α
deriving DecidableEq

abbrev Heap (α : Type*) := Nat → Option (Node α)

variable {α : Type*} {heap heap' : Heap α} {ptr a link : Nat} {v : α} {l : List (Nat × α)}

def Linked (heap : Heap α) : Nat → List (Nat × α) → Prop
  | ptr, [] => ptr = 0
  | ptr, (a, v) :: l => ptr = a ∧ a ≠ 0 ∧ ∃ link, heap a = some ⟨link, v⟩ ∧ Linked heap link l

/-- `ptr->link = link` -/
def setLink (heap : Heap α) (ptr link : Nat) : Heap α :=
  update heap ptr ((heap ptr).map fun n => { n with link := link })

/-- `delete ptr` -/
def free (heap : Heap α) (ptr : Nat) : Heap α := update heap ptr none

theorem Linked.congr (h : Linked heap ptr l) (hsame : ∀ x ∈ l, heap' x.1 = heap x.1) : Linked heap' ptr l := by
  induction l generalizing ptr with
  | nil => exact h
  | cons x l ih =>
    have ⟨hptr, hne, link, hnode, hrest⟩ := h
    refine ⟨hptr, hne, link, ?_, ih hrest fun y hy => hsame y (mem_cons_of_mem x hy)⟩
    rw [← hnode]
    exact hsame x mem_cons_self

theorem Linked.eq_nil (h : Linked heap 0 l) : l = [] := by
  cases l with
  | nil => rfl
  | cons =>
    have ⟨hptr, hne, _⟩ := h
    exact absurd hptr.symm hne

theorem Linked.node (h : Linked heap ptr l) (hptr : ptr ≠ 0) :
    ∃ link v t, l = (ptr, v) :: t ∧ heap ptr = some ⟨link, v⟩ ∧ Linked heap link t := by
  cases l with
  | nil => exact absurd h hptr
  | cons x t =>
    have ⟨hx, _, link, hnode, hrest⟩ := h
    refine ⟨link, x.2, t, ?_, hx ▸ hnode, hrest⟩
    rw [hx]

theorem Linked.ne_nil (h : Linked heap ptr l) (hptr : ptr ≠ 0) : l ≠ [] := by
  rintro rfl
  exact hptr h

theorem Linked.cons (h : Linked heap link l) (ha : a ≠ 0) (hnode : heap a = some ⟨link, v⟩) :
    Linked heap a ((a, v) :: l) := ⟨rfl, ha, link, hnode, h⟩

theorem Linked.unique {l' : List (Nat × α)} (h : Linked heap ptr l) (h' : Linked heap ptr l') : l = l' := by
  induction l generalizing ptr l' with
  | nil =>
    have hptr := h
    rw [hptr] at h'
    exact h'.eq_nil.symm
  | cons x l ih =>
    have ⟨hx, hne, link, hnode, hrest⟩ := h
    have ⟨link', v, t, hl', hnode', hrest'⟩ := h'.node (hx ▸ hne)
    rw [← hx] at hnode
    have heq := Node.mk.inj (Option.some.inj (hnode.symm.trans hnode'))
    rw [hl', ih hrest (heq.1 ▸ hrest'), ← heq.2, hx]

theorem Linked.suffix (h : Linked heap ptr l) (ha : a ∈ l.map Prod.fst) :
    ∃ t, Linked heap a t ∧ t.length ≤ l.length := by
  induction l generalizing ptr with
  | nil => cases ha
  | cons x l ih =>
    have ⟨hx, _, link, _, hrest⟩ := h
    rcases mem_cons.mp ha with rfl | ha
    · exact ⟨x :: l, hx ▸ h, Nat.le_refl _⟩
    · have ⟨t, ht, hle⟩ := ih hrest ha
      exact ⟨t, ht, Nat.le_succ_of_le hle⟩

theorem Linked.nodup (h : Linked heap ptr l) : (l.map Prod.fst).Nodup := by
  induction l generalizing ptr with
  | nil => exact nodup_nil
  | cons x l ih =>
    have ⟨hx, _, link, _, hrest⟩ := h
    rw [map_cons, nodup_cons]
    refine ⟨fun hmem => ?_, ih hrest⟩
    -- the list from the second occurrence on would be the whole list again
    have ⟨t, ht, hle⟩ := hrest.suffix hmem
    have heq := ht.unique (hx ▸ h)
    rw [heq, length_cons] at hle
    omega

theorem Linked.head_ne (h : Linked heap ptr ((a, v) :: l)) (x : Nat × α) (hx : x ∈ l) : x.1 ≠ a := by
  have hnodup := h.nodup
  rw [map_cons, nodup_cons] at hnodup
  exact fun he => hnodup.1 (mem_map.mpr ⟨x, hx, he⟩)

theorem Linked.frame (h : Linked heap ptr l) (hne : ∀ x ∈ l, x.1 ≠ a) (n : Option (Node α)) :
    Linked (update heap a n) ptr l := h.congr fun x hx => update_of_ne (hne x hx) _ _

theorem Linked.setLink (h : Linked heap ptr l) (hne : ∀ x ∈ l, x.1 ≠ a) (ha : a ≠ 0) (hnode : heap a = some ⟨link, v⟩) :
    Linked (setLink heap a ptr) a ((a, v) :: l) := by
  apply (h.frame hne _).cons ha
  rw [update_self, hnode]
  rfl

end LinkedList
