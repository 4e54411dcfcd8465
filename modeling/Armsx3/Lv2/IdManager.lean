import Armsx3.Library.Transition

/-!
# IdManager — handles of kernel objects

Slots of keys and objects that are shared by types with different bases.  The key of a slot that has become free keeps
its value, where the bits of `id_invl_range` count how often the slot has been given away.
-/

namespace Armsx3.Lv2

variable {τ : Type} [DecidableEq τ]

/-- The traits of the types `τ` in a container.  They share everything but the base, which leaves the bits of the
invalidation range free; the ids of two types meet in the same slot if at all. -/
structure IdTraits (τ : Type) where
  base : τ → BitVec 32
  step : Nat
  count : Nat
  first : Nat
  bits : Nat
  usesLowestId : τ → Bool
  single : Bool
  step_pos : 0 < step
  range : first + bits ≤ 32 ∧ bits < 32
  fits : ∀ t, ∀ i < count, (base t).toNat + step * i < 2 ^ 32
  clear : ∀ t, ∀ i < count, ((base t).toNat + step * i) / 2 ^ first % 2 ^ bits = 0
  apart : ∀ t u, ∀ i < count, ∀ j < count, (base t).toNat + step * i = (base u).toNat + step * j → i = j
  alone : single = true → ∀ t u : τ, t = u

namespace IdTraits

/-- `((1u << invl_range.second) - 1) << invl_range.first` -/
def mask (c : IdTraits τ) : BitVec 32 := ((1 : BitVec 32) <<< c.bits - 1) <<< c.first

def getIndex (c : IdTraits τ) (t : τ) (id : BitVec 32) : Nat :=
  let diff := (id &&& ~~~c.mask) - c.base t
  if diff.toNat % c.step ≠ 0 then c.count else diff.toNat / c.step

def next (c : IdTraits τ) (t : τ) (i : Nat) : BitVec 32 := c.base t + BitVec.ofNat 32 (c.step * i)

end IdTraits

/-- `id_key`; the type of a free slot is `umax`. -/
structure IdKey (τ : Type) where
  value : BitVec 32 := 0
  type : Option τ := none
deriving DecidableEq

structure IdObject (τ : Type) where
  type : τ
  id : BitVec 32
deriving DecidableEq

structure IdMap (τ : Type) where
  keys : Nat → IdKey τ := fun _ => {}
  data : Nat → Option (IdObject τ) := fun _ => none
  highestIndex : Nat := 0
  /-- the ids that objects in each slot have been created with -/
  issued : Nat → List (BitVec 32) := fun _ => []

namespace IdMap

variable (c : IdTraits τ) (m : IdMap τ)

def setKey (i : Nat) (k : IdKey τ) : IdMap τ := { m with keys := Function.update m.keys i k }

def freeSlot : Option Nat := (List.range c.count).find? fun i => (m.keys i).type = none

/-- `id` of a slot that is used again: the invalidation counter is incremented. -/
def nextId (t : τ) (i : Nat) : BitVec 32 :=
  c.next t i ||| (((m.keys i).value + (1 : BitVec 32) <<< c.first) &&& if c.bits ≠ 0 then c.mask else 0)

/-- `allocate_id` without a fixed id, and the slot of the key that is returned. -/
def allocateId (t : τ) : IdMap τ × Option Nat :=
  if !c.usesLowestId t && m.highestIndex < c.count then
    -- emplace back
    ({ m.setKey m.highestIndex ⟨c.next t m.highestIndex, some t⟩ with highestIndex := m.highestIndex + 1 },
      some m.highestIndex)
  else
    let highest := if c.usesLowestId t then c.count else m.highestIndex
    match m.freeSlot c with
    | some i => ({ m.setKey i ⟨m.nextId c t i, some t⟩ with highestIndex := highest }, some i)
    | none => ({ m with highestIndex := highest }, none)

def place (i : Nat) (t : τ) : IdMap τ :=
  let id := (m.keys i).value
  { m with
    data := Function.update m.data i (some ⟨t, id⟩)
    issued := Function.update m.issued i (m.issued i ++ [id]) }

/-- `create_id`; `provided` tells whether the provider returns an object. -/
def createId (t : τ) (provided : Bool) : IdMap τ :=
  match m.allocateId c t with
  | (m, some i) => if provided then m.place i t else m.setKey i {}
  | (m, none) => m

def findIndex (t : τ) (index : Nat) (id : BitVec 32) : Option Nat :=
  if index ≥ m.highestIndex then none
  else if (m.data index).isSome && (c.single || (m.keys index).type = some t) &&
      (c.bits = 0 || (m.keys index).value = id) then some index
  else none

/-- `find_id`, and the object in the slot. -/
def find (t : τ) (id : BitVec 32) : Option (IdObject τ) := (m.findIndex c t (c.getIndex t id) id).bind m.data

def release (i : Nat) : IdMap τ :=
  { m.setKey i { m.keys i with type := none } with data := Function.update m.data i none }

/-- `remove_verify`; `equal` tells whether the object is the expected one. -/
def removeVerify (t : τ) (id : BitVec 32) (equal : Bool) : IdMap τ :=
  let index := c.getIndex t id
  if index ≥ c.count then m
  else
    match m.findIndex c t index id with
    | some i => if equal then m.release i else m
    | none => m

def remove (t : τ) (id : BitVec 32) : IdMap τ := m.removeVerify c t id true

/-- `withdraw`, with the object that is returned. -/
def withdraw (t : τ) (id : BitVec 32) : IdMap τ × Option (IdObject τ) :=
  (m.removeVerify c t id true, if c.getIndex t id ≥ c.count then none else m.find c t id)

end IdMap

inductive IdEvent (τ : Type)
  | create (t : τ) (provided : Bool)
  | remove (t : τ) (id : BitVec 32)
  | removeVerify (t : τ) (id : BitVec 32) (equal : Bool)
  | withdraw (t : τ) (id : BitVec 32)

def idSystem (c : IdTraits τ) : Transition.System (IdMap τ) (IdEvent τ) where
  init m := m = {}
  step m
    | .create t provided => some (m.createId c t provided)
    | .remove t id => some (m.remove c t id)
    | .removeVerify t id equal => some (m.removeVerify c t id equal)
    | .withdraw t id => some (m.withdraw c t id).1

structure IdSafe (c : IdTraits τ) (m : IdMap τ) : Prop where
  /-- live objects have different ids -/
  distinct : ∀ i j a b, m.data i = some a → m.data j = some b → a.id = b.id → i = j
  /-- what is found is live, of the type, and was created with the id -/
  found : ∀ t id a, m.find c t id = some a → (∃ i, m.data i = some a) ∧ a.type = t ∧ a.id = id
  /-- ids run out only when all slots are taken -/
  exhausted : ∀ t, (m.allocateId c t).2 = none → ∀ i < c.count, (m.data i).isSome = true
  /-- before an id is issued again, `2 ^ bits - 1` others are issued for the slot -/
  reissued : ∀ i a b id, a < b → (m.issued i)[a]? = some id → (m.issued i)[b]? = some id → 2 ^ c.bits - 1 ≤ b - a - 1

end Armsx3.Lv2
