import Mathlib

/-!
# Escape — names of the guest as names of host files

Names are lists of bytes.  The characters U+FF01 to U+FF3F are `ef bc 81` to `ef bc bf` in UTF-8, and U+FF40 to U+FF5E
are `ef bd 80` to `ef bd 9e`.
-/

namespace Armsx3.Vfs

open List

/-- `get_char`, which reads a NUL behind the end. -/
def getChar (name : List UInt8) (pos : Nat) : UInt8 := name.getD pos 0

/-! ## `vfs::escape` -/

def toupper (c : UInt8) : UInt8 := if 0x61 ≤ c ∧ c ≤ 0x7a then c - 0x20 else c

local instance lawfulBytes : LawfulBEq (List UInt8) := inferInstance

def isDevice : List UInt8 → Bool
  | a :: b :: c :: rest =>
    if [toupper a, toupper b, toupper c] ∈ [[0x43, 0x4f, 0x4d], [0x4c, 0x50, 0x54]] then
      -- COM and LPT with a number
      match rest with
      | d :: rest => 0x31 ≤ d && d ≤ 0x39 && (rest == [] || getChar rest 0 == 0x2e)
      | [] => false
    else if [toupper a, toupper b, toupper c] ∈
        [[0x4e, 0x55, 0x4c], [0x43, 0x4f, 0x4e], [0x41, 0x55, 0x58], [0x50, 0x52, 0x4e]] then
      -- NUL, CON, AUX and PRN
      rest == [] || getChar rest 0 == 0x2e
    else false
  | _ => false

/-- The bytes are those of a full-width character behind its first byte. -/
def isFullWidth (c2 c3 : UInt8) : Bool :=
  (c2 == 0xbc && 0x81 ≤ c3 && c3 ≤ 0xbf) || (c2 == 0xbd && 0x80 ≤ c3 && c3 ≤ 0x9e)

/-- The full-width character that a byte is replaced by, without its first byte. -/
def replacement (c : UInt8) : Option (UInt8 × UInt8) :=
  if c ≤ 9 then some (0xbc, 0x90 + c)
  else if c ≤ 31 then some (0xbc, 0xa1 + c - 10)
  else
    match c with
    | 0x3c => some (0xbc, 0x9c) -- <
    | 0x3e => some (0xbc, 0x9e) -- >
    | 0x3a => some (0xbc, 0x9a) -- :
    | 0x22 => some (0xbc, 0x82) -- "
    | 0x5c => some (0xbc, 0xbc) -- \
    | 0x7c => some (0xbd, 0x9c) -- |
    | 0x3f => some (0xbc, 0x9f) -- ?
    | 0x2a => some (0xbc, 0x8a) -- *
    | _ => none

/-- The body of the loop, at a byte with `rest` behind it. -/
def escapeChar (escapeSlash : Bool) (c : UInt8) (rest : List UInt8) : List UInt8 :=
  match replacement c with
  | some (c2, c3) => [0xef, c2, c3]
  | none =>
    if c = 0x2f then if escapeSlash then [0xef, 0xbc, 0x8f] else [c]
    -- a period or a space at the end
    else if c = 0x2e then if getChar rest 0 = 0 then [0xef, 0xbc, 0x8e] else [c]
    else if c = 0x20 then if getChar rest 0 = 0 then [0xef, 0xbc, 0xbf] else [c]
    else if c = 0xef then if isFullWidth (getChar rest 0) (getChar rest 1) then [0xef, 0xbc, 0x81, c] else [c]
    else [c]

def escapeLoop (escapeSlash : Bool) : List UInt8 → List UInt8
  | [] => []
  | c :: rest => escapeChar escapeSlash c rest ++ escapeLoop escapeSlash rest

/-- Bytes are a finite type too, but to run through all of them is no way to decide it. -/
instance (priority := 2000) decidableForallByte (name : List UInt8) (P : UInt8 → Prop) [DecidablePred P] :
    Decidable (∀ c ∈ name, P c) :=
  name.decidableBAll P

def escape (name : List UInt8) (escapeSlash : Bool) : List UInt8 :=
  if name.length ≤ 2 ∧ ∀ c ∈ name, c = 0x2e then name
  else (if isDevice name then [0xef, 0xbc, 0x81] else []) ++ escapeLoop escapeSlash name

/-! ## `vfs::unescape` -/

/-- What is appended at a byte, how many bytes are skipped behind it, and whether the function returns. -/
structure Unescaped where
  out : List UInt8
  skip : Nat := 0
  stop : Bool := false
deriving DecidableEq

/-- The body of the loop, at a byte with three bytes behind it. -/
def unescapeChar (first : Bool) (c c2 c3 c4 : UInt8) : Unescaped :=
  if c = 0xef then
    if c2 = 0xbc then
      if 0x81 ≤ c3 ∧ c3 ≤ 0xbf then
        if 0x90 ≤ c3 ∧ c3 ≤ 0x99 then { out := [c3 - 0x90] }
        else if 0xa1 ≤ c3 ∧ c3 ≤ 0xb6 then { out := [c3 - 0xa1 + 10] }
        else if c3 = 0x81 then if c4 = 0 then { out := [], stop := true } else { out := [c4], skip := 3 }
        else if c3 = 0xbf then { out := [0x20], skip := 2 }
        else if c3 = 0x8e then { out := [0x2e], skip := 2 }
        else if c3 = 0x9c then { out := [0x3c], skip := 2 }
        else if c3 = 0x9e then { out := [0x3e], skip := 2 }
        else if c3 = 0x9a then { out := [0x3a], skip := 2 }
        else if c3 = 0x82 then { out := [0x22], skip := 2 }
        else if c3 = 0xbc then { out := [0x5c], skip := 2 }
        else if c3 = 0x9f then { out := [0x3f], skip := 2 }
        else if c3 = 0x8a then { out := [0x2a], skip := 2 }
        -- a name that `vfs::host::unlink` has made
        else if c3 = 0x84 ∧ first = true then { out := [0x2e], stop := true }
        else { out := [], skip := 2 }
      else { out := [c] }
    else if c2 = 0xbd then
      if 0x80 ≤ c3 ∧ c3 ≤ 0x9e then { out := if c3 = 0x9c then [0x7c] else [], skip := 2 } else { out := [c] }
    else { out := [c] }
  else if c = 0 then { out := [], stop := true }
  else { out := [c] }

/-- The loop; `first` says that the index is zero, and `skip` is what was added to it. -/
def unescapeLoop : Bool → Nat → List UInt8 → List UInt8
  | _, _, [] => []
  | first, 0, c :: rest =>
    let u := unescapeChar first c (getChar rest 0) (getChar rest 1) (getChar rest 2)
    if u.stop then u.out else u.out ++ unescapeLoop false u.skip rest
  | _, skip + 1, _ :: rest => unescapeLoop false skip rest

def unescape (name : List UInt8) : List UInt8 := unescapeLoop true 0 name

/-! ## There and back -/

/-- What becomes of a byte.  Behind a control character `unescape` does not skip the rest of the full-width
character. -/
def decoded (c : UInt8) : List UInt8 :=
  match replacement c with
  | some (c2, c3) => if c ≤ 31 then [c, c2, c3] else [c]
  | none => [c]

/-- A fact about bytes is looked up for each of them. -/
theorem forall_byte {P : UInt8 → Prop} (h : ∀ n < 256, P (UInt8.ofNat n)) (c : UInt8) : P c := by
  have hc := h c.toNat c.toNat_lt
  rw [UInt8.ofNat_toNat] at hc
  exact hc

section Loop

variable {escapeSlash first : Bool} {c c2 c3 c4 : UInt8} {rest : List UInt8}

theorem unescapeChar_congr (h : c3 ≠ 0x81 ∧ c3 ≠ 0x84) :
    unescapeChar first c c2 c3 c4 = unescapeChar false c c2 c3 0 := by
  simp [unescapeChar, h.1, h.2]

theorem forall_replacement {P : UInt8 → UInt8 × UInt8 → Prop} [∀ c p, Decidable (P c p)] {p : UInt8 × UInt8}
    (h : ∀ n < 256, (replacement (.ofNat n)).all (fun p => P (.ofNat n) p)) (hc : replacement c = some p) : P c p := by
  have hall := forall_byte (P := fun c => (replacement c).all (P c)) h c
  rw [hc] at hall
  exact of_decide_eq_true hall

theorem unescapeChar_replacement (h : replacement c = some (c2, c3)) (first : Bool) (c4 : UInt8) :
    unescapeChar first 0xef c2 c3 c4 = ⟨[c], if c ≤ 31 then 0 else 2, false⟩ ∧
      c2 ≠ 0xef ∧ c2 ≠ 0 ∧ c3 ≠ 0xef ∧ c3 ≠ 0 := by
  have ⟨hne, hout, hbytes⟩ := forall_replacement (P := fun c p => (p.2 ≠ 0x81 ∧ p.2 ≠ 0x84) ∧
    unescapeChar false 0xef p.1 p.2 0 = ⟨[c], if c ≤ 31 then 0 else 2, false⟩ ∧
      p.1 ≠ 0xef ∧ p.1 ≠ 0 ∧ p.2 ≠ 0xef ∧ p.2 ≠ 0) (by decide +kernel) h
  exact ⟨(unescapeChar_congr hne).trans hout, hbytes⟩

theorem replacement_high (h : 0x80 ≤ c) : replacement c = none :=
  forall_byte (P := fun c => 0x80 ≤ c → replacement c = none) (by decide +kernel) c h

theorem escapeLoop_head (rest : List UInt8) :
    getChar (escapeLoop escapeSlash rest) 0 = getChar rest 0 ∨ getChar (escapeLoop escapeSlash rest) 0 = 0xef := by
  cases rest with
  | nil => exact .inl rfl
  | cons =>
    unfold escapeLoop escapeChar
    split
    · exact .inr rfl
    · split_ifs <;> first | exact .inl rfl | exact .inr rfl

theorem escapeLoop_plain (h : 0x80 ≤ c) (hne : c ≠ 0xef) :
    escapeLoop escapeSlash (c :: rest) = c :: escapeLoop escapeSlash rest := by
  have hlow : c ≠ 0x2f ∧ c ≠ 0x2e ∧ c ≠ 0x20 := by
    refine ⟨?_, ?_, ?_⟩ <;> (rintro rfl; exact absurd h (by decide))
  rw [escapeLoop, escapeChar, replacement_high h]
  simp only [hlow, hne, if_false]
  rfl

theorem unescapeLoop_plain (hne : c ≠ 0xef) (h0 : c ≠ 0) (rest : List UInt8) :
    unescapeLoop first 0 (c :: rest) = c :: unescapeLoop false 0 rest := by
  simp [unescapeLoop, unescapeChar, hne, h0]

theorem unescapeLoop_step {u : Unescaped}
    (h : unescapeChar first c (getChar rest 0) (getChar rest 1) (getChar rest 2) = u) (hstop : u.stop = false) :
    unescapeLoop first 0 (c :: rest) = u.out ++ unescapeLoop false u.skip rest := by
  subst h
  simp [unescapeLoop, hstop]

theorem unescapeLoop_replacement (h : replacement c = some (c2, c3)) (rest : List UInt8) :
    unescapeLoop first 0 (0xef :: c2 :: c3 :: rest) = decoded c ++ unescapeLoop false 0 rest := by
  have ⟨hchar, hc2, hc2', hc3, hc3'⟩ := unescapeChar_replacement h first (getChar rest 0)
  have hstep : unescapeLoop first 0 (0xef :: c2 :: c3 :: rest) = _ := unescapeLoop_step hchar rfl
  rw [hstep, decoded, h]
  by_cases hlow : c ≤ 31
  · simp only [if_pos hlow, unescapeLoop_plain hc2 hc2', unescapeLoop_plain hc3 hc3']
    rfl
  · simp only [if_neg hlow]
    rfl

theorem unescapeLoop_marked (h0 : c ≠ 0) (rest : List UInt8) :
    unescapeLoop first 0 (0xef :: 0xbc :: 0x81 :: c :: rest) = c :: unescapeLoop false 0 rest := by
  have hchar : unescapeChar first 0xef 0xbc 0x81 c = ⟨[c], 3, false⟩ := by simp [unescapeChar, h0]
  have hstep : unescapeLoop first 0 (0xef :: 0xbc :: 0x81 :: c :: rest) = _ := unescapeLoop_step hchar rfl
  exact hstep

theorem isFullWidth_escapeLoop (h : isFullWidth (getChar (escapeLoop escapeSlash rest) 0)
    (getChar (escapeLoop escapeSlash rest) 1) = true) : isFullWidth (getChar rest 0) (getChar rest 1) = true := by
  have hbytes : ∀ {a b}, isFullWidth a b = true → 0x80 ≤ a ∧ a ≠ 0xef ∧ b ≠ 0xef := by
    intro a b hab
    simp only [isFullWidth, Bool.or_eq_true, Bool.and_eq_true, beq_iff_eq, decide_eq_true_eq] at hab
    rcases hab with ⟨⟨rfl, _⟩, hb⟩ | ⟨⟨rfl, _⟩, hb⟩ <;>
      exact ⟨by decide, by decide, fun heq => absurd (heq ▸ hb) (by decide)⟩
  have ⟨hhigh, hne, hne'⟩ := hbytes h
  have hhead := (escapeLoop_head rest).resolve_right hne
  cases rest with
  | nil => exact h
  | cons c rest =>
    rw [hhead] at hhigh hne
    rw [escapeLoop_plain (c := c) hhigh hne] at h hne'
    have hnext := (escapeLoop_head rest).resolve_right hne'
    change isFullWidth c (getChar (escapeLoop escapeSlash rest) 0) = true at h
    rw [hnext] at h
    exact h

theorem unescapeChar_of_not_fullWidth (h : isFullWidth c2 c3 = false) :
    unescapeChar first 0xef c2 c3 c4 = ⟨[0xef], 0, false⟩ := by
  simp only [isFullWidth, Bool.or_eq_false_iff, Bool.and_assoc] at h
  rw [unescapeChar, if_pos rfl]
  by_cases hbc : c2 = 0xbc
  · have hrange : ¬(0x81 ≤ c3 ∧ c3 ≤ 0xbf) := by simpa [hbc] using h.1
    rw [if_pos hbc, if_neg hrange]
  rw [if_neg hbc]
  by_cases hbd : c2 = 0xbd
  · have hrange : ¬(0x80 ≤ c3 ∧ c3 ≤ 0x9e) := by simpa [hbd] using h.2
    rw [if_pos hbd, if_neg hrange]
  · rw [if_neg hbd]

theorem unescapeLoop_escapeLoop_cons (h0 : c ≠ 0) (hslash : c ≠ 0x2f) (hrest : ∀ b ∈ rest, b ≠ 0) :
    unescapeLoop first 0 (escapeLoop escapeSlash (c :: rest)) =
      decoded c ++ unescapeLoop false 0 (escapeLoop escapeSlash rest) := by
  have hend : getChar rest 0 = 0 → rest = [] := by
    intro hzero
    cases rest with
    | nil => rfl
    | cons b => exact absurd hzero (hrest b mem_cons_self)
  rw [escapeLoop, escapeChar]
  cases hrep : replacement c with
  | some => exact unescapeLoop_replacement hrep _
  | none =>
    have hdecoded : decoded c = [c] := by rw [decoded, hrep]
    simp only [hdecoded, hslash, if_false]
    by_cases hspecial : c = 0x2e ∨ c = 0x20
    · by_cases hzero : getChar rest 0 = 0
      · rw [hend hzero]
        rcases hspecial with rfl | rfl <;> rfl
      · simp only [hzero, if_false]
        rcases hspecial with rfl | rfl <;> exact unescapeLoop_plain (by decide) (by decide) _
    rw [not_or] at hspecial
    rw [if_neg hspecial.1, if_neg hspecial.2]
    by_cases hef : c = 0xef
    · subst hef
      by_cases hwide : isFullWidth (getChar rest 0) (getChar rest 1) = true
      · rw [if_pos hwide]
        exact unescapeLoop_marked (by decide) _
      rw [if_neg hwide]
      have hnot : isFullWidth (getChar (escapeLoop escapeSlash rest) 0)
          (getChar (escapeLoop escapeSlash rest) 1) = false := Bool.eq_false_iff.mpr (mt isFullWidth_escapeLoop hwide)
      exact unescapeLoop_step (unescapeChar_of_not_fullWidth hnot) rfl
    · rw [if_neg hef]
      exact unescapeLoop_plain hef h0 _

end Loop

variable {escapeSlash : Bool} {name : List UInt8}

theorem unescapeLoop_escapeLoop {first : Bool} (hname : ∀ c ∈ name, c ≠ 0 ∧ c ≠ 0x2f) :
    unescapeLoop first 0 (escapeLoop escapeSlash name) = name.flatMap decoded := by
  induction name generalizing first with
  | nil => rfl
  | cons c rest ih =>
    have hc := hname c mem_cons_self
    have hrest := fun b hb => hname b (mem_cons_of_mem c hb)
    rw [unescapeLoop_escapeLoop_cons hc.1 hc.2 fun b hb => (hrest b hb).1, ih hrest, flatMap_cons]

theorem isDevice_head (h : isDevice name = true) (escapeSlash : Bool) : ∃ c rest, name = c :: rest ∧ c ≠ 0 ∧
    escapeLoop escapeSlash name = c :: escapeLoop escapeSlash rest ∧ decoded c = [c] := by
  match name, h with
  | a :: b :: c :: rest, h =>
    have hletter : toupper a ∈ [0x43, 0x4c, 0x4e, 0x41, 0x50] := by
      by_contra hnot
      simp only [mem_cons, not_mem_nil, or_false, not_or] at hnot
      simp [isDevice, hnot] at h
    have ⟨hne, hrep⟩ := forall_byte (P := fun a => toupper a ∈ [0x43, 0x4c, 0x4e, 0x41, 0x50] →
      a ∉ [0, 0x2f, 0x2e, 0x20, 0xef] ∧ replacement a = none) (by decide +kernel) a hletter
    simp only [mem_cons, not_mem_nil, or_false, not_or] at hne
    refine ⟨a, b :: c :: rest, rfl, hne.1, ?_, by rw [decoded, hrep]⟩
    rw [escapeLoop, escapeChar, hrep]
    simp only [hne, if_false]
    rfl

theorem unescape_escape (hname : ∀ c ∈ name, c ≠ 0 ∧ c ≠ 0x2f) :
    unescape (escape name escapeSlash) = name.flatMap decoded := by
  unfold unescape escape
  split
  next hdots =>
    match name, hdots with
    | [], _ => rfl
    | [a], hdots =>
      rw [hdots.2 a mem_cons_self]
      rfl
    | [a, b], hdots =>
      rw [hdots.2 a mem_cons_self, hdots.2 b (mem_cons_of_mem a mem_cons_self)]
      rfl
  · split
    next hdevice =>
      have ⟨c, rest, hcons, h0, hescape, hdecoded⟩ := isDevice_head hdevice escapeSlash
      have hrest := fun b hb => hname b (hcons ▸ mem_cons_of_mem c hb)
      rw [hescape]
      refine (unescapeLoop_marked h0 _).trans ?_
      rw [unescapeLoop_escapeLoop hrest, hcons, flatMap_cons, hdecoded]
      rfl
    · exact unescapeLoop_escapeLoop hname

theorem decoded_cons (c : UInt8) : ∃ behind, decoded c = c :: behind ∧ (behind = [] ↔ ¬c ≤ 31) := by
  have hlow := forall_byte (P := fun c => c ≤ 31 → replacement c ≠ none) (by decide +kernel) c
  unfold decoded
  split
  · by_cases hc : c ≤ 31
    · exact ⟨_, if_pos hc, by simp [hc]⟩
    · exact ⟨[], if_neg hc, by simp [hc]⟩
  next hnone =>
    exact ⟨[], rfl, by simpa using fun hc => hlow hc hnone⟩

theorem length_le_flatMap_decoded (name : List UInt8) : name.length ≤ (name.flatMap decoded).length := by
  induction name with
  | nil => exact Nat.le_refl 0
  | cons c =>
    have ⟨behind, hdecoded, _⟩ := decoded_cons c
    rw [flatMap_cons, hdecoded, length_append, length_cons, length_cons]
    omega

theorem flatMap_decoded_iff (name : List UInt8) : name.flatMap decoded = name ↔ ∀ c ∈ name, ¬c ≤ 31 := by
  induction name with
  | nil => simp
  | cons c rest ih =>
    have ⟨behind, hdecoded, hbehind⟩ := decoded_cons c
    have hlen := length_le_flatMap_decoded rest
    rw [flatMap_cons, forall_mem_cons, ← ih, hdecoded, ← hbehind, cons_append, cons.injEq]
    constructor
    · -- what stays behind the control character is too much
      intro heq
      have hcongr := congrArg length heq.2
      rw [length_append] at hcongr
      have hnil : behind = [] := eq_nil_of_length_eq_zero (by omega)
      rw [hnil] at heq
      exact ⟨hnil, heq.2⟩
    · intro hand
      rw [hand.1, hand.2]
      exact ⟨rfl, rfl⟩

theorem flatMap_decoded_inj {a b : List UInt8} (h : a.flatMap decoded = b.flatMap decoded) : a = b := by
  induction a generalizing b with
  | nil =>
    have hlen := length_le_flatMap_decoded b
    rw [← h] at hlen
    exact (eq_nil_of_length_eq_zero (Nat.le_zero.mp hlen)).symm
  | cons c a ih =>
    have ⟨_, hc, _⟩ := decoded_cons c
    cases b with
    | nil =>
      rw [flatMap_cons, hc] at h
      cases h
    | cons d =>
      have ⟨_, hd, _⟩ := decoded_cons d
      rw [flatMap_cons, flatMap_cons] at h
      have hhead : c = d := by
        rw [hc, hd] at h
        exact (cons.inj h).1
      rw [hhead] at h ⊢
      rw [ih (append_cancel_left h)]

/-- Which names come back: those without a control character.  Names stay apart in any case. -/
theorem unescape_escape_iff (name : List UInt8) (escapeSlash : Bool) (hname : ∀ c ∈ name, c ≠ 0 ∧ c ≠ 0x2f) :
    (unescape (escape name escapeSlash) = name ↔ ∀ c ∈ name, ¬c ≤ 31) ∧
      ∀ other : List UInt8, (∀ c ∈ other, c ≠ 0 ∧ c ≠ 0x2f) →
        escape other escapeSlash = escape name escapeSlash → other = name := by
  rw [unescape_escape hname]
  refine ⟨flatMap_decoded_iff name, fun other hother heq => ?_⟩
  have hcongr := congrArg unescape heq
  rw [unescape_escape hother, unescape_escape hname] at hcongr
  exact flatMap_decoded_inj hcongr

/-- `com1.:＿` with a space behind it takes every kind of escape. -/
theorem unescape_escape_device : unescape (escape [0x63, 0x6f, 0x6d, 0x31, 0x2e, 0x3a, 0xef, 0xbc, 0xbf, 0x20] true) =
      [0x63, 0x6f, 0x6d, 0x31, 0x2e, 0x3a, 0xef, 0xbc, 0xbf, 0x20] :=
  (unescape_escape_iff [0x63, 0x6f, 0x6d, 0x31, 0x2e, 0x3a, 0xef, 0xbc, 0xbf, 0x20] true (by decide)).1.mpr (by decide)

/-- The last two bytes of the full-width digit stay behind the control character, so the name does not come back. -/
theorem unescape_escape_control : unescape (escape [0x01] false) = [0x01, 0xbc, 0x91] ∧
    unescape (escape [0x01] false) ≠ [0x01] := by decide

end Armsx3.Vfs
