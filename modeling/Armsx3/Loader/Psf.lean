import Armsx3.Library.Fallible

/-!
# Psf — loading a `PARAM.SFO`

An error code is what the caller gets back; a fault is a failed `ensure`, or a key that is read to a terminator the key
table does not have.
-/

namespace Armsx3.Loader.Psf

open Fallible

inductive Error
  | notPsf
  | corrupt
  deriving DecidableEq

inductive Fault
  | ensure
  | keyTable
  deriving DecidableEq

inductive Stop
  | code (err : Error)
  | fault (f : Fault)
  deriving DecidableEq

/-- The field `param_fmt` holds any 16-bit number; these are the three that are known. -/
def array : Nat := 0x0004

def string : Nat := 0x0204

def integer : Nat := 0x0404

inductive Entry
  | integer (value : Nat)
  | text (type maxSize : Nat) (value : List UInt8)
  deriving DecidableEq

abbrev Registry := List (List UInt8 × Entry)

structure Header where
  offKeyTable : Nat
  offDataTable : Nat
  entriesNum : Nat

structure DefTable where
  keyOff : Nat
  paramFmt : Nat
  paramLen : Nat
  paramMax : Nat
  dataOff : Nat

def le (bs : List UInt8) : Nat := bs.foldr (fun b n => b.toNat + 256 * n) 0

def field (bs : List UInt8) (off size : Nat) : Nat := le ((bs.drop off).take size)

def header (bs : List UInt8) : Header := ⟨field bs 8 4, field bs 12 4, field bs 16 4⟩

def defTable (bs : List UInt8) : DefTable := ⟨field bs 0 2, field bs 2 2, field bs 4 4, field bs 8 4, field bs 12 4⟩

def bytes (s : String) : List UInt8 := s.toList.map fun c => UInt8.ofNat c.toNat

def psfCheck (cond : Prop) [Decidable cond] (err : Error) : Except Stop Unit :=
  if cond then .ok () else .error (.code err)

/-- A read of the stream gives the bytes that are there, and fails if they are fewer than asked for. -/
def read (file : List UInt8) (pos n : Nat) (err : Error) : Except Stop (List UInt8) :=
  if ((file.drop pos).take n).length = n then .ok ((file.drop pos).take n) else .error (.code err)

/-- `std::string key(keys.data() + off)`: the characters up to a terminator, and `keys` has one behind its last. -/
def readKey (keys : List UInt8) (off : Nat) : Except Stop (List UInt8) :=
  if 0 ∈ (keys ++ [0]).drop off then .ok (((keys ++ [0]).drop off).takeWhile (· ≠ 0)) else .error (.fault .keyTable)

def entry (type maxSize : Nat) (value : List UInt8) : Except Stop Entry :=
  if (type = string ∨ type = array) ∧ (if type = string then 1 else 0) < maxSize then .ok (.text type maxSize value)
  else .error (.fault .ensure)

section

variable (file : List UInt8) (h : Header) (keys : List UInt8) (sfo : Registry) (d : DefTable)

-- the sum of two 32-bit fields wraps
def dataPos : Nat := (h.offDataTable + d.dataOff) % 2 ^ 32

def loadValue (key : List UInt8) : Except Stop Registry :=
  if d.paramFmt = integer ∧ d.paramMax = 4 ∧ d.paramLen = 4 then do
    let value ← read file (dataPos h d) 4 .corrupt
    .ok (sfo ++ [(key, .integer (le value))])
  else if d.paramFmt = string ∨ d.paramFmt = array then do
    let value ← read file (dataPos h d) d.paramLen .corrupt
    let e ← entry d.paramFmt d.paramMax (if d.paramFmt = string then value.takeWhile (· ≠ 0) else value)
    .ok (sfo ++ [(key, e)])
  else
    -- an entry of an unknown format is ignored
    .ok sfo

def loadEntry : Except Stop Registry := do
  psfCheck (d.keyOff < h.offDataTable - h.offKeyTable) .corrupt
  let key ← readKey keys d.keyOff
  psfCheck (sfo.lookup key = none) .corrupt
  psfCheck (d.paramLen ≤ d.paramMax) .corrupt
  psfCheck (d.dataOff < file.length - h.offDataTable) .corrupt
  psfCheck (d.paramMax < file.length - d.dataOff) .corrupt
  loadValue file h sfo d key

/-- The header, the index table right behind it, and the key table. -/
def tables : Except Stop (Header × List DefTable × List UInt8) := do
  let bs ← read file 0 20 .notPsf
  let h := header bs
  psfCheck (field bs 0 4 = 0x46535000) .notPsf
  psfCheck (field bs 4 4 = 0x101) .notPsf
  psfCheck (20 ≤ h.offKeyTable) .corrupt
  psfCheck (h.offKeyTable ≤ h.offDataTable) .corrupt
  psfCheck (h.offDataTable ≤ file.length) .corrupt
  let table ← read file 20 (16 * h.entriesNum) .corrupt
  let keys ← read file h.offKeyTable (h.offDataTable - h.offKeyTable) .corrupt
  .ok (h, (List.range h.entriesNum).map fun i => defTable (table.drop (16 * i)), keys)

def category : List UInt8 :=
  match sfo.lookup (bytes "CATEGORY") with
  | some (.text _ _ value) => value
  | _ => []

def validCats : List String :=
  ["GD", "DG", "HG", "AM", "AP", "AS", "AT", "AV", "BV", "WT", "HM", "CB", "SF", "2P", "2G", "1P", "PP", "MN", "PE",
    "2D", "SD", "MS"]

def load : Except Stop Registry := do
  let t ← tables file
  let sfo ← t.2.1.foldlM (loadEntry file t.1 t.2.2) []
  psfCheck (category sfo ∈ validCats.map bytes) .corrupt
  .ok sfo

/-! ## What the file must say for an entry to be reached -/

/-- The maximum size is one the constructor of an entry refuses. -/
def DefTable.Small : Prop := d.paramFmt = string ∧ d.paramMax ≤ 1 ∨ d.paramFmt = array ∧ d.paramMax = 0

/-- The format is known; entries of other formats are ignored. -/
def DefTable.Known : Prop :=
  (d.paramFmt = integer ∧ d.paramMax = 4 ∧ d.paramLen = 4) ∨ d.paramFmt = string ∨ d.paramFmt = array

def HeaderOk : Prop :=
  20 ≤ file.length ∧ field file 0 4 = 0x46535000 ∧ field file 4 4 = 0x101 ∧ 20 ≤ (header file).offKeyTable ∧
    (header file).offKeyTable ≤ (header file).offDataTable ∧ (header file).offDataTable ≤ file.length ∧
    16 * (header file).entriesNum ≤ file.length - 20

def index : List DefTable := (List.range (header file).entriesNum).map fun i => defTable (file.drop (20 + 16 * i))

def keyTable : List UInt8 :=
  (file.drop (header file).offKeyTable).take ((header file).offDataTable - (header file).offKeyTable)

def keyOf : List UInt8 := ((keyTable file).drop d.keyOff).takeWhile (· ≠ 0)

/-- The fields of an entry are what is checked for, and its data lies in the file. -/
structure Sound : Prop where
  key : d.keyOff < (header file).offDataTable - (header file).offKeyTable
  len : d.paramLen ≤ d.paramMax
  off : d.dataOff < file.length - (header file).offDataTable
  max : d.paramMax < file.length - d.dataOff
  data : d.Known → d.paramLen ≤ file.length - dataPos (header file) d

/-- The entry and those before it are sound, and none has the key of one of a known format before it. -/
def Reached : Prop :=
  HeaderOk file ∧ ∃ before after, index file = before ++ d :: after ∧ (∀ e ∈ before ++ [d], Sound file e) ∧
    (before ++ [d]).Pairwise fun a b => a.Known → keyOf file a ≠ keyOf file b

end

section

variable {file keys : List UInt8} {sfo sfo' : Registry} {d : DefTable} {f : Fault}

/-! ## The tables -/

theorem psfCheck_ok {cond : Prop} [Decidable cond] {err : Error} {u : Unit} : psfCheck cond err = .ok u ↔ cond := by
  simp [psfCheck]

theorem psfCheck_fault {cond : Prop} [Decidable cond] {err : Error} : psfCheck cond err ≠ .error (.fault f) := by
  unfold psfCheck
  split <;> simp

theorem psfCheck_bind {α : Type} {cond : Prop} [Decidable cond] {err : Error} (k : Unit → Except Stop α) :
    (psfCheck cond err >>= k) = if cond then k () else .error (.code err) := by
  unfold psfCheck
  split <;> rfl

theorem read_ok {pos n : Nat} {err : Error} {bs : List UInt8} :
    read file pos n err = .ok bs ↔ n ≤ file.length - pos ∧ (file.drop pos).take n = bs := by
  unfold read
  simp only [List.length_take, List.length_drop, min_eq_left_iff]
  split <;> simp [*]

theorem read_error {pos n : Nat} {err : Error} (h : ¬n ≤ file.length - pos) :
    read file pos n err = .error (.code err) := by
  unfold read
  rw [List.length_take, List.length_drop, if_neg (mt min_eq_left_iff.mp h)]

theorem read_fault {pos n : Nat} {err : Error} : read file pos n err ≠ .error (.fault f) := by
  unfold read
  split <;> simp

theorem field_take {n off size : Nat} (h : off + size ≤ n) : field (file.take n) off size = field file off size := by
  unfold field
  rw [List.drop_take, List.take_take, Nat.min_eq_left (by omega)]

theorem header_take {n : Nat} (h : 20 ≤ n) : header (file.take n) = header file := by
  unfold header
  rw [field_take (by omega), field_take (by omega), field_take (by omega)]

theorem defTable_take {n : Nat} (h : 16 ≤ n) : defTable (file.take n) = defTable file := by
  unfold defTable
  rw [field_take (by omega), field_take (by omega), field_take (by omega), field_take (by omega),
    field_take (by omega)]

theorem index_eq : (List.range (header file).entriesNum).map
    (fun i => defTable (((file.drop 20).take (16 * (header file).entriesNum)).drop (16 * i))) = index file := by
  refine List.map_congr_left fun i hi => ?_
  have hi := List.mem_range.mp hi
  rw [List.drop_take, defTable_take (by omega), List.drop_drop]

theorem tables_ok {t : Header × List DefTable × List UInt8} :
    tables file = .ok t ↔ HeaderOk file ∧ (header file, index file, keyTable file) = t := by
  simp only [tables, bind_eq_ok, psfCheck_ok, read_ok, List.drop_zero, Nat.sub_zero, and_assoc, exists_and_left,
    exists_eq_left', exists_const, header_take (Nat.le_refl 20), field_take (show 0 + 4 ≤ 20 by decide),
    field_take (show 4 + 4 ≤ 20 by decide), index_eq, HeaderOk, Except.ok.injEq]
  constructor
  · rintro ⟨h1, h2, h3, h4, h5, h6, h7, -, ht⟩
    exact ⟨h1, h2, h3, h4, h5, h6, h7, ht⟩
  · rintro ⟨h1, h2, h3, h4, h5, h6, h7, ht⟩
    exact ⟨h1, h2, h3, h4, h5, h6, h7, Nat.sub_le_sub_right h6 _, ht⟩

theorem tables_fault : tables file ≠ .error (.fault f) := by
  simp only [tables, bind_eq_error, psfCheck_fault, read_fault, ne_eq, false_or, not_exists, not_and, reduceCtorEq,
    not_false_eq_true, implies_true]

theorem length_keyTable (h : HeaderOk file) :
    (keyTable file).length = (header file).offDataTable - (header file).offKeyTable := by
  have ⟨_, _, _, _, _, hlen, _⟩ := h
  unfold keyTable
  rw [List.length_take, List.length_drop]
  exact Nat.min_eq_left (Nat.sub_le_sub_right hlen _)

/-! ## One entry -/

theorem readKey_ok {off : Nat} (hoff : off < keys.length) :
    readKey keys off = .ok ((keys.drop off).takeWhile (· ≠ 0)) := by
  have hend (l : List UInt8) : (l ++ [0]).takeWhile (· ≠ 0) = l.takeWhile (· ≠ 0) := by
    induction l with
    | nil => rfl
    | cons a l ih => simp only [List.cons_append, List.takeWhile_cons, ih]
  unfold readKey
  rw [List.drop_append_of_le_length (Nat.le_of_lt hoff), hend, if_pos (List.mem_append_right _ List.mem_cons_self)]

theorem entry_small {value : List UInt8} (h : d.Small) :
    entry d.paramFmt d.paramMax value = .error (.fault .ensure) := by
  unfold DefTable.Small at h
  unfold entry
  grind

theorem entry_large {value : List UInt8} (hfmt : d.paramFmt = string ∨ d.paramFmt = array) (h : ¬d.Small) :
    entry d.paramFmt d.paramMax value = .ok (.text d.paramFmt d.paramMax value) := by
  unfold DefTable.Small at h
  unfold entry
  grind

theorem mem_keys_append {key k : List UInt8} {e : Entry} (h : d.Known) :
    k ∈ (sfo ++ [(key, e)]).map Prod.fst ↔ k ∈ sfo.map Prod.fst ∨ d.Known ∧ key = k := by
  rw [List.map_append, List.mem_append, and_iff_right h, eq_comm]
  exact or_congr_right List.mem_singleton

/-- What becomes of the value of an entry whose fields pass the checks. -/
theorem loadValue_spec {h : Header} {key : List UInt8} :
    (¬(d.Known → d.paramLen ≤ file.length - dataPos h d) ∧
        ∃ err, loadValue file h sfo d key = .error (.code err)) ∨
      (d.Known → d.paramLen ≤ file.length - dataPos h d) ∧
        (d.Small ∧ loadValue file h sfo d key = .error (.fault .ensure) ∨
          ¬d.Small ∧ ∃ sfo', loadValue file h sfo d key = .ok sfo' ∧
            ∀ k, k ∈ sfo'.map Prod.fst ↔ k ∈ sfo.map Prod.fst ∨ d.Known ∧ key = k) := by
  have known (hs : d.Small) : d.paramFmt = string ∨ d.paramFmt = array := hs.imp And.left And.left
  unfold loadValue
  split
  next hint =>
    have hk : d.Known := .inl hint
    have hsmall : ¬d.Small := by
      intro hs
      have hf := known hs
      rw [hint.1] at hf
      exact absurd hf (by decide)
    by_cases hlen : 4 ≤ file.length - dataPos h d
    · rw [read_ok.mpr ⟨hlen, rfl⟩]
      exact .inr ⟨fun _ => hint.2.2.symm ▸ hlen, .inr ⟨hsmall, _, rfl, fun _ => mem_keys_append hk⟩⟩
    · rw [read_error hlen]
      exact .inl ⟨fun hd => hlen (hint.2.2 ▸ hd hk), _, rfl⟩
  next hint =>
    split
    next hfmt =>
      have hk : d.Known := .inr hfmt
      by_cases hlen : d.paramLen ≤ file.length - dataPos h d
      · rw [read_ok.mpr ⟨hlen, rfl⟩]
        refine .inr ⟨fun _ => hlen, ?_⟩
        simp only [bind, Except.bind]
        by_cases hsmall : d.Small
        · exact .inl ⟨hsmall, by rw [entry_small hsmall]⟩
        · rw [entry_large hfmt hsmall]
          exact .inr ⟨hsmall, _, rfl, fun _ => mem_keys_append hk⟩
      · rw [read_error hlen]
        exact .inl ⟨fun hd => hlen (hd hk), _, rfl⟩
    next hfmt =>
      have hk : ¬d.Known := fun hk => hk.elim hint hfmt
      refine .inr ⟨fun h => absurd h hk, .inr ⟨mt known hfmt, sfo, rfl, fun k => ?_⟩⟩
      rw [or_iff_left fun h => hk h.1]

theorem loadEntry_spec (hok : HeaderOk file) (sfo : Registry) (d : DefTable) :
    let x := loadEntry file (header file) (keyTable file) sfo d
    (¬(Sound file d ∧ keyOf file d ∉ sfo.map Prod.fst) ∧ ∃ err, x = .error (.code err)) ∨
      (Sound file d ∧ keyOf file d ∉ sfo.map Prod.fst) ∧ (d.Small ∧ x = .error (.fault .ensure) ∨
        ¬d.Small ∧ ∃ sfo', x = .ok sfo' ∧
          ∀ k, k ∈ sfo'.map Prod.fst ↔ k ∈ sfo.map Prod.fst ∨ d.Known ∧ keyOf file d = k) := by
  have hlookup : sfo.lookup (keyOf file d) = none ↔ keyOf file d ∉ sfo.map Prod.fst := by
    rw [List.lookup_eq_none_iff, List.mem_map]
    simp only [bne_iff_ne, ne_eq, not_exists, not_and]
    exact forall₂_congr fun _ _ => not_congr eq_comm
  unfold loadEntry
  simp only [psfCheck_bind]
  split
  next hkey =>
    have hread (k : List UInt8 → Except Stop Registry) :
        (readKey (keyTable file) d.keyOff >>= k) = k (keyOf file d) := by
      rw [readKey_ok (by rw [length_keyTable hok]; exact hkey)]
      rfl
    rw [hread]
    split_ifs with hnew hlen hoff hmax
    · rcases loadValue_spec (h := header file) with ⟨hdata, herr⟩ | ⟨hdata, hvalue⟩
      · exact .inl ⟨fun hs => hdata hs.1.data, herr⟩
      · exact .inr ⟨⟨⟨hkey, hlen, hoff, hmax, hdata⟩, hlookup.mp hnew⟩, hvalue⟩
    · exact .inl ⟨fun hs => hmax hs.1.max, _, rfl⟩
    · exact .inl ⟨fun hs => hoff hs.1.off, _, rfl⟩
    · exact .inl ⟨fun hs => hlen hs.1.len, _, rfl⟩
    · exact .inl ⟨fun hs => hnew (hlookup.mpr hs.2), _, rfl⟩
  next hkey => exact .inl ⟨fun hs => hkey hs.1.key, _, rfl⟩

/-! ## All entries -/

/-- A sound entry with a new key behind those that are loaded. -/
theorem entries_append {L : List DefTable} (hsound : ∀ e ∈ L, Sound file e)
    (hkeys : L.Pairwise fun a b => a.Known → keyOf file a ≠ keyOf file b) (hd : Sound file d)
    (hnew : ¬∃ a ∈ L, a.Known ∧ keyOf file a = keyOf file d) : (∀ e ∈ L ++ [d], Sound file e) ∧
      (L ++ [d]).Pairwise fun a b => a.Known → keyOf file a ≠ keyOf file b := by
  refine ⟨fun e he => ?_, List.pairwise_append.mpr ⟨hkeys, List.pairwise_singleton _ _, fun a ha b hb hk heq => ?_⟩⟩
  · rcases List.mem_append.mp he with he | he
    · exact hsound e he
    · rw [List.mem_singleton.mp he]
      exact hd
  · rw [List.mem_singleton.mp hb] at heq
    exact hnew ⟨a, ha, hk, heq⟩

section Entries

variable (hok : HeaderOk file)
include hok

theorem entries_ok {L : List DefTable} (h : L.foldlM (loadEntry file (header file) (keyTable file)) [] = .ok sfo) :
    (∀ e ∈ L, Sound file e) ∧ (L.Pairwise fun a b => a.Known → keyOf file a ≠ keyOf file b) ∧
      ∀ k, k ∈ sfo.map Prod.fst ↔ ∃ a ∈ L, a.Known ∧ keyOf file a = k := by
  induction L using List.reverseRecOn generalizing sfo with
  | nil =>
    cases h
    simp
  | append_singleton L d ih =>
    rw [List.foldlM_append] at h
    obtain ⟨s, hs, hd⟩ := bind_eq_ok.mp h
    simp only [List.foldlM_cons, List.foldlM_nil, bind_pure] at hd
    obtain ⟨hsound, hkeys, hmem⟩ := ih hs
    rcases loadEntry_spec hok s d with ⟨-, err, herr⟩ | ⟨⟨hd', hnew⟩, ⟨-, herr⟩ | ⟨-, sfo', hok', hsfo⟩⟩
    · cases hd.symm.trans herr
    · cases hd.symm.trans herr
    cases hd.symm.trans hok'
    simp only [hmem] at hnew hsfo
    have ⟨hsound, hkeys⟩ := entries_append hsound hkeys hd' hnew
    refine ⟨hsound, hkeys, ?_⟩
    simp only [hsfo, List.mem_append, List.mem_singleton, or_and_right, exists_or, exists_eq_left, implies_true]

/-- Sound entries with keys of their own are loaded, up to the first one whose maximum size is too small. -/
theorem entries_cases {L : List DefTable} (hsound : ∀ e ∈ L, Sound file e)
    (hkeys : L.Pairwise fun a b => a.Known → keyOf file a ≠ keyOf file b) :
    let x := L.foldlM (loadEntry file (header file) (keyTable file)) []
    x = .error (.fault .ensure) ∨ (∃ sfo, x = .ok sfo) ∧ ∀ e ∈ L, ¬e.Small := by
  induction L using List.reverseRecOn with
  | nil => exact .inr ⟨⟨[], rfl⟩, nofun⟩
  | append_singleton L d ih =>
    obtain ⟨hkeys, -, hnew⟩ := List.pairwise_append.mp hkeys
    intro x
    rcases ih (fun e he => hsound e (List.mem_append_left _ he)) hkeys with herr | ⟨⟨sfo, hsfo⟩, hlarge⟩
    · left
      simp only [x, List.foldlM_append, herr]
      rfl
    have ⟨_, _, hmem⟩ := entries_ok hok hsfo
    have hlast : x = loadEntry file (header file) (keyTable file) sfo d := by
      simp only [x, List.foldlM_append, hsfo, List.foldlM_cons, List.foldlM_nil, bind_pure]
      rfl
    rcases loadEntry_spec hok sfo d with ⟨hnot, -⟩ | ⟨-, ⟨-, herr⟩ | ⟨hsmall, sfo', hok', -⟩⟩
    · refine absurd ⟨hsound d (List.mem_append_right _ List.mem_cons_self), fun hin => ?_⟩ hnot
      obtain ⟨a, ha, hk, heq⟩ := (hmem _).mp hin
      exact hnew a ha d List.mem_cons_self hk heq
    · exact .inl (hlast.trans herr)
    · refine .inr ⟨⟨sfo', hlast.trans hok'⟩, fun e he => ?_⟩
      rcases List.mem_append.mp he with he | he
      · exact hlarge e he
      · rw [List.mem_singleton.mp he]
        exact hsmall

end Entries

/-- Whatever the bytes of the file are, the load ends in a fault for one reason: a string or array entry with too small
a maximum size that is reached. -/
theorem load_fault : load file = .error (.fault f) ↔ f = .ensure ∧ ∃ d, Reached file d ∧ d.Small := by
  simp only [load, bind_eq_error, tables_fault, psfCheck_fault, false_or, reduceCtorEq, and_false, exists_false,
    or_false]
  constructor
  · rintro ⟨t, ht, hfold⟩
    obtain ⟨hok, rfl⟩ := tables_ok.mp ht
    obtain ⟨before, d, after, sfo, hindex, hb, hd⟩ := foldlM_eq_error.mp hfold
    have ⟨hsound, hkeys, hmem⟩ := entries_ok hok hb
    rcases loadEntry_spec hok sfo d with ⟨-, err, herr⟩ | ⟨⟨hd', hnew⟩, ⟨hsmall, herr⟩ | ⟨-, _, herr, -⟩⟩
    · cases hd.symm.trans herr
    · cases hd.symm.trans herr
      have ⟨hsound, hkeys⟩ := entries_append hsound hkeys hd' (mt (hmem _).mpr hnew)
      exact ⟨rfl, d, ⟨hok, before, after, hindex, hsound, hkeys⟩, hsmall⟩
    · cases hd.symm.trans herr
  · rintro ⟨rfl, d, ⟨hok, before, after, hindex, hsound, hkeys⟩, hsmall⟩
    refine ⟨_, tables_ok.mpr ⟨hok, rfl⟩, ?_⟩
    rcases entries_cases hok hsound hkeys with herr | ⟨-, hlarge⟩
    · rw [hindex, List.append_cons, List.foldlM_append, herr]
      rfl
    · exact absurd hsmall (hlarge d (List.mem_append_right _ List.mem_cons_self))

theorem load_returns_iff (file : List UInt8) :
    (∀ f, load file ≠ .error (.fault f)) ↔ ∀ d, Reached file d → ¬d.Small := by
  simp only [ne_eq, load_fault, not_and, not_exists, forall_eq]

end

-- one string entry at the start of the data, of size and maximum size 1
def shortString : List UInt8 :=
  [0, 0x50, 0x53, 0x46, 1, 1, 0, 0, 36, 0, 0, 0, 38, 0, 0, 0, 1, 0, 0, 0] ++
    [0, 0, 4, 2, 1, 0, 0, 0, 1, 0, 0, 0, 0, 0, 0, 0] ++ [65, 0] ++ [0, 0]

theorem load_aborts : load shortString = .error (.fault .ensure) := by
  decide +kernel

end Armsx3.Loader.Psf
