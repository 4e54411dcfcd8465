import Armsx3.Cell.DmuxQueueSafety
import Armsx3.Cell.DmuxStream
import Armsx3.Library.Fallible

/-!
# DmuxStreamSafety — elementary streams stay inside of their packets

The parsers of the elementary streams read inside of the cache and of the section that they are given.  The one
exception is the search of a compressed audio stream in fewer than four bytes of an access unit; it is ruled out here
for packets of at least nine bytes.
-/

namespace Armsx3.Cell.DmuxPamf

open Fallible ElementaryStream Meets List Option Nat

/-! ## Reading -/

def field (pack : List UInt8) (pos n : Nat) : Nat := be ((pack.drop pos).take n)

variable {stream : List UInt8}

section Reading

variable {xs : List UInt8} {pos n : Nat}

theorem readFromPtr_ok (h : pos + n ≤ xs.length) : readFromPtr xs pos n = .ok (field xs pos n) := if_pos h

theorem length_buf (cache stream : List UInt8) (n : Nat) (fill : UInt8) :
    ((cache ++ stream.take n ++ replicate 8 fill).take 8).length = 8 := by
  rw [length_take, length_append, length_replicate]
  omega

theorem add_length_cons (a b c d : UInt8) (rest : List UInt8) (pos : Nat) :
    pos + (a :: b :: c :: d :: rest).length = pos + 1 + (b :: c :: d :: rest).length := by
  simp only [length_cons]
  omega

theorem length_le_three (h : ∀ a b c d rest, xs = a :: b :: c :: d :: rest → False) : xs.length ≤ 3 := by
  match xs, h with
  | [], _ => exact zero_le 3
  | [_], _ => exact (by decide : 1 ≤ 3)
  | [_, _], _ => exact (by decide : 2 ≤ 3)
  | [_, _, _], _ => exact Nat.le_refl 3
  | a :: b :: c :: d :: rest, h => exact absurd rfl (h a b c d rest)

/-- The search in a stream of `size` bytes ends inside of it, and it goes on to the last three bytes unless the
access unit ends before them. -/
structure ScanSpec (ended : AuState → Prop) (size : Nat) (r : Scan) : Prop where
  order : r.auChunkBegin ≤ r.streamIt
  inside : r.streamIt ≤ size
  rest : ¬ended r.au → size ≤ r.streamIt + 3

theorem ScanSpec.auChunk {ended : AuState → Prop} {r : Scan} (h : ScanSpec ended stream.length r)
    (cache : List UInt8) (cacheIdx : Nat) : Meets (auChunk cache stream cacheIdx r) (fun _ => True) fun _ => False := by
  refine ite (fun _ => trivial) fun _ => map ?_
  unfold subrange
  rw [if_pos ⟨h.order, h.inside⟩]
  trivial

structure ParsedSpec (stream : List UInt8) (p : Parsed) : Prop where
  cache : p.cache.length ≤ 3
  consumed : p.au ≠ .complete → p.au ≠ .sizeMismatch → stream.length ≤ p.consumed

theorem length_cache_le {cache stream : List UInt8} {cacheIdx streamIt : Nat} {ended : Prop} [Decidable ended]
    (hcache : cache.length ≤ 3) (hgo : ¬ended → cacheIdx = cache.length ∧ stream.length ≤ streamIt + 3) :
    (cache.drop cacheIdx ++ if ended then [] else stream.drop streamIt).length ≤ 3 := by
  rw [length_append, length_drop]
  split_ifs with hended
  · rw [length_nil]
    omega
  · have ⟨hidx, hle⟩ := hgo hended
    rw [hidx, length_drop]
    omega

end Reading

/-! ## The video parser -/

variable {au : AuState}

section Video

variable {avc : Bool} {buf stream : List UInt8} {info : AuInfo}

theorem commence_ne_complete (code : Nat) : commence avc code ≠ .complete := by
  unfold commence
  split
  · decide
  · decide

theorem scanVideoCache_spec (n : Nat) {cacheIdx : Nat} (hbuf : buf.length = 8) (hn : cacheIdx + n ≤ 3)
    (hau : au ≠ .complete) : Meets (scanVideoCache avc buf info n cacheIdx au)
      (fun c => c.cacheIdx ≤ cacheIdx + n ∧ (c.stop = none → c.cacheIdx = cacheIdx + n ∧ c.au ≠ .complete) ∧
        (c.stop.isSome → c.au = .complete)) fun _ => False := by
  induction n generalizing cacheIdx au with
  | zero => exact ⟨Nat.le_refl _, fun _ => ⟨rfl, hau⟩, nofun⟩
  | succ n ih =>
    unfold scanVideoCache
    rw [readFromPtr_ok (by omega)]
    have hnext : ∀ au : AuState, au ≠ .complete → Meets (scanVideoCache avc buf info n (cacheIdx + 1) au)
        (fun c => c.cacheIdx ≤ cacheIdx + (n + 1) ∧
          (c.stop = none → c.cacheIdx = cacheIdx + (n + 1) ∧ c.au ≠ .complete) ∧
          (c.stop.isSome → c.au = .complete)) fun _ => False := by
      intro au hau
      refine (ih (by omega) hau).mono fun c ⟨hle, hnone, hsome⟩ => ⟨by omega, fun hstop => ?_, hsome⟩
      have ⟨hidx, hne⟩ := hnone hstop
      exact ⟨by omega, hne⟩
    refine ite (fun _ => ite (fun _ => ?_) fun _ => hnext _ (commence_ne_complete _)) fun _ => hnext _ hau
    exact ⟨le_add_right _ _, nofun, fun _ => rfl⟩

theorem scanVideo_spec (xs : List UInt8) {streamIt auChunkBegin : Nat} (hau : au ≠ .complete)
    (hbegin : auChunkBegin ≤ streamIt) :
    ScanSpec (· = .complete) (streamIt + xs.length) (scanVideo avc info xs streamIt auChunkBegin au) := by
  fun_induction scanVideo avc info xs streamIt auChunkBegin au with
  | case1 =>
    refine ⟨?_, ?_, fun hne => absurd rfl hne⟩
    · split
      · exact Nat.le_trans hbegin (Nat.le_add_right _ _)
      · exact hbegin
    · simp only [length_cons]
      split
      · omega
      · omega
  | case2 a b c d rest streamIt auChunkBegin au code hdelim hprogress ih =>
    rw [add_length_cons]
    exact ih (commence_ne_complete _) (by split <;> omega)
  | case3 a b c d rest streamIt auChunkBegin au code hdelim ih =>
    rw [add_length_cons]
    exact ih hau (by omega)
  | case4 xs streamIt auChunkBegin au hshort =>
    exact ⟨hbegin, Nat.le_add_right _ _, fun _ => Nat.add_le_add_left (length_le_three hshort) _⟩

theorem parseVideo_spec {es : ElementaryStream} (hcache : es.cache.length ≤ 3) :
    Meets (parseVideo avc es stream) (ParsedSpec stream) fun _ => False := by
  have hau : (if inProgress avc es.cutter.au then .incomplete else es.cutter.au) ≠ AuState.complete := by
    split_ifs with hprogress
    · decide
    · intro hcomplete
      rw [hcomplete] at hprogress
      exact hprogress (by cases avc <;> rfl)
  refine ite (fun _ => ?_) fun hlarge => absurd hcache hlarge
  refine (scanVideoCache_spec es.cache.length (length_buf _ _ _ _) (by omega) hau).bind fun c _ hc => ?_
  have hscan : ScanSpec (· = .complete) stream.length (c.video avc stream) ∧
      ((c.video avc stream).au ≠ .complete → c.cacheIdx = es.cache.length) := by
    unfold CacheScan.video
    cases hstop : c.stop with
    | some =>
      have hcomplete := hc.2.2 (by rw [hstop]; rfl)
      refine ⟨⟨zero_le _, ?_, fun hne => absurd hcomplete hne⟩, fun hne => absurd hcomplete hne⟩
      dsimp only
      split
      · exact Nat.min_le_right _ _
      · exact zero_le _
    | none =>
      have ⟨hidx, hne⟩ := hc.2.1 hstop
      have hspec : ScanSpec (· = .complete) (0 + stream.length) (scanVideo avc c.info stream 0 0 c.au) :=
        scanVideo_spec stream hne (Nat.le_refl 0)
      rw [Nat.zero_add] at hspec hidx
      exact ⟨hspec, fun _ => hidx⟩
  have ⟨hspec, hidx⟩ := hscan
  refine (hspec.auChunk _ _).bind fun chunk _ _ => ok ⟨?_, ?_⟩
  · exact length_cache_le hcache fun h => ⟨hidx h, hspec.rest h⟩
  · intro hne _
    exact Nat.le_of_eq (if_pos (.inl hne)).symm

end Video

/-! ## The parser of compressed audio streams -/

section Audio

variable (ac3 : Bool) {buf stream : List UInt8}

def Ended (au : AuState) : Prop := au = .complete ∨ au = .sizeMismatch

theorem visitAudio_spec (tmp auSize : Nat) (hau : ¬Ended au) (info : AuInfo) :
    let v := visitAudio ac3 tmp auSize au info
    (v.ends = true ↔ Ended v.au) ∧ (v.au = .sizeMismatch → 0 < auSize) := by
  have hkeep : ¬Ended au → (false = true ↔ Ended au) ∧ (au = .sizeMismatch → 0 < auSize) := fun h =>
    ⟨⟨nofun, fun hended => absurd hended h⟩, fun hm => absurd (.inr hm) h⟩
  unfold visitAudio
  split
  · exact hkeep hau
  split
  · split
    · exact ⟨⟨nofun, fun h => by cases h <;> contradiction⟩, nofun⟩
    split
    next hge =>
      refine ⟨⟨fun _ => ?_, fun _ => rfl⟩, fun hm => ?_⟩
      · split
        · exact .inl rfl
        · exact .inr rfl
      · split at hm
        · cases hm
        · omega
    · exact hkeep hau
  · exact hkeep hau

theorem scanAudioCache_spec (n : Nat) {size cacheIdx : Nat} {info : AuInfo} (hbuf : buf.length = 8)
    (hn : cacheIdx + n ≤ 3) (hau : ¬Ended au) : Meets (scanAudioCache ac3 size buf n cacheIdx au info)
      (fun c => c.cacheIdx ≤ cacheIdx + n ∧ (c.stop = none → c.cacheIdx = cacheIdx + n ∧ ¬Ended c.au) ∧
        (c.stop.isSome → Ended c.au ∧ (c.au = .sizeMismatch → 0 < size + c.cacheIdx))) fun _ => False := by
  induction n generalizing cacheIdx au info with
  | zero => exact ⟨Nat.le_refl _, fun _ => ⟨rfl, hau⟩, nofun⟩
  | succ n ih =>
    unfold scanAudioCache
    rw [readFromPtr_ok (by omega)]
    have ⟨hends, hlarge⟩ := visitAudio_spec ac3 (be ((buf.drop cacheIdx).take 2)) ((size + cacheIdx) % 2 ^ 32) hau info
    refine ite (fun hstop => ?_) fun hgo => ?_
    · refine ⟨le_add_right _ _, nofun, fun _ => ⟨hends.mp hstop, fun hm => ?_⟩⟩
      have hpos := hlarge hm
      exact Nat.pos_of_ne_zero fun hzero => by
        rw [hzero] at hpos
        exact absurd hpos (by decide)
    · refine (ih (by omega) (fun hended => hgo (hends.mpr hended))).mono fun c ⟨hle, hnone, hsome⟩ =>
        ⟨by omega, fun hstop => ?_, hsome⟩
      have ⟨hidx, hne⟩ := hnone hstop
      exact ⟨by omega, hne⟩

/-- The access unit ends four bytes or more before the end of the stream, and not at its start if it is too large. -/
structure AudioScanSpec (size streamSize : Nat) (r : Scan) : Prop extends ScanSpec Ended streamSize r where
  room : Ended r.au → r.streamIt + 4 ≤ streamSize
  large : r.au = .sizeMismatch → 0 < size + r.streamIt

theorem scanAudio_spec (xs : List UInt8) {size streamIt auChunkBegin : Nat} {info : AuInfo}
    (hau : ¬Ended au) (hbegin : auChunkBegin ≤ streamIt) :
    AudioScanSpec size (streamIt + xs.length) (scanAudio ac3 size xs streamIt auChunkBegin au info) := by
  fun_induction scanAudio ac3 size xs streamIt auChunkBegin au info with
  | case1 a b c d rest streamIt auChunkBegin au info v hends =>
    have ⟨hiff, hlarge⟩ := visitAudio_spec ac3 (be [a, b]) ((size + streamIt - auChunkBegin) % 2 ^ 32) hau info
    have hlen : (a :: b :: c :: d :: rest).length = rest.length + 4 := rfl
    refine ⟨⟨hbegin, Nat.le_add_right _ _, fun hne => absurd (hiff.mp hends) hne⟩, fun _ => ?_, fun hm => ?_⟩
    · rw [hlen]
      dsimp only
      omega
    · have hpos := hlarge hm
      exact Nat.pos_of_ne_zero fun hzero => by
        rw [hzero, Nat.zero_sub] at hpos
        exact absurd hpos (by decide)
  | case2 a b c d rest streamIt auChunkBegin au info v hgo ih =>
    have ⟨hiff, _⟩ := visitAudio_spec ac3 (be [a, b]) ((size + streamIt - auChunkBegin) % 2 ^ 32) hau info
    rw [add_length_cons]
    exact ih (fun hended => hgo (hiff.mpr hended)) (by split <;> omega)
  | case3 xs streamIt auChunkBegin au info hshort =>
    have hlen := length_le_three hshort
    refine ⟨⟨hbegin, Nat.le_add_right _ _, fun _ => Nat.add_le_add_left hlen _⟩, fun hended => absurd hended hau,
      fun hm => absurd (.inr hm) hau⟩

structure AudioSpec (es : ElementaryStream) (stream : List UInt8) (p : Parsed) : Prop where
  complete : p.au = .complete → p.consumed + 4 ≤ stream.length ∧ p.cache.length ≤ es.cache.length
  mismatch : p.au = .sizeMismatch → p.cache.length ≤ es.cache.length ∧ (es.cutter.accumulatedSize = 0 →
      p.cache.length + 1 ≤ es.cache.length ∨ (p.cache = [] ∧ (es.cache = [] → 5 ≤ stream.length)))

theorem skip_le (c : CacheScan) (size : Nat) (h : 4 ≤ stream.length) :
    c.skip size stream.length + 4 ≤ stream.length := by
  unfold CacheScan.skip
  split
  · have hsub : stream.length + 2 ^ 64 - 4 = stream.length - 4 + 2 ^ 64 := by omega
    omega
  · omega

theorem audio_spec (c : CacheScan) (size : Nat) (h : 4 ≤ stream.length) (hstop : c.stop = none) (hau : ¬Ended c.au) :
    AudioScanSpec size stream.length (c.audio ac3 size stream) := by
  have hskip := skip_le c size h
  have hspec : AudioScanSpec size (c.skip size stream.length + (stream.drop (c.skip size stream.length)).length)
      (scanAudio ac3 size (stream.drop (c.skip size stream.length)) (c.skip size stream.length) 0 c.au c.info) :=
    scanAudio_spec ac3 _ hau (zero_le _)
  rw [length_drop, Nat.add_sub_cancel' (by omega)] at hspec
  unfold CacheScan.audio
  rw [hstop]
  exact hspec

theorem drop_cache (hended : Ended au) (cache : List UInt8) (cacheIdx streamIt : Nat) :
    (cache.drop cacheIdx ++ if au = .complete ∨ au = .sizeMismatch then [] else stream.drop streamIt) =
      cache.drop cacheIdx := by
  have hor : au = .complete ∨ au = .sizeMismatch := hended
  rw [if_pos hor, append_nil]

theorem parseAudio_spec {es : ElementaryStream} (hcache : es.cache.length ≤ 3) (hstream : 4 ≤ stream.length) :
    Meets (parseAudio ac3 es stream) (fun p => ParsedSpec stream p ∧ AudioSpec es stream p) fun _ => False := by
  have hau : ¬Ended (if es.cutter.au ≠ .none then .incomplete else .none) := by
    split
    · exact fun h => by cases h <;> contradiction
    · exact fun h => by cases h <;> contradiction
  have hpositions : es.cache.length + min 1 stream.length - 1 = es.cache.length := by omega
  refine ite (fun _ => ?_) fun hlarge => absurd hcache hlarge
  rw [hpositions]
  refine (scanAudioCache_spec ac3 es.cache.length (length_buf _ _ _ _) (by omega) hau).bind fun c _ hc => ?_
  cases hstop : c.stop with
  | some =>
    -- the access unit ends in the cache
    have ⟨hended, hlarge⟩ := hc.2.2 (by rw [hstop]; rfl)
    have hscan : c.audio ac3 (es.cutter.accumulatedSize + es.cache.length) stream = ⟨0, 0, c.au, c.info⟩ := by
      unfold CacheScan.audio
      rw [hstop]
    have hspec : ScanSpec Ended stream.length ⟨0, 0, c.au, c.info⟩ :=
      ⟨Nat.le_refl _, Nat.zero_le _, fun hne => absurd hended hne⟩
    rw [hscan]
    refine (hspec.auChunk _ _).bind fun chunk _ _ => ok ⟨⟨?_, ?_⟩, ⟨fun hcomplete => ?_, fun hm => ?_⟩⟩
    · exact length_cache_le hcache fun h => absurd hended h
    · exact fun hne hne' => absurd hended fun h => h.elim hne hne'
    · have hconsumed : (if c.au ≠ .complete then stream.length else 0) = 0 := if_neg (not_not.mpr hcomplete)
      constructor
      · rw [hconsumed]
        exact hstream
      · rw [drop_cache hended, length_drop]
        omega
    · rw [drop_cache hended, length_drop]
      refine ⟨by omega, fun hzero => .inl ?_⟩
      have hpos := hlarge hm
      omega
  | none =>
    have ⟨hidx, hne⟩ := hc.2.1 hstop
    have hspec := audio_spec ac3 c (es.cutter.accumulatedSize + es.cache.length) hstream hstop hne
    rw [Nat.zero_add] at hidx
    refine (hspec.toScanSpec.auChunk _ _).bind fun chunk _ _ => ok ⟨⟨?_, ?_⟩, ⟨fun hcomplete => ?_, fun hm => ?_⟩⟩
    · exact length_cache_le hcache fun h => ⟨hidx, hspec.rest h⟩
    · intro hne _
      exact Nat.le_of_eq (if_pos hne).symm
    · have hroom := hspec.room (.inl hcomplete)
      rw [drop_cache (.inl hcomplete), if_neg (not_not.mpr hcomplete), length_drop]
      exact ⟨hroom, sub_le _ _⟩
    · have hroom := hspec.room (.inr hm)
      have hpos := hspec.large hm
      have hnil : es.cache.drop c.cacheIdx = [] := by
        rw [hidx]
        exact drop_length
      rw [drop_cache (.inr hm), hnil]
      refine ⟨zero_le _, fun hzero => .inr ⟨rfl, fun hempty => ?_⟩⟩
      have hlen := length_eq_zero_iff.mpr hempty
      omega

end Audio

/-! ## The invariant of a stream -/

section Stream

variable {es : ElementaryStream} {found : List (Nat × Nat)} {c : Cutter} {data : List UInt8}

/-- The output queue is in order, with these access units in it. -/
def Tracked (c : Cutter) (found : List (Nat × Nat)) : Prop :=
  ∃ q : QueueState, q.cutter = c ∧ QueueInv q ∧ q.found.map (fun f => (f.addr, f.size)) = found

/-- A compressed audio stream with a packet of `n` bytes has at least four bytes to parse.  Each byte that is cut off
from the packet goes along with one from the cache, and with an empty cache there is another byte before the end of
an access unit that is too large. -/
structure AudioRoom (es : ElementaryStream) (n : Nat) : Prop where
  ready : es.cutter.state = .initial → es.streamChunk ≠ [] → 4 ≤ es.streamChunk.length ∧
    (9 ≤ n ∨ (es.cutter.accumulatedSize = 0 ∧ (es.cache.length + 5 ≤ n ∨ es.cache = [])))
  complete : es.cutter.state ≠ .initial → es.cutter.au = .complete → es.streamChunk ≠ [] →
    4 ≤ es.streamChunk.length ∧ (9 ≤ n ∨ es.cache.length + 5 ≤ n ∨ es.cache = [])
  mismatch : es.cutter.state ≠ .initial → es.cutter.au = .sizeMismatch →
    5 ≤ n ∧ (es.cache.length + 6 ≤ n ∨ es.cache = [])

structure StreamInv (es : ElementaryStream) (found : List (Nat × Nat)) : Prop where
  queue : Tracked es.cutter found
  cache : es.cache.length ≤ 3
  chunk : ∀ data, es.pesPacketData = some data → es.streamChunk.length ≤ data.length
  packet : es.cutter.state ≠ .initial → ∃ b data, es.pesPacketData = some (b :: data)
  consumed : es.cutter.state ≠ .initial → ¬Ended es.cutter.au → es.streamChunk = []
  notifying : es.cutter.state = .notifyingAuFound → es.cutter.au = .complete
  audio : ∀ ac3 data, es.kind = .audio ac3 → es.pesPacketData = some data → AudioRoom es data.length

theorem StreamInv.congr (h : StreamInv es found) {es' : ElementaryStream} (hkind : es'.kind = es.kind)
    (hcutter : es'.cutter = es.cutter) (hcache : es'.cache = es.cache) (hpacket : es'.pesPacketData = es.pesPacketData)
    (hchunk : es'.streamChunk = es.streamChunk) : StreamInv es' found := by
  cases es
  cases es'
  subst hkind hcutter hcache hpacket hchunk
  exact { h with audio := fun ac3 data hac3 hdata => { h.audio ac3 data hac3 hdata with } }

/-- Between access units only the queue, the cache and the packet matter. -/
theorem StreamInv.of_initial (hs : es.cutter.state = .initial) (hqueue : Tracked es.cutter found)
    (hcache : es.cache.length ≤ 3) (hchunk : ∀ data, es.pesPacketData = some data → es.streamChunk.length ≤ data.length)
    (haudio : ∀ ac3 data, es.kind = .audio ac3 → es.pesPacketData = some data → es.streamChunk ≠ [] →
      4 ≤ es.streamChunk.length ∧ (9 ≤ data.length ∨
        (es.cutter.accumulatedSize = 0 ∧ (es.cache.length + 5 ≤ data.length ∨ es.cache = [])))) :
    StreamInv es found where
  queue := hqueue
  cache := hcache
  chunk := hchunk
  packet := fun hne => absurd hs hne
  consumed := fun hne => absurd hs hne
  notifying := by
    rw [hs]
    exact nofun
  audio := fun ac3 data hac3 hdata =>
    ⟨fun _ => haudio ac3 data hac3 hdata, fun hne => absurd hs hne, fun hne => absurd hs hne⟩

/-! ## Parsing -/

theorem parseLpcm_spec (hcache : es.cache.length ≤ 3) : ParsedSpec stream (parseLpcm es stream) := by
  unfold parseLpcm
  dsimp only
  split
  · exact ⟨hcache, fun _ _ => Nat.le_refl _⟩
  · exact ⟨hcache, fun hne _ => absurd rfl hne⟩

theorem parseUserData_spec (hcache : es.cache.length ≤ 3) : ParsedSpec stream (parseUserData es stream) := by
  unfold parseUserData
  split
  · exact ⟨hcache, fun _ _ => Nat.le_refl _⟩
  · exact ⟨hcache, fun _ _ => Nat.le_refl _⟩

theorem parseStream_spec (hcache : es.cache.length ≤ 3)
    (haudio : ∀ ac3, es.kind = .audio ac3 → 4 ≤ stream.length) : Meets (es.parseStream stream)
      (fun p => ParsedSpec stream p ∧ ∀ ac3, es.kind = .audio ac3 → AudioSpec es stream p) fun _ => False := by
  unfold parseStream
  cases hkind : es.kind with
  | video => exact (parseVideo_spec hcache).mono fun p hp => ⟨hp, nofun⟩
  | lpcm => exact ok ⟨parseLpcm_spec hcache, nofun⟩
  | audio ac3 => exact (parseAudio_spec ac3 hcache (haudio ac3 hkind)).mono fun p hp => ⟨hp.1, fun _ _ => hp.2⟩
  | userData => exact ok ⟨parseUserData_spec hcache, nofun⟩

theorem parse_inv (h : StreamInv es found) (hstate : es.cutter.state = .initial) (hchunk : es.streamChunk ≠ [])
    (hdata : es.pesPacketData = some data) :
    Meets es.parse (fun es' => StreamInv es' found ∧ es'.cutter.state = .pushingAuQueue ∧
      es'.pesPacketData = some data) fun _ => False := by
  have hpos := length_pos_iff.mpr hchunk
  have hle := h.chunk data hdata
  have hcache := h.cache
  have haudio := fun ac3 hac3 =>
    ((h.audio ac3 data hac3 hdata).ready hstate hchunk).1
  refine (parseStream_spec h.cache haudio).bind fun p _ ⟨hp, hroom⟩ => ok ?_
  have hinv : StreamInv { es with
      cutter := es.cutter.parsed (p.cachedData ++ p.data) p.au
      info := p.info
      cache := p.cache
      auSizeUnk := p.auSizeUnk
      streamChunk := es.streamChunk.drop p.consumed } found := by
    have hdrop : (es.streamChunk.drop p.consumed).length = es.streamChunk.length - p.consumed := length_drop
    refine ⟨?_, hp.cache, ?_, ?_, ?_, nofun, ?_⟩
    · have ⟨q, hcutter, hq, hfound⟩ := h.queue
      have hinitial : q.cutter.state = .initial := by
        rw [hcutter]
        exact hstate
      refine ⟨{ q with cutter := q.cutter.parsed (p.cachedData ++ p.data) p.au }, ?_, inv_parsed hq hinitial _ _, hfound⟩
      rw [hcutter]
    · intro data' hdata'
      have hlen := h.chunk data' hdata'
      show (es.streamChunk.drop p.consumed).length ≤ data'.length
      omega
    · intro _
      cases data with
      | nil =>
        rw [length_nil] at hle
        omega
      | cons b data => exact ⟨b, data, hdata⟩
    · intro _ hne
      have hall := hp.consumed (fun hc => hne (.inl hc)) (fun hm => hne (.inr hm))
      exact drop_eq_nil_of_le hall
    · intro ac3 data' hac3 hdata'
      have hspec := hroom ac3 hac3
      have ⟨hfour, hready⟩ := (h.audio ac3 data' hac3 hdata').ready hstate hchunk
      have hlen := h.chunk data' hdata'
      refine ⟨nofun, fun _ hcomplete _ => ?_, fun _ hm => ?_⟩
      · have ⟨hleft, hsmaller⟩ := hspec.complete hcomplete
        constructor
        · show 4 ≤ (es.streamChunk.drop p.consumed).length
          omega
        · show 9 ≤ data'.length ∨ p.cache.length + 5 ≤ data'.length ∨ p.cache = []
          rcases hready with hnine | ⟨_, hfive | hempty⟩
          · exact .inl hnine
          · exact .inr (.inl (by omega))
          · rw [hempty] at hsmaller
            exact .inr (.inr (length_eq_zero_iff.mp (le_zero.mp hsmaller)))
      · have ⟨hsmaller, hzero⟩ := hspec.mismatch hm
        show 5 ≤ data'.length ∧ (p.cache.length + 6 ≤ data'.length ∨ p.cache = [])
        rcases hready with hnine | ⟨hacc, hleft⟩
        · exact ⟨by omega, .inl (by omega)⟩
        rcases hzero hacc with hless | ⟨hnil, hfive⟩
        · -- the byte is cut off together with one from the cache
          rcases hleft with hfive | hempty
          · exact ⟨by omega, .inl (by omega)⟩
          · rw [hempty] at hless
            exact absurd hless (not_succ_le_zero _)
        · refine ⟨?_, .inr hnil⟩
          rcases hleft with hmore | hempty
          · omega
          · have hfive := hfive hempty
            omega
  split
  · exact ⟨hinv.congr rfl rfl rfl rfl rfl, rfl, hdata⟩
  · exact ⟨hinv, rfl, hdata⟩

/-! ## Rounds of the loop -/

/-- How the state machine comes to a stop, or back to its start. -/
inductive DrainCase (c : Cutter) (accept : Bool) (r : Drained) : Prop
  | stalled (hprogress : r.progress = .stalled) (hstate : r.cutter.state ≠ .initial) (hau : r.cutter.au = c.au)
      (hnotifying : r.cutter.state = .notifyingAuFound → c.au = .complete)
  | mismatch (hprogress : r.progress = .mismatch) (hau : c.au = .sizeMismatch) (hstate : r.cutter.state = .initial)
      (hsize : r.cutter.accumulatedSize = 0) (hfound : r.found = none)
  | found (hprogress : r.progress = .ready) (hau : c.au = .complete) (hstate : r.cutter.state = .initial)
      (hsize : r.cutter.accumulatedSize = 0) (hfound : r.found.isSome = true) (haccept : accept = true)
  | prepared (hprogress : r.progress = .ready) (hau : c.au = .complete) (hpreparing : c.state = .preparingForNextAu)
      (hstate : r.cutter.state = .initial) (hsize : r.cutter.accumulatedSize = 0) (hfound : r.found = none)
  | unfinished (hprogress : r.progress = .ready) (hau : ¬Ended c.au) (hstate : r.cutter.state = .initial)
      (hfound : r.found = none)

theorem notify_cases (accept : Bool) (hau : c.au ≠ .sizeMismatch) : DrainCase c accept (c.notify accept) := by
  unfold Cutter.notify
  by_cases hcomplete : c.au = .complete
  · rw [if_pos hcomplete]
    cases accept with
    | true =>
      rw [if_pos rfl]
      unfold Cutter.prepare
      rw [if_pos hcomplete]
      split
      · exact .stalled rfl nofun rfl nofun
      · exact .found rfl hcomplete rfl rfl rfl rfl
    | false =>
      exact .stalled rfl nofun rfl fun _ => hcomplete
  · rw [if_neg hcomplete]
    unfold Cutter.prepare
    rw [if_neg hcomplete]
    exact .unfinished rfl (fun h => h.elim hcomplete hau) rfl rfl

theorem pushed_cases {accept : Bool} {r : Drained} (h : c.pushed accept = .ok r) : DrainCase c accept r := by
  unfold Cutter.pushed at h
  split_ifs at h with hau
  · cases hpop : c.queue.popBack c.accumulatedSize with
    | error =>
      rw [hpop] at h
      cases h
    | ok =>
      rw [hpop] at h
      rw [← Except.ok.inj h]
      exact .mismatch rfl hau rfl rfl rfl
  · rw [← Except.ok.inj h]
    exact notify_cases accept hau

theorem drain_cases {accept : Bool} {r : Drained} (hstate : c.state ≠ .initial)
    (hnotifying : c.state = .notifyingAuFound → c.au = .complete)
    (hpreparing : c.state = .preparingForNextAu → c.au = .complete) (h : c.drain accept = .ok r) :
    DrainCase c accept r := by
  unfold Cutter.drain at h
  split at h
  next hinitial =>
    exact absurd hinitial hstate
  next hpushing =>
    split at h
    · exact pushed_cases h
    split at h
    · rw [← Except.ok.inj h]
      refine .stalled rfl hstate rfl fun hn => ?_
      rw [hpushing] at hn
      cases hn
    · -- the chunk has no part in what follows
      cases pushed_cases h with
      | stalled hprogress hs hau hn => exact .stalled hprogress hs hau hn
      | mismatch hprogress hau hs hsize hfound => exact .mismatch hprogress hau hs hsize hfound
      | found hprogress hau hs hsize hfound haccept => exact .found hprogress hau hs hsize hfound haccept
      | prepared hprogress hau hp hs hsize hfound => exact .prepared hprogress hau hp hs hsize hfound
      | unfinished hprogress hau hs hfound => exact .unfinished hprogress hau hs hfound
  next hn =>
    rw [← Except.ok.inj h]
    refine notify_cases accept ?_
    rw [hnotifying hn]
    decide
  next hp =>
    have hcomplete := hpreparing hp
    rw [← Except.ok.inj h]
    unfold Cutter.prepare
    rw [if_pos hcomplete]
    split
    · exact .stalled rfl nofun rfl nofun
    · exact .prepared rfl hcomplete hp rfl rfl rfl

theorem Tracked.drain (h : Tracked c found) (hstate : c.state ≠ .initial) (accept : Bool) :
    Meets (c.drain accept) (fun r => Tracked r.cutter (found ++ r.found.toList)) fun _ => False := by
  have ⟨q, hcutter, hq, hfound⟩ := h
  subst hcutter
  have hinv := inv_drain hq hstate accept
  cases hr : q.cutter.drain accept with
  | error =>
    rw [hr] at hinv
    exact absurd hinv.alive Bool.noConfusion
  | ok =>
    rw [hr] at hinv
    refine ⟨_, ?_, hinv, ?_⟩
    · unfold QueueState.drained
      dsimp only
      split <;> rfl
    unfold QueueState.drained
    dsimp only
    split
    next addr size hsome =>
      rw [hsome, map_append, hfound]
      rfl
    next hnone =>
      rw [hnone, toList_none, append_nil]
      exact hfound

def ElementaryStream.work (es : ElementaryStream) : Nat :=
  (es.pesPacketData.getD []).length + (if es.cutter.state = .initial ∧ es.streamChunk = [] then 0 else 1) +
    if es.cutter.state = .preparingForNextAu then 1 else 0

theorem work_initial (hstate : es.cutter.state = .initial) (hdata : es.pesPacketData = some data) :
    es.work ≤ data.length + 1 ∧ (es.streamChunk = [] → es.work = data.length) := by
  have hne : ¬es.cutter.state = .preparingForNextAu := by
    rw [hstate]
    decide
  unfold work
  rw [hdata, getD_some, if_neg hne]
  constructor
  · split <;> omega
  · intro hchunk
    rw [if_pos ⟨hstate, hchunk⟩]
    rfl

theorem ready_inv (h : StreamInv es found) (hstate : es.cutter.state ≠ .initial) {found' : List (Nat × Nat)}
    (hqueue : Tracked c found') (hs : c.state = .initial)
    (hsize : es.cutter.au = .complete → c.accumulatedSize = 0) (hau : es.cutter.au ≠ .sizeMismatch) (info : AuInfo) :
    StreamInv { es with cutter := c, info := info } found' := by
  refine .of_initial hs hqueue h.cache h.chunk fun ac3 data hac3 hdata hne => ?_
  by_cases hcomplete : es.cutter.au = .complete
  · have ⟨hfour, hleft⟩ := (h.audio ac3 data hac3 hdata).complete hstate hcomplete hne
    exact ⟨hfour, hleft.imp id fun hleft => ⟨hsize hcomplete, hleft⟩⟩
  · exact absurd (h.consumed hstate fun hended => hended.elim hcomplete hau) hne

theorem round_inv (h : StreamInv es found) (hdata : es.pesPacketData = some data)
    (hbusy : ¬(es.cutter.state = .initial ∧ es.streamChunk = [])) (accept : Bool) :
    Meets (es.round accept) (fun r => StreamInv r.stream (found ++ r.found.toList) ∧ r.stream.pesPacketData.isSome ∧
      (r.progress ≠ .stalled → (r.found.isSome ∧ accept = true ∧ r.stream.work ≤ es.work) ∨
        (r.found = none ∧ r.stream.work < es.work))) fun _ => False := by
  have hwork : data.length + 1 ≤ es.work ∧ (es.cutter.state = .preparingForNextAu → data.length + 2 ≤ es.work) := by
    unfold work
    rw [hdata, getD_some, if_neg hbusy]
    refine ⟨by omega, fun hp => ?_⟩
    split_ifs
    omega
  have hstart : Meets es.start (fun es' => StreamInv es' found ∧ es'.cutter.state ≠ .initial ∧
      es'.pesPacketData = some data ∧ (es'.cutter.state = .preparingForNextAu →
        es.cutter.state = .preparingForNextAu)) fun _ => False := by
    refine ite (fun hinitial => ?_) fun hne => ⟨h, hne, hdata, id⟩
    refine (parse_inv h hinitial (fun hchunk => hbusy ⟨hinitial, hchunk⟩) hdata).mono ?_
    intro es' ⟨hinv, hstate, hdata'⟩
    rw [hstate]
    exact ⟨hinv, by decide, hdata', nofun⟩
  refine hstart.bind fun es' _ ⟨hinv, hstate, hdata', hwas⟩ => ?_
  refine (hinv.queue.drain hstate accept).bind fun r hr hqueue => ?_
  have hpreparing : es'.cutter.state = .preparingForNextAu → es'.cutter.au = .complete := by
    have ⟨q, hcutter, hq, _⟩ := hinv.queue
    rw [← hcutter]
    exact fun hp => (hq.preparing hp).1
  have hready : r.cutter.state = .initial → ∀ info,
      work { es' with cutter := r.cutter, info := info } ≤ data.length + 1 ∧
        (es'.streamChunk = [] → work { es' with cutter := r.cutter, info := info } = data.length) :=
    fun hs info => work_initial hs hdata'
  unfold drained
  cases drain_cases hstate hinv.notifying hpreparing hr with
  | stalled hprogress hs hau hn =>
    rw [hprogress]
    refine ⟨⟨hqueue, hinv.cache, hinv.chunk, fun _ => hinv.packet hstate, ?_, ?_, ?_⟩, ?_, fun hne => absurd rfl hne⟩
    · intro _ hne
      refine hinv.consumed hstate ?_
      rw [← hau]
      exact hne
    · intro hnotify
      rw [hau]
      exact hn hnotify
    · intro ac3 data' hac3 hdata'
      have hroom := hinv.audio ac3 data' hac3 hdata'
      refine ⟨fun hinitial => absurd hinitial hs, fun _ hcomplete => hroom.complete hstate ?_,
        fun _ hm => hroom.mismatch hstate ?_⟩
      · rw [← hau]
        exact hcomplete
      · rw [← hau]
        exact hm
    · rw [hdata']
      rfl
  | mismatch hprogress hau hs hsize hfound =>
    have ⟨b, rest, hpacket⟩ := hinv.packet hstate
    rw [hprogress, hpacket]
    have hlen : data.length = rest.length + 1 := by
      rw [hdata'] at hpacket
      rw [some.inj hpacket, length_cons]
    refine ⟨.of_initial hs hqueue hinv.cache ?_ ?_, rfl, fun _ => ?_⟩
    · intro data' hsome
      exact Nat.le_of_eq (congrArg length (some.inj hsome))
    · intro ac3 data' hac3 hsome _
      have ⟨hfive, hleft⟩ := (hinv.audio ac3 data hac3 hdata').mismatch hstate hau
      have hrest : data'.length = rest.length := by rw [← some.inj hsome]
      refine ⟨?_, .inr ⟨hsize, ?_⟩⟩
      · show 4 ≤ rest.length
        omega
      · show es'.cache.length + 5 ≤ data'.length ∨ es'.cache = []
        rcases hleft with hsix | hempty
        · exact .inl (by omega)
        · exact .inr hempty
    · right
      refine ⟨hfound, ?_⟩
      have hle : work { es' with
          cutter := r.cutter
          pesPacketData := some rest
          streamChunk := rest } ≤ rest.length + 1 := (work_initial hs rfl).1
      dsimp only
      omega
  | found hprogress hau hs hsize hfound haccept =>
    rw [hprogress]
    refine ⟨ready_inv hinv hstate hqueue hs (fun _ => hsize) ?_ _, ?_, fun _ => .inl ⟨hfound, haccept, ?_⟩⟩
    · rw [hau]
      decide
    · exact isSome_of_eq_some hdata'
    · exact Nat.le_trans (hready hs _).1 hwork.1
  | prepared hprogress hau hp hs hsize hfound =>
    rw [hprogress]
    refine ⟨ready_inv hinv hstate hqueue hs (fun _ => hsize) ?_ _, ?_, fun _ => .inr ⟨hfound, ?_⟩⟩
    · rw [hau]
      decide
    · exact isSome_of_eq_some hdata'
    · exact Nat.lt_of_le_of_lt (hready hs _).1 (hwork.2 (hwas hp))
  | unfinished hprogress hau hs hfound =>
    rw [hprogress]
    refine ⟨ready_inv hinv hstate hqueue hs (fun hc => absurd (.inl hc) hau) (fun hm => hau (.inr hm)) _, ?_,
      fun _ => .inr ⟨hfound, ?_⟩⟩
    · exact isSome_of_eq_some hdata'
    · have hnil := hinv.consumed hstate hau
      exact Nat.lt_of_le_of_lt (Nat.le_of_eq ((hready hs _).2 hnil)) hwork.1

/-! ## Processing a packet -/

theorem processLoop_inv (n : Nat) {answers : List Bool} (hn : answers.length + es.work < n) (h : StreamInv es found)
    (hdata : es.pesPacketData = some data) :
    Meets (processLoop n answers es) (fun p => StreamInv p.stream (found ++ p.found) ∧
      (p.consumed = false → p.stream.pesPacketData.isSome = true)) fun _ => False := by
  induction n generalizing es answers found data with
  | zero => omega
  | succ n ih =>
    refine ite (fun hdone => ?_) fun hbusy => ?_
    · refine ok ⟨?_, nofun⟩
      rw [append_nil]
      exact .of_initial hdone.1 h.queue h.cache nofun nofun
    refine (round_inv h hdata hbusy _).bind fun r _ ⟨hinv, hsome, hless⟩ => ?_
    refine ite (fun _ => ok ⟨hinv, fun _ => hsome⟩) fun hgo => ?_
    have ⟨data', hdata'⟩ := isSome_iff_exists.mp hsome
    have hrounds : (if r.found.isSome then answers.tail else answers).length + r.stream.work < n := by
      rcases hless hgo with ⟨hfound, haccept, hle⟩ | ⟨hnone, hlt⟩
      · rw [if_pos hfound, length_tail]
        cases answers with
        | nil => cases haccept
        | cons =>
          rw [length_cons] at hn ⊢
          omega
      · rw [hnone, isSome_none, if_neg Bool.false_ne_true]
        omega
    refine (ih hrounds hinv hdata').bind fun p _ ⟨hp, hleft⟩ => ok ⟨?_, hleft⟩
    rw [← append_assoc]
    exact hp

theorem process_inv (h : StreamInv es found) (hdata : es.pesPacketData = some data) (answers : List Bool) :
    Meets (es.processPesPacketData answers) (fun p => StreamInv p.stream (found ++ p.found) ∧
      (p.consumed = false → p.stream.pesPacketData.isSome = true)) fun _ => False := by
  unfold processPesPacketData
  rw [if_pos (isSome_of_eq_some hdata)]
  refine processLoop_inv _ ?_ h hdata
  unfold rounds work
  split <;> split <;> omega

/-! ## Between packets -/

/-- Packets that a compressed audio stream can be handed. -/
def AudioPacket (kind : StreamKind) (data : List UInt8) : Prop :=
  ∀ ac3, kind = .audio ac3 → data = [] ∨ 9 ≤ data.length

theorem StreamInv.initial (h : StreamInv es found) (hnone : es.pesPacketData = none) : es.cutter.state = .initial := by
  by_contra hne
  have ⟨b, rest, hsome⟩ := h.packet hne
  rw [hnone] at hsome
  cases hsome

theorem setPesPacketData_inv (h : StreamInv es found) (hnone : es.pesPacketData = none)
    (hpacket : AudioPacket es.kind data) :
    Meets (es.setPesPacketData data) (fun es' => StreamInv es' found ∧ es'.pesPacketData = some data) fun _ => False := by
  have hinitial := h.initial hnone
  unfold setPesPacketData
  rw [if_pos (by rw [hnone]; rfl)]
  refine ⟨.of_initial hinitial h.queue h.cache ?_ ?_, rfl⟩
  · intro data' hsome
    exact Nat.le_of_eq (congrArg length (some.inj hsome))
  intro ac3 data' hac3 hsome hne
  have hdata' := some.inj hsome
  show 4 ≤ data.length ∧ (9 ≤ data'.length ∨ _)
  rw [← hdata']
  rcases hpacket ac3 hac3 with hnil | hnine
  · exact absurd hnil hne
  · exact ⟨by omega, .inl hnine⟩

theorem parseAudioStreamHeader_inv (mask : Nat) (data : List UInt8) (h : StreamInv es found) :
    Meets (es.parseAudioStreamHeader mask data)
      (fun r => StreamInv r.1 found ∧ r.1.pesPacketData = es.pesPacketData ∧ r.1.kind = es.kind) fun _ => False := by
  refine ite (fun _ => ite (fun _ => ⟨h, rfl, rfl⟩) fun hlen => ?_) fun _ => ⟨h, rfl, rfl⟩
  rw [readFromPtr_ok (by omega)]
  exact ⟨h.congr rfl rfl rfl rfl rfl, rfl, rfl⟩

theorem parseStreamHeader_inv (data : List UInt8) (pts : Bool) (h : StreamInv es found) :
    Meets (es.parseStreamHeader data pts)
      (fun r => StreamInv r.1 found ∧ r.1.pesPacketData = es.pesPacketData ∧ r.1.kind = es.kind) fun _ => False := by
  unfold parseStreamHeader
  split
  · exact ⟨h, rfl, rfl⟩
  · refine ite (fun _ => ⟨h, rfl, rfl⟩) fun _ => ?_
    exact parseAudioStreamHeader_inv 0x7ff data (h.congr rfl rfl rfl rfl rfl)
  · exact parseAudioStreamHeader_inv 0xffff data h
  · refine ite (fun _ => ite (fun _ => ⟨h, rfl, rfl⟩) fun hlen => ?_) fun _ => ⟨h, rfl, rfl⟩
    rw [readFromPtr_ok (by omega)]
    have hkeep : ∀ n, let es' := { es with auSizeUnk := n }
        StreamInv es' found ∧ es'.pesPacketData = es.pesPacketData ∧ es'.kind = es.kind :=
      fun n => ⟨h.congr rfl rfl rfl rfl rfl, rfl, rfl⟩
    exact hkeep _

theorem newStream_inv (kind : StreamKind) (size auMaxSize : BitVec 32) (buffer : Nat → UInt8) :
    StreamInv { kind := kind, cutter := {
      auMaxSize := effectiveAuMaxSize auMaxSize.toNat size.toNat
      queue := { size := size.toNat, buffer := buffer } } } [] := by
  refine .of_initial rfl ?_ (zero_le _) nofun nofun
  have hinit : (queueSystem size auMaxSize).init { cutter := {
      auMaxSize := effectiveAuMaxSize auMaxSize.toNat size.toNat
      queue := { size := size.toNat, buffer := buffer } } } := ⟨buffer, rfl⟩
  exact ⟨_, rfl, inv_of_init hinit, rfl⟩

theorem releaseAu_inv {addr size : Nat} (h : StreamInv es ((addr, size) :: found)) :
    Meets (es.releaseAu size) (fun es' => StreamInv es' found ∧ es'.pesPacketData = es.pesPacketData) fun _ => False := by
  have ⟨q, hcutter, hq, hfound⟩ := h.queue
  cases hlist : q.found with
  | nil =>
    rw [hlist] at hfound
    cases hfound
  | cons f =>
    rw [hlist, map_cons] at hfound
    have ⟨hf, hrest⟩ := cons.inj hfound
    have ⟨queue, hpop, hinv⟩ := inv_release hq hlist
    have hsize : f.size = size := congrArg Prod.snd hf
    rw [hcutter, hsize] at hpop
    unfold releaseAu
    rw [hpop]
    refine ⟨⟨⟨_, ?_, hinv, hrest⟩, h.cache, h.chunk, h.packet, h.consumed, h.notifying, ?_⟩, rfl⟩
    · rw [hcutter]
    · intro ac3 data hac3 hdata
      have hroom := h.audio ac3 data hac3 hdata
      exact { hroom with }

theorem discardAccessUnit_inv (h : StreamInv es found) (hnone : es.pesPacketData = none) :
    Meets es.discardAccessUnit (fun es' => StreamInv es' found ∧ es'.pesPacketData = none) fun _ => False := by
  have hinitial := h.initial hnone
  have ⟨q, hcutter, hq, hfound⟩ := h.queue
  rw [← hcutter] at hinitial
  have hchunk := hq.chunk (by rw [hinitial]; decide)
  have hacc := hq.accumulated_eq hchunk (by rw [hinitial]; decide)
  have hsize := hq.size
  have hback := hq.back
  have hcurrent := hq.current
  have hsub : sub32 es.cutter.accumulatedSize es.cutter.chunk.length = q.current.length := by
    rw [← hcutter, hacc, hchunk, length_nil]
    unfold sub32
    omega
  have hpop : es.cutter.queue.popBack q.current.length =
      .ok { q.cutter.queue with back := q.cutter.queue.back - q.current.length } := by
    rw [← hcutter]
    exact if_pos hcurrent
  unfold discardAccessUnit
  rw [hsub, hpop]
  refine ⟨.of_initial rfl ⟨_, ?_, inv_setAu (inv_mismatch hq) rfl .none, hfound⟩ (zero_le _) nofun nofun, rfl⟩
  rw [← hcutter]
  rfl

end Stream

end Armsx3.Cell.DmuxPamf
