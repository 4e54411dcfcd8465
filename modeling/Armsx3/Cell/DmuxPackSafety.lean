import Armsx3.Cell.DmuxCommands
import Armsx3.Cell.DmuxStreamSafety

/-!
# DmuxPackSafety — packs of any contents

What a well-formed pack is, with the lengths in it taken as numbers.  In the source they have eight and sixteen bits,
the time stamps are read without a check, and the parser of compressed audio streams needs four bytes.
-/

namespace Armsx3.Cell.DmuxPamf

open Fallible Demuxer Meets List Option Function Transition Bool Nat ElementaryStream System.Reachable

/-! ## Well-formed packs -/

section Format

variable (pack : List UInt8)

def StartCode (pos : Nat) : Prop := field pack pos 4 / 2 ^ 8 = packetStartCodePrefix

def headerEnd : Nat := 14 + field pack 13 1 % 8

def HasSystem : Prop := field pack (headerEnd pack) 4 = systemHeader

def systemEnd : Nat := headerEnd pack + (field pack (headerEnd pack + 4) 2 + 6)

/-- The start code behind the system header is looked for at a multiple of 0x10. -/
def systemNext : Nat := systemEnd pack - systemEnd pack % 16

def HasPrivate : Prop := HasSystem pack ∧ field pack (systemNext pack) 4 = privateStream2

def privateEnd : Nat := systemNext pack + (field pack (systemNext pack + 4) 2 + 6)

instance : Decidable (HasSystem pack) := inferInstanceAs (Decidable (_ = _))

instance : Decidable (HasPrivate pack) := inferInstanceAs (Decidable (_ ∧ _))

instance (pos : Nat) : Decidable (StartCode pack pos) := inferInstanceAs (Decidable (_ = _))

def packetStart : Nat :=
  if HasPrivate pack then privateEnd pack else if HasSystem pack then systemNext pack else headerEnd pack

/-- The headers before the PES packet end inside of the pack, with room for the header of the packet. -/
def Located : Prop :=
  (headerEnd pack + 9 ≤ pack.length ∧ StartCode pack (headerEnd pack)) ∧
    (HasSystem pack → systemEnd pack + 9 ≤ pack.length ∧ StartCode pack (systemNext pack)) ∧
    (HasPrivate pack → privateEnd pack + 9 ≤ pack.length)

instance : Decidable (Located pack) := inferInstanceAs (Decidable (_ ∧ _))

def packetLength : Nat := field pack (packetStart pack + 4) 2 + 6

def packetHeaderLength : Nat := field pack (packetStart pack + 8) 1 + 9

def packetData : List UInt8 :=
  (pack.drop (packetStart pack + packetHeaderLength pack)).take (packetLength pack - packetHeaderLength pack)

def packetKey : Option Key :=
  streamIdToTypeChannel (field pack (packetStart pack) 4) (field (packetData pack) 0 1)

/-- The PES packet ends inside of the pack, and its header inside of the packet. -/
def PacketFits : Prop :=
  StartCode pack (packetStart pack) ∧ packetStart pack + packetLength pack ≤ pack.length ∧
    packetHeaderLength pack < packetLength pack

instance : Decidable (PacketFits pack) := inferInstanceAs (Decidable (_ ∧ _))

def ptsDtsFlag : Nat := field pack (packetStart pack + 7) 1

def TimestampsFit : Prop :=
  (ptsDtsFlag pack ≥ 0x80 → packetStart pack + 14 ≤ pack.length) ∧
    (ptsDtsFlag pack &&& 0x40 ≠ 0 → packetStart pack + 19 ≤ pack.length)

instance : Decidable (TimestampsFit pack) := inferInstanceAs (Decidable (_ ∧ _))

end Format

/-- The size of the header of an LPCM or compressed audio stream; the extra part is only there in the first packet. -/
def audioHeaderSize (mask auSizeUnk : Nat) (data : List UInt8) : Nat :=
  if auSizeUnk = 0 then if data.length < 4 then invalidHeader else (field data 0 4 &&& mask) + 4
  else 4

def streamHeaderSize (kind : StreamKind) (auSizeUnk : Nat) (data : List UInt8) (pts : Bool) : Nat :=
  match kind with
  | .video _ => 0
  | .lpcm => if data.length < 17 then invalidHeader else audioHeaderSize 0x7ff auSizeUnk data
  | .audio _ => audioHeaderSize 0xffff auSizeUnk data
  | .userData => if pts then if data.length < 6 then invalidHeader else 10 else 2

/-- The header that the elementary stream finds in a packet. -/
def ElementaryStream.headerSize (es : ElementaryStream) (pack : List UInt8) : Nat :=
  streamHeaderSize es.kind es.auSizeUnk (packetData pack) (ptsDtsFlag pack ≥ 0x80)

def WellFormed (d : Demuxer) (pack : List UInt8) : Prop :=
  Located pack ∧ PacketFits pack ∧ ∃ key, packetKey pack = some key ∧
    ∀ es, d.streams key = some es → TimestampsFit pack ∧ es.headerSize pack ≤ (packetData pack).length

/-- No length is too large for the variable that it is read into, the time stamps for an enabled stream are inside of
the pack, and a compressed audio stream gets no or enough data. -/
def Sound (d : Demuxer) (pack : List UInt8) : Prop :=
  (HasPrivate pack → field pack (systemNext pack + 4) 2 + 6 < 2 ^ 16) ∧
    (Located pack → packetLength pack < 2 ^ 16 ∧ packetHeaderLength pack < 2 ^ 8) ∧
    (Located pack → PacketFits pack → ∀ key ∈ packetKey pack, ∀ es ∈ d.streams key,
      TimestampsFit pack ∧ AudioPacket es.kind ((packetData pack).drop (es.headerSize pack)))

instance (kind : StreamKind) (data : List UInt8) : Decidable (AudioPacket kind data) :=
  inferInstanceAs (Decidable (∀ ac3, kind = .audio ac3 → data = [] ∨ 9 ≤ data.length))

instance (d : Demuxer) (pack : List UInt8) : Decidable (Sound d pack) := inferInstanceAs (Decidable (_ ∧ _))

/-! ## Reading the headers -/

section Headers

variable {pack : List UInt8}

theorem skipPrivateStream2_spec (h : systemNext pack + 9 ≤ pack.length) (hprivate : HasPrivate pack)
    (hlen : field pack (systemNext pack + 4) 2 + 6 < 2 ^ 16) :
    Meets (skipPrivateStream2 pack (systemNext pack)) (fun r =>
      (r.offset = none → ¬privateEnd pack + 9 ≤ pack.length) ∧
        ∀ offset, r.offset = some offset → privateEnd pack + 9 ≤ pack.length ∧ offset = packetStart pack)
      fun _ => False := by
  unfold skipPrivateStream2
  rw [readFromPtr_ok (by omega), readFromPtr_ok (by omega)]
  have hmod := mod_eq_of_lt hlen
  have hstart : packetStart pack = privateEnd pack := if_pos hprivate
  refine ite (fun hlarge => ?_) fun hfits => ?_
  · refine ⟨fun _ => ?_, nofun⟩
    unfold privateEnd
    omega
  · refine ⟨nofun, fun offset hoffset => ?_⟩
    rw [hmod] at hfits hoffset
    rw [hstart, ← some.inj hoffset]
    unfold privateEnd
    exact ⟨by omega, rfl⟩

theorem skipSystemHeader_spec (h : headerEnd pack + 9 ≤ pack.length) (hsystem : HasSystem pack)
    (hlen : HasPrivate pack → field pack (systemNext pack + 4) 2 + 6 < 2 ^ 16) :
    Meets (skipSystemHeader pack (headerEnd pack)) (fun r =>
      (r.offset = none → ¬((HasSystem pack → systemEnd pack + 9 ≤ pack.length ∧ StartCode pack (systemNext pack)) ∧
        (HasPrivate pack → privateEnd pack + 9 ≤ pack.length))) ∧
      ∀ offset, r.offset = some offset → (systemEnd pack + 9 ≤ pack.length ∧ StartCode pack (systemNext pack)) ∧
          (HasPrivate pack → privateEnd pack + 9 ≤ pack.length) ∧ offset = packetStart pack) fun _ => False := by
  unfold skipSystemHeader
  rw [readFromPtr_ok (by omega)]
  refine ite (fun hlarge => ⟨fun _ hall => ?_, nofun⟩) fun hfits => ?_
  · have hend := (hall.1 hsystem).1
    unfold systemEnd at hend
    omega
  have hend : systemEnd pack + 9 ≤ pack.length := by
    unfold systemEnd
    omega
  have hnext : systemNext pack + 9 ≤ pack.length := by
    unfold systemNext
    omega
  rw [readFromPtr_ok (by omega)]
  refine ite (fun hcode => ⟨fun _ hall => hcode (hall.1 hsystem).2, nofun⟩) fun hcode => ?_
  have hcode := not_not.mp hcode
  refine ite (fun hprivate => ?_) fun hprivate => ?_
  · have hhas : HasPrivate pack := ⟨hsystem, hprivate⟩
    refine (skipPrivateStream2_spec hnext hhas (hlen hhas)).mono fun r ⟨hnone, hsome⟩ => ⟨?_, ?_⟩
    · exact fun hoffset hall => hnone hoffset (hall.2 hhas)
    · intro offset hoffset
      have ⟨hle, heq⟩ := hsome offset hoffset
      exact ⟨⟨hend, hcode⟩, fun _ => hle, heq⟩
  · have hnot : ¬HasPrivate pack := fun hhas => hprivate hhas.2
    have hstart : packetStart pack = systemNext pack := by
      unfold packetStart
      rw [if_neg hnot, if_pos hsystem]
    refine ⟨nofun, fun offset hoffset => ⟨⟨hend, hcode⟩, fun hhas => absurd hhas hnot, ?_⟩⟩
    rw [hstart]
    exact (some.inj hoffset).symm

theorem skipHeaders_spec (h : 14 ≤ pack.length)
    (hlen : HasPrivate pack → field pack (systemNext pack + 4) 2 + 6 < 2 ^ 16) :
    Meets (skipHeaders pack) (fun r => (r.offset = none → ¬Located pack) ∧
      ∀ offset, r.offset = some offset → Located pack ∧ offset = packetStart pack) fun _ => False := by
  unfold skipHeaders
  rw [readFromPtr_ok (by omega)]
  show Meets (if headerEnd pack + 9 > pack.length then _ else _) _ _
  refine ite (fun hlarge => ⟨fun _ hall => ?_, nofun⟩) fun hfits => ?_
  · have hle := hall.1.1
    omega
  have hend : headerEnd pack + 9 ≤ pack.length := by omega
  show Meets (readFromPtr pack (headerEnd pack) 4 >>= _) _ _
  rw [readFromPtr_ok (by omega)]
  refine ite (fun hcode => ⟨fun _ hall => hcode hall.1.2, nofun⟩) fun hcode => ?_
  have hcode := not_not.mp hcode
  refine ite (fun hsystem => ?_) fun hsystem => ?_
  · refine (skipSystemHeader_spec hend hsystem hlen).mono fun r ⟨hnone, hsome⟩ => ⟨?_, ?_⟩
    · exact fun hoffset hall => hnone hoffset hall.2
    · intro offset hoffset
      have ⟨hsys, hpriv, heq⟩ := hsome offset hoffset
      exact ⟨⟨⟨hend, hcode⟩, fun _ => hsys, hpriv⟩, heq⟩
  · have hnot : ¬HasPrivate pack := fun hhas => hsystem hhas.1
    have hstart : packetStart pack = headerEnd pack := by
      unfold packetStart
      rw [if_neg hnot]
      exact if_neg hsystem
    refine ⟨nofun, fun offset hoffset =>
      ⟨⟨⟨hend, hcode⟩, fun hhas => absurd hhas hsystem, fun hhas => absurd hhas hnot⟩, ?_⟩⟩
    rw [hstart]
    exact (some.inj hoffset).symm

theorem Located.start_le (h : Located pack) : packetStart pack + 9 ≤ pack.length := by
  unfold packetStart
  split
  next hprivate =>
    exact h.2.2 hprivate
  split
  next hsystem =>
    have hle := (h.2.1 hsystem).1
    unfold systemNext
    omega
  · exact h.1.1

theorem length_packetData (h : PacketFits pack) :
    (packetData pack).length = packetLength pack - packetHeaderLength pack := by
  have hlen := h.2.1
  unfold packetData
  rw [length_take, length_drop]
  omega

theorem parsePesPacket_spec (h : Located pack) (hlen : packetLength pack < 2 ^ 16)
    (hheader : packetHeaderLength pack < 2 ^ 8) :
    Meets (parsePesPacket pack (packetStart pack)) (fun r =>
      (r = none → PacketFits pack → packetKey pack = none) ∧
      ∀ packet, r = some packet → PacketFits pack ∧ packetKey pack = some packet.key ∧ packet.data = packetData pack)
      fun _ => False := by
  have hroom := h.start_le
  have hmod : (field pack (packetStart pack + 4) 2 + 6) % 2 ^ 16 = packetLength pack := mod_eq_of_lt hlen
  have hmod' : (field pack (packetStart pack + 8) 1 + 9) % 2 ^ 8 = packetHeaderLength pack := mod_eq_of_lt hheader
  unfold parsePesPacket
  rw [readFromPtr_ok (by omega), readFromPtr_ok (by omega), readFromPtr_ok (by omega)]
  refine ite (fun hcode => ⟨fun _ hall => absurd hall.1 hcode, nofun⟩) fun hcode => ?_
  have hcode := not_not.mp hcode
  show Meets (if _ ∨ _ then _ else _) _ _
  rw [hmod, hmod']
  refine ite (fun hlarge => ⟨fun _ hall => ?_, nofun⟩) fun hfits => ?_
  · have hle := hall.2.1
    have hlt := hall.2.2
    omega
  have hpacket : PacketFits pack := ⟨hcode, by omega, by omega⟩
  have hone : 0 + 1 ≤ (packetData pack).length := by
    rw [length_packetData hpacket]
    omega
  show Meets (readFromPtr (packetData pack) 0 1 >>= _) _ _
  rw [readFromPtr_ok hone]
  refine ⟨fun hnone _ => ?_, fun packet hsome => ?_⟩
  · exact map_eq_none_iff.mp hnone
  · have ⟨key, hkey, hpk⟩ := map_eq_some_iff.mp hsome
    rw [← hpk]
    exact ⟨hpacket, hkey, rfl⟩

end Headers

/-! ## Handing the packet over -/

section Packet

variable {pack : List UInt8} {es : ElementaryStream} {found : List (Nat × Nat)}

theorem readTimestamp_ok {pos : Nat} (h : pos + 5 ≤ pack.length) :
    Meets (readTimestamp pack pos) (fun _ => True) fun _ => False := by
  unfold readTimestamp
  rw [readFromPtr_ok (by omega), readFromPtr_ok (by omega), readFromPtr_ok (by omega)]
  trivial

theorem parseAudioStreamHeader_size (mask : Nat) (data : List UInt8) :
    Meets (es.parseAudioStreamHeader mask data) (fun r => r.2 = audioHeaderSize mask es.auSizeUnk data)
      fun _ => False := by
  unfold parseAudioStreamHeader audioHeaderSize
  by_cases hzero : es.auSizeUnk = 0
  · rw [if_pos hzero, if_pos hzero]
    by_cases hshort : data.length < 4
    · rw [if_pos hshort, if_pos hshort]
      rfl
    · rw [if_neg hshort, if_neg hshort, readFromPtr_ok (by omega)]
      rfl
  · rw [if_neg hzero, if_neg hzero]
    rfl

theorem parseStreamHeader_size (es : ElementaryStream) (data : List UInt8) (pts : Bool) :
    Meets (es.parseStreamHeader data pts) (fun r => r.2 = streamHeaderSize es.kind es.auSizeUnk data pts)
      fun _ => False := by
  unfold parseStreamHeader streamHeaderSize
  cases hkind : es.kind with
  | video => rfl
  | lpcm =>
    by_cases hshort : data.length < 17
    · rw [if_pos hshort]
      exact (if_pos hshort).symm
    · rw [if_neg hshort]
      refine (parseAudioStreamHeader_size 0x7ff data).mono fun r hr => ?_
      exact hr.trans (if_neg hshort).symm
  | audio => exact parseAudioStreamHeader_size 0xffff data
  | userData =>
    cases pts with
    | false => rfl
    | true =>
      by_cases hshort : data.length < 6
      · rw [if_pos hshort]
        exact (if_pos hshort).symm
      · rw [if_neg hshort, readFromPtr_ok (by omega)]
        exact (if_neg hshort).symm

theorem handPacket_spec (hloc : Located pack) (htime : TimestampsFit pack) (h : StreamInv es found)
    (hnone : es.pesPacketData = none) (haudio : AudioPacket es.kind ((packetData pack).drop (es.headerSize pack))) :
    Meets (handPacket es pack (packetStart pack) (packetData pack)) (fun r => StreamInv r.1 found ∧
      (r.2 = true → es.headerSize pack ≤ (packetData pack).length ∧ r.1.pesPacketData.isSome = true) ∧
      (r.2 = false → ¬es.headerSize pack ≤ (packetData pack).length)) fun _ => False := by
  have hroom := hloc.start_le
  have hpts : Meets (readOptionalTimestamp (ptsDtsFlag pack ≥ 0x80) pack (packetStart pack + 9) es.pts) (fun _ => True)
      fun _ => False := by
    refine ite (fun hflag => readTimestamp_ok ?_) fun _ => trivial
    exact htime.1 (of_decide_eq_true hflag)
  have hdts : Meets (readOptionalTimestamp (ptsDtsFlag pack &&& 0x40 ≠ 0) pack (packetStart pack + 14) es.dts)
      (fun _ => True) fun _ => False := by
    refine ite (fun hflag => readTimestamp_ok ?_) fun _ => trivial
    exact htime.2 (of_decide_eq_true hflag)
  unfold handPacket
  rw [readFromPtr_ok (by omega)]
  refine hpts.bind fun pts _ _ => hdts.bind fun dts _ _ => ?_
  have hinv : StreamInv { es with pts := pts, dts := dts } found := h.congr rfl rfl rfl rfl rfl
  refine (parseStreamHeader_inv (packetData pack) (ptsDtsFlag pack ≥ 0x80) hinv).bind
    fun header hheader ⟨hkeep, hpacket, hkind⟩ => ?_
  have hmeets := parseStreamHeader_size { es with pts := pts, dts := dts } (packetData pack) (ptsDtsFlag pack ≥ 0x80)
  have hsize : header.2 = es.headerSize pack := hmeets.value hheader
  refine ite (fun hlarge => ok ⟨hkeep, nofun, fun _ => ?_⟩) fun hfits => ?_
  · rw [← hsize]
    omega
  have hdata : AudioPacket header.1.kind ((packetData pack).drop header.2) := by
    rw [hkind, hsize]
    exact haudio
  refine (setPesPacketData_inv hkeep (hpacket.trans hnone) hdata).bind fun es' _ ⟨hes', hsome⟩ => ?_
  refine ok ⟨hes', fun _ => ⟨?_, isSome_of_eq_some hsome⟩, nofun⟩
  omega

end Packet

/-! ## The demuxer -/

section Demuxer

variable {d : Demuxer} {found : Key → List (Nat × Nat)} {key : Key} {es : ElementaryStream} {pack : List UInt8}

/-- The streams are in order, with the access units that each of them has and that were not released. -/
def Streams (d : Demuxer) (found : Key → List (Nat × Nat)) : Prop :=
  ∀ key es, d.streams key = some es → StreamInv es (found key)

theorem Streams.update {more : List (Nat × Nat)} (h : Streams d found) (hes : StreamInv es more) :
    Streams (d.set key (some es)) (update found key more) := by
  intro other es' hes'
  by_cases hkey : other = key
  · rw [hkey, streams_set_self] at hes'
    rw [hkey, update_self, ← some.inj hes']
    exact hes
  · rw [streams_set_of_ne d hkey] at hes'
    rw [update_of_ne hkey]
    exact h other es' hes'

theorem Streams.set (h : Streams d found) (hes : StreamInv es (found key)) : Streams (d.set key (some es)) found := by
  have hset : Streams (d.set key (some es)) (Function.update found key (found key)) := h.update hes
  rw [update_eq_self] at hset
  exact hset

theorem forall_streams_set {P : ElementaryStream → Prop} (h : P es) :
    ∀ es', (d.set key (some es)).streams key = some es' → P es' := by
  intro es' hes'
  rw [streams_set_self] at hes'
  cases hes'
  exact h

def Demuxer.current (d : Demuxer) : Option Key := d.packEsTypeIdx.map fun type => (type, d.packEsChannel)

def addFound (found : Key → List (Nat × Nat)) (current : Option Key) (more : List (Nat × Nat)) :
    Key → List (Nat × Nat) :=
  fun key => if current = some key then found key ++ more else found key

theorem addFound_nil (current : Option Key) : addFound found current [] = found := by
  funext key
  unfold addFound
  rw [append_nil, ite_self]

theorem addFound_some (more : List (Nat × Nat)) :
    addFound found (some key) more = update found key (found key ++ more) := by
  funext other
  unfold addFound
  rw [update_apply]
  by_cases hkey : other = key
  · rw [hkey, if_pos rfl, if_pos rfl]
  · rw [if_neg hkey, if_neg fun heq => hkey (some.inj heq).symm]

structure DemuxInv (d : Demuxer) (found : Key → List (Nat × Nat)) : Prop where
  streams : Streams d found
  current : d.state = .elementaryStream → ∃ key, d.current = some key ∧
    ∀ es, d.streams key = some es → es.pesPacketData.isSome = true
  raw : d.rawEs = true → d.packEsTypeIdx.isSome = true

theorem Idle.packet_none (h : Idle d) (hes : d.streams key = some es) : es.pesPacketData = none := by
  have hpending := h key
  rw [pending_of_streams hes] at hpending
  exact not_isSome_iff_eq_none.mp (eq_false_iff.mp hpending)

theorem processStream_inv (found : Key → List (Nat × Nat)) (h : DemuxInv d found)
    (hstate : d.state = .elementaryStream) (answers : List Bool) :
    Meets (d.processStream answers) (fun r => r.returns = true ∧
      DemuxInv r.demuxer (addFound found r.demuxer.current r.found)) fun _ => False := by
  have ⟨key, hcurrent, hpacket⟩ := h.current hstate
  have ⟨type, htype, hkey⟩ := map_eq_some_iff.mp hcurrent
  unfold processStream
  rw [htype]
  dsimp only
  rw [hkey]
  cases hes : d.streams key with
  | none =>
    refine ok ⟨rfl, ?_⟩
    rw [addFound_nil]
    exact ⟨h.streams, nofun, fun _ => rfl⟩
  | some es =>
    have ⟨data, hdata⟩ := isSome_iff_exists.mp (hpacket es hes)
    refine (process_inv (h.streams key es hes) hdata answers).bind fun p _ ⟨hp, hleft⟩ => ok ⟨rfl, ?_⟩
    -- the access units of the other streams are as they were
    have hmore : Streams (d.set key (some p.stream)) (addFound found (some key) p.found) := by
      rw [addFound_some]
      exact h.streams.update hp
    by_cases hconsumed : p.consumed = true
    · rw [if_pos hconsumed]
      show DemuxInv { d.set key (some p.stream) with state := .initial } (addFound found d.current p.found)
      rw [hcurrent]
      exact ⟨hmore, nofun, h.raw⟩
    · rw [if_neg hconsumed]
      show DemuxInv (d.set key (some p.stream)) (addFound found d.current p.found)
      rw [hcurrent]
      exact ⟨hmore, fun _ => ⟨key, hcurrent, forall_streams_set (hleft (eq_false_iff.mpr hconsumed))⟩, h.raw⟩

theorem streams_setRap (channel : Option (Fin 16)) (key : Key) : ∃ f : ElementaryStream → Bool,
      (d.setRap channel).streams key = (d.streams key).map fun es => { es with rap := f es } := by
  have hsame : ∃ f : ElementaryStream → Bool, d.streams key = (d.streams key).map fun es => { es with rap := f es } :=
    ⟨(·.rap), (map_id_apply).symm⟩
  unfold setRap
  split
  · exact hsame
  rename_i channel
  split
  · exact hsame
  rename_i es hes
  by_cases hkey : key = (.video, channel)
  · refine ⟨fun _ => true, ?_⟩
    rw [hkey, streams_set_self, hes]
    rfl
  · rw [streams_set_of_ne d hkey]
    exact hsame

theorem Streams.setRap (h : Streams d found) (channel : Option (Fin 16)) : Streams (d.setRap channel) found := by
  intro key es hes
  have ⟨f, hf⟩ := streams_setRap (d := d) channel key
  rw [hf] at hes
  have ⟨es0, hes0, heq⟩ := map_eq_some_iff.mp hes
  rw [← heq]
  exact (h key es0 hes0).congr rfl rfl rfl rfl rfl

theorem processPack_inv (found : Key → List (Nat × Nat)) (h : DemuxInv d found) (hidle : Idle d)
    (hstate : d.state = .initial) (hlen : 14 ≤ pack.length) (hsound : Sound d pack) (answers : List Bool) :
    Meets (d.processPack pack answers) (fun r => (r.returns = true ↔ WellFormed d pack) ∧
      DemuxInv r.demuxer (addFound found r.demuxer.current r.found)) fun _ => False := by
  refine (skipHeaders_spec hlen hsound.1).bind fun headers _ ⟨hnone, hsome⟩ => ?_
  have ⟨streams, hset, hkeep⟩ := setRap_eq (d := d) headers.rapChannel
  have hidle := hkeep hidle
  have hstreams := h.streams.setRap headers.rapChannel
  have hrap := streams_setRap (d := d) headers.rapChannel
  rw [hset] at hidle hstreams hrap ⊢
  have hfail : ∀ d' : Demuxer, Streams d' found → d'.state = .initial → d'.rawEs = d.rawEs →
      (d.packEsTypeIdx.isSome = true → d'.packEsTypeIdx.isSome = true) → DemuxInv d' (addFound found d'.current []) := by
    intro d' hd' hinitial hraw htype
    rw [addFound_nil]
    refine ⟨hd', fun helem => ?_, fun hd => htype (h.raw (hraw ▸ hd))⟩
    rw [hinitial] at helem
    cases helem
  cases hoffset : headers.offset with
  | none =>
    refine ok ⟨⟨nofun, fun hwell => absurd hwell.1 (hnone hoffset)⟩, ?_⟩
    exact hfail _ hstreams hstate rfl id
  | some offset =>
    have ⟨hloc, hstart⟩ := hsome offset hoffset
    have ⟨hlength, hheader⟩ := hsound.2.1 hloc
    rw [hstart]
    refine (parsePesPacket_spec hloc hlength hheader).bind fun packet? _ ⟨hpnone, hpsome⟩ => ?_
    cases packet? with
    | none =>
      refine ok ⟨⟨nofun, fun ⟨_, hfits, key, hkey, _⟩ => ?_⟩, hfail _ hstreams hstate rfl id⟩
      rw [hpnone rfl hfits] at hkey
      cases hkey
    | some packet =>
      have ⟨hfits, hkey, hdata⟩ := hpsome packet rfl
      have ⟨f, hf⟩ := hrap packet.key
      dsimp only at hf ⊢
      cases hes0 : d.streams packet.key with
      | none =>
        rw [hes0, map_none] at hf
        rw [hf]
        refine (processStream_inv found ⟨?_, fun _ => ⟨packet.key, rfl, ?_⟩, fun _ => rfl⟩ rfl answers).mono ?_
        · exact hstreams
        · intro es hes
          have hes : streams packet.key = some es := hes
          rw [hf] at hes
          cases hes
        · intro r ⟨hreturns, hr⟩
          refine ⟨⟨fun _ => ⟨hloc, hfits, packet.key, hkey, fun es hes => ?_⟩, fun _ => hreturns⟩, hr⟩
          rw [hes0] at hes
          cases hes
      | some es0 =>
        rw [hes0, map_some] at hf
        rw [hf]
        have ⟨htime, haudio⟩ := hsound.2.2 hloc hfits packet.key hkey es0 hes0
        have hinv := hstreams packet.key _ hf
        rw [hdata]
        refine (handPacket_spec hloc htime hinv (hidle.packet_none hf) haudio).bind
          fun handed _ ⟨hhanded, htrue, hfalse⟩ => ?_
        have hset := hstreams.set hhanded
        refine ite (fun hvalid => ?_) fun hinvalid => ok ⟨⟨nofun, fun hwell => ?_⟩, ?_⟩
        · have ⟨hsize, hpacket⟩ := htrue hvalid
          refine (processStream_inv found ⟨?_, fun _ => ⟨packet.key, rfl, ?_⟩, fun _ => rfl⟩ rfl answers).mono ?_
          · exact hset
          · exact forall_streams_set hpacket
          · intro r ⟨hreturns, hr⟩
            refine ⟨⟨fun _ => ⟨hloc, hfits, packet.key, hkey, fun es hes => ⟨htime, ?_⟩⟩, fun _ => hreturns⟩, hr⟩
            rw [hes0] at hes
            cases hes
            exact hsize
        · have ⟨_, _, key, hkey', hwell⟩ := hwell
          rw [hkey] at hkey'
          rw [← some.inj hkey'] at hwell
          exact absurd (hwell es0 hes0).2 (hfalse (eq_false_iff.mpr hinvalid))
        · exact hfail _ hset hstate rfl fun _ => rfl

theorem processRaw_inv (found : Key → List (Nat × Nat)) (h : DemuxInv d found) (hidle : Idle d)
    (hraw : d.rawEs = true) (hchannel : d.packEsChannel = 0)
    (hlen : 14 ≤ pack.length) :
    Meets (d.processRaw pack) (fun r => DemuxInv r.demuxer (addFound found r.demuxer.current r.found))
      fun _ => False := by
  have ⟨type, htype⟩ := isSome_iff_exists.mp (h.raw hraw)
  have hcurrent : d.current = some (type, 0) := by
    unfold Demuxer.current
    rw [htype, hchannel]
    rfl
  unfold processRaw
  rw [htype]
  dsimp only
  cases hes : d.streams (type, 0) with
  | none =>
    refine ok ?_
    rw [addFound_nil]
    refine ⟨h.streams, fun _ => ⟨(type, 0), congrArg (fun channel => some (type, channel)) hchannel, ?_⟩, fun _ => rfl⟩
    intro es hes'
    have hsame := hes'
    rw [hes] at hsame
    cases hsame
  | some es =>
    refine (setPesPacketData_inv (h.streams _ es hes) (hidle.packet_none hes) fun _ _ => Or.inr ?_).bind ?_
    · omega
    · intro es' _ ⟨hes', hsome⟩
      refine ok ?_
      rw [addFound_nil]
      exact ⟨h.streams.set hes', fun _ => ⟨(type, 0), hcurrent, forall_streams_set (hsome ▸ rfl)⟩, h.raw⟩

/-- A section that is parsed has a whole header. -/
def Section.Filled : Section → Prop
  | .raw pack _ | .pack pack _ => 14 ≤ pack.length
  | _ => True

theorem nextSection_spec (rawEs : Bool) (n : Nat) {stream : List UInt8} (hn : stream.length < n) :
    Meets (nextSection rawEs n stream) Section.Filled fun _ => False := by
  induction n generalizing stream with
  | zero => omega
  | succ n ih =>
    refine ite (fun _ => ok trivial) fun hlen => ?_
    have htake : 14 ≤ (stream.take packSize).length := by
      rw [length_take, packSize]
      omega
    refine ite (fun _ => ok htake) fun _ => ?_
    rw [readFromPtr_ok (by omega)]
    refine ite (fun _ => ok htake) fun _ => ite (fun _ => ok trivial) fun _ => ih ?_
    rw [length_drop, packSize]
    omega

def Section.pack? : Section → Option (List UInt8)
  | .pack pack _ => some pack
  | _ => none

def Demuxer.nextPack (d : Demuxer) : Option (List UInt8) :=
  match d.stream, d.state with
  | some stream, .initial =>
    match nextSection d.rawEs (stream.length + 1) stream with
    | .ok sec => sec.pack?
    | .error _ => none
  | _, _ => none

theorem processNextPack_inv (h : DemuxInv d found) (hpaired : Paired d)
    (hsound : ∀ pack ∈ d.nextPack, Sound d pack) (answers : List Bool) :
    Meets (d.processNextPack answers) (fun r => (∀ pack ∈ d.nextPack, (r.returns = true ↔ WellFormed d pack)) ∧
      DemuxInv r.demuxer (addFound found r.demuxer.current r.found)) fun _ => False := by
  unfold Demuxer.processNextPack
  cases hstream : d.stream with
  | none =>
    have hnone : d.nextPack = none := by
      unfold nextPack
      rw [hstream]
    refine ok ⟨fun pack hpack => ?_, ?_⟩
    · rw [hnone] at hpack
      cases hpack
    · rw [addFound_nil]
      exact { h with }
  | some =>
    have hnext : d.state ≠ .initial → d.nextPack = none := by
      intro hstate
      unfold nextPack
      rw [hstream]
      cases hd : d.state with
      | initial => exact absurd hd hstate
      | elementaryStream => rfl
      | progEnd => rfl
    cases hstate : d.state with
    | initial =>
      have hidle := hpaired.idle (by rw [hstate]; decide)
      refine (nextSection_spec d.rawEs _ (lt_succ_self _)).bind fun sec hsec hlen => ?_
      have ⟨hraw, _⟩ := (nextSection_other d.rawEs _).value hsec
      have hpack : d.nextPack = sec.pack? := by
        unfold nextPack
        rw [hstream, hstate]
        dsimp only
        rw [hsec]
      cases sec with
      | done =>
        rw [hpack]
        refine ok ⟨nofun, ?_⟩
        rw [addFound_nil]
        exact { h with }
      | raw pack rest =>
        rw [hpack]
        refine (processRaw_inv found ?_ ?_ ?_ ?_ hlen).mono fun r hr => ⟨nofun, hr⟩
        · exact { h with }
        · exact hidle
        · exact hraw pack rest rfl
        · exact hpaired.raw (hraw pack rest rfl)
      | progEnd =>
        rw [hpack]
        refine ok ⟨nofun, ?_⟩
        rw [addFound_nil]
        refine ⟨h.streams, fun helem => ?_, h.raw⟩
        rw [hstate] at helem
        split at helem
        · cases helem
        · cases helem
      | pack pack =>
        rw [hpack] at hsound ⊢
        refine (processPack_inv found ?_ ?_ ?_ hlen ?_ answers).mono ?_
        · exact { h with }
        · exact hidle
        · exact hstate
        · exact hsound pack rfl
        · intro r ⟨hreturns, hr⟩
          refine ⟨fun pack' hpack' => ?_, hr⟩
          cases hpack'
          exact hreturns
    | elementaryStream =>
      rw [hnext (by rw [hstate]; decide)]
      exact (processStream_inv found h hstate answers).mono fun r ⟨_, hr⟩ => ⟨nofun, hr⟩
    | progEnd =>
      rw [hnext (by rw [hstate]; decide)]
      refine ok ⟨nofun, ?_⟩
      rw [addFound_nil]
      split
      · exact ⟨h.streams, nofun, h.raw⟩
      · exact h

/-! ## Commands between the packs -/

theorem enableEs_inv (h : DemuxInv d fun _ => []) (hstate : d.state = .initial) (a : EnableEs) :
    DemuxInv (d.enableEs a) fun _ => [] := by
  unfold enableEs
  split
  · exact h
  rename_i key hkey
  split
  · exact h
  refine ⟨Streams.set h.streams ?_, fun helem => ?_, fun _ => rfl⟩
  · exact newStream_inv (key.1.kind a.isAvc) a.bufferSize a.auMaxSize a.buffer
  · have helem : d.state = .elementaryStream := helem
    rw [hstate] at helem
    cases helem

theorem discardAccessUnits_inv (h : Streams d found) (hidle : Idle d) :
    Meets d.discardAccessUnits (fun d' => Streams d' found ∧ d'.rawEs = d.rawEs ∧ d'.packEsTypeIdx = d.packEsTypeIdx)
      fun _ => False := by
  have hfold : Meets d.discardAccessUnits (fun d' => Idle d' ∧ Streams d' found ∧ d'.rawEs = d.rawEs ∧
      d'.packEsTypeIdx = d.packEsTypeIdx) fun _ => False := by
    refine foldlM (R := fun (_ : List Key) (d' : Demuxer) => Idle d' ∧ Streams d' found ∧ d'.rawEs = d.rawEs ∧
      d'.packEsTypeIdx = d.packEsTypeIdx) ?_ ⟨hidle, h, rfl, rfl⟩
    intro key _ d' ⟨hidle', hstreams, hraw, htype⟩
    unfold discardAt
    split
    · exact ⟨hidle', hstreams, hraw, htype⟩
    rename_i es hes
    have hdiscard := discardAccessUnit_inv (hstreams key es hes) (hidle'.packet_none hes)
    refine map (hdiscard.mono fun es' ⟨hes', hnone⟩ => ⟨hidle'.set ?_, hstreams.set hes', hraw, htype⟩)
    unfold ElementaryStream.pending
    rw [hnone]
    rfl
  exact hfold.mono fun d' hd' => hd'.2

theorem setStream_inv (h : DemuxInv d found) (hidle : Idle d) (stream : List UInt8) (continuity : Bool) :
    Meets (d.setStream stream continuity) (fun d' => DemuxInv d' found) fun _ => False := by
  have hinterrupt : Meets (d.interrupt continuity)
      (fun d' => Streams d' found ∧ d'.rawEs = d.rawEs ∧ d'.packEsTypeIdx = d.packEsTypeIdx) fun _ => False :=
    ite (fun _ => ⟨h.streams, rfl, rfl⟩) fun _ => discardAccessUnits_inv h.streams hidle
  refine hinterrupt.bind fun d' _ ⟨hstreams, hraw, htype⟩ => ok ⟨hstreams, nofun, ?_⟩
  rw [hraw, htype]
  exact h.raw

theorem releaseAu_streams {addr size : Nat} {rest : List (Nat × Nat)} (h : DemuxInv d found)
    {streamId privateStreamId : Nat} (hkey : streamIdToTypeChannel streamId privateStreamId = some key)
    (hfound : found key = (addr, size) :: rest) :
    Meets (d.releaseAu streamId privateStreamId size) (fun d' => DemuxInv d' (update found key rest))
      fun _ => False := by
  unfold Demuxer.releaseAu Demuxer.command
  rw [hkey]
  dsimp only
  cases hes : d.streams key with
  | none =>
    refine ok ⟨fun other es hes' => ?_, h.current, h.raw⟩
    have hne : other ≠ key := by
      rintro rfl
      rw [hes] at hes'
      cases hes'
    rw [update_of_ne hne]
    exact h.streams other es hes'
  | some es =>
    have hinv := h.streams key es hes
    rw [hfound] at hinv
    refine map ((releaseAu_inv hinv).mono fun es' ⟨hes', hpacket⟩ => ⟨h.streams.update hes', fun hstate => ?_, h.raw⟩)
    have ⟨current, hcurrent, hsome⟩ := h.current hstate
    refine ⟨current, hcurrent, ?_⟩
    by_cases hne : current = key
    · rw [hne] at hsome ⊢
      exact forall_streams_set (by rw [hpacket]; exact hsome es hes)
    · rw [streams_set_of_ne d hne]
      exact hsome

end Demuxer

/-! ## Runs -/

/-- A demuxer, the access units that it has found and that were not released, and the fault that ended the run. -/
structure PackRun where
  demuxer : Demuxer
  found : Key → List (Nat × Nat) := fun _ => []
  fault : Option Fault := none

inductive PackEvent
  | processNextPack (answers : List Bool)
  | releaseAu (streamId privateStreamId : Nat)
  | setStream (stream : List UInt8) (continuity : Bool)

namespace PackRun

def process (s : PackRun) (answers : List Bool) : PackRun :=
  match s.demuxer.processNextPack answers with
  | .ok r => { s with demuxer := r.demuxer, found := addFound s.found r.demuxer.current r.found }
  | .error e => { s with fault := some e }

def command (s : PackRun) (found : Key → List (Nat × Nat)) : Except Fault Demuxer → PackRun
  | .ok d => { s with demuxer := d, found := found }
  | .error e => { s with fault := some e }

def release (s : PackRun) (streamId privateStreamId : Nat) : Option PackRun :=
  match streamIdToTypeChannel streamId privateStreamId with
  | none => none
  | some key =>
    match s.found key with
    | [] => none
    | (_, size) :: rest =>
      some (s.command (update s.found key rest) (s.demuxer.releaseAu streamId privateStreamId size))

end PackRun

def packStep (s : PackRun) (e : PackEvent) : Option PackRun :=
  if s.fault.isSome then none
  else
    match e with
    | .processNextPack answers => some (s.process answers)
    | .releaseAu streamId privateStreamId => s.release streamId privateStreamId
    | .setStream stream continuity =>
      -- once the previous stream has been entirely consumed
      if s.demuxer.hasWork then none else some (s.command s.found (s.demuxer.setStream stream continuity))

/-- Any elementary streams are enabled, and no other commands come between the packs. -/
def packSystem : System PackRun PackEvent where
  init s := ∃ enabled : List EnableEs, s = { demuxer := enabled.foldl enableEs {} }
  step := packStep

theorem packSystem_init (enabled : List EnableEs) : packSystem.init { demuxer := enabled.foldl enableEs {} } :=
  ⟨enabled, rfl⟩

/-- The pack that is parsed in this step, if there is one, is sound. -/
def SoundStep (s : PackRun) : PackEvent → Prop
  | .processNextPack _ => ∀ pack ∈ s.demuxer.nextPack, Sound s.demuxer pack
  | _ => True

instance (s : PackRun) (e : PackEvent) : Decidable (SoundStep s e) :=
  match e with
  | .processNextPack _ => inferInstanceAs (Decidable (∀ pack ∈ s.demuxer.nextPack, _))
  | .releaseAu _ _ | .setStream _ _ => isTrue trivial

structure PackRunInv (s : PackRun) : Prop where
  fault : s.fault = none
  demuxer : DemuxInv s.demuxer s.found
  paired : Paired s.demuxer

variable {s s' : PackRun}

theorem enabled_inv (enabled : List EnableEs) : let d := enabled.foldl enableEs {}
    (DemuxInv d fun _ => []) ∧ d.state = .initial ∧ Paired d := by
  have hfold : ∀ d : Demuxer, ((DemuxInv d fun _ => []) ∧ d.state = .initial ∧ Idle d ∧ d.packEsChannel = 0) →
      ((DemuxInv (enabled.foldl enableEs d) fun _ => []) ∧ (enabled.foldl enableEs d).state = .initial ∧
        Idle (enabled.foldl enableEs d) ∧ (enabled.foldl enableEs d).packEsChannel = 0) := by
    induction enabled with
    | nil => exact fun d hd => hd
    | cons a rest ih =>
      intro d ⟨hinv, hstate, hidle, hchannel⟩
      refine ih (d.enableEs a) ⟨enableEs_inv hinv hstate a, ?_⟩
      unfold enableEs
      split
      · exact ⟨hstate, hidle, hchannel⟩
      split
      · exact ⟨hstate, hidle, hchannel⟩
      rename_i key _ _
      have hnew : (a.newStream key.1).pending = false := rfl
      have hset : Idle (d.set key (some (a.newStream key.1))) := hidle.set hnew
      exact ⟨hstate, hset, hchannel⟩
  have hempty : DemuxInv {} fun _ => [] := by
    refine ⟨fun key es hes => ?_, nofun, nofun⟩
    cases hes
  have ⟨hinv, hstate, hidle, hchannel⟩ := hfold {} ⟨hempty, rfl, fun _ => rfl, rfl⟩
  exact ⟨hinv, hstate, hidle.paired fun _ => hchannel⟩

theorem command_inv {found : Key → List (Nat × Nat)} {x : Except Fault Demuxer} (h : PackRunInv s)
    (hx : Meets x (fun d => DemuxInv d found) fun _ => False) (hpaired : Meets x Paired Other) :
    PackRunInv (s.command found x) := by
  cases x with
  | ok => exact ⟨h.fault, hx, hpaired⟩
  | error => exact hx.elim

theorem packStep_inv {e : PackEvent} (h : PackRunInv s) (hsound : SoundStep s e) (hstep : packStep s e = some s') :
    PackRunInv s' := by
  have hgo : ¬s.fault.isSome = true := by
    rw [h.fault]
    exact false_ne_true
  unfold packStep at hstep
  rw [if_neg hgo] at hstep
  cases e with
  | processNextPack answers =>
    have ⟨r, hr, _, hinv⟩ := (processNextPack_inv h.demuxer h.paired hsound answers).exists_ok
    have hpaired := (processNextPack_paired h.paired answers).value hr
    cases hstep
    unfold PackRun.process
    rw [hr]
    exact ⟨h.fault, hinv, hpaired⟩
  | releaseAu streamId privateStreamId =>
    have hstep : s.release streamId privateStreamId = some s' := hstep
    unfold PackRun.release at hstep
    split at hstep
    · cases hstep
    rename_i key hkey
    split at hstep
    · cases hstep
    rename_i addr size rest hfound
    cases hstep
    refine command_inv h (releaseAu_streams h.demuxer hkey hfound) ?_
    exact (execute_paired (e := .releaseAu streamId privateStreamId size) h.paired rfl trivial).mono fun _ hd => hd.1
  | setStream stream continuity =>
    have ⟨hwork, hstep⟩ := ite_none_left_eq_some.mp hstep
    have henabled : (Command.setStream stream continuity).enabled s.demuxer = true := by
      show (!s.demuxer.hasWork) = true
      rw [eq_false_iff.mpr hwork]
      rfl
    have hnone : s.demuxer.stream = none := by
      cases hstream : s.demuxer.stream with
      | none => rfl
      | some =>
        rw [hasWork, hstream] at hwork
        exact absurd rfl hwork
    cases hstep
    refine command_inv h (setStream_inv h.demuxer (h.paired.idle_of_stream hnone) stream continuity) ?_
    exact (execute_paired h.paired henabled trivial).mono fun _ hd => hd.1

theorem packRun_inv (hs : (packSystem.restrict SoundStep).Reachable s) : PackRunInv s := by
  refine hs.invariant ?_ ?_
  · intro s0 ⟨enabled, hs0⟩
    have ⟨hinv, _, hpaired⟩ := enabled_inv enabled
    rw [hs0]
    exact ⟨rfl, hinv, hpaired⟩
  · intro s1 e s2 hinv hstep
    have ⟨hsound, hstep⟩ := System.step_restrict.mp hstep
    exact packStep_inv hinv hsound hstep

/-- No call has failed an `ensure` or has read outside of the stream, and the next call returns true exactly if its
pack is well formed. -/
structure PackSafe (s : PackRun) : Prop where
  fault : s.fault = none
  returns : ∀ answers, SoundStep s (.processNextPack answers) → ∃ r, s.demuxer.processNextPack answers = .ok r ∧
    ∀ pack ∈ s.demuxer.nextPack, (r.returns = true ↔ WellFormed s.demuxer pack)

/-- In every run on packs that are sound. -/
theorem packs_safe (hs : (packSystem.restrict SoundStep).Reachable s) : PackSafe s := by
  have hinv := packRun_inv hs
  refine ⟨hinv.fault, fun answers hsound => ?_⟩
  have ⟨r, hr, hreturns, _⟩ := (processNextPack_inv hinv.demuxer hinv.paired hsound answers).exists_ok
  exact ⟨r, hr, hreturns⟩

/-- The pack with an access unit of five bytes, which was released. -/
theorem packs_safe_video : ∃ s, (packSystem.restrict SoundStep).Reachable s ∧
    s.demuxer.stream = some [] ∧ s.demuxer.state = .initial ∧ PackSafe s := by
  have ⟨s, hs, hstream, hstate⟩ := exists_of_run (M := packSystem.restrict SoundStep)
    (packSystem_init [enableVideo 0xe0])
    [.setStream videoPack true, .processNextPack [true], .releaseAu 0xe0 0]
    (fun s => s.demuxer.stream = some [] ∧ s.demuxer.state = .initial) (by decide +kernel)
  exact ⟨s, hs, hstream, hstate, packs_safe hs⟩

/-- A pack with one packet, whose header is followed by `data`. -/
def packOf (streamId flags headerLength : UInt8) (data : List UInt8) : List UInt8 :=
  [0, 0, 1, 0xba, 0, 0, 0, 0, 0, 0, 0, 0, 0, 0] ++
    [0, 0, 1, streamId, 0, UInt8.ofNat (3 + data.length), 0, flags, headerLength] ++ data

def enableAc3 : EnableEs := { enableVideo 0xbd with privateStreamId := 0x30 }

/-- A time stamp is announced where the pack ends; a frame of an AC-3 stream is followed by a packet with one byte;
and the header of a packet is longer than the packet, but not in eight bits. -/
theorem packs_unsafe : (∃ s, packSystem.Reachable s ∧ s.fault = some (.ensure .readBounds)) ∧
    (∃ s, packSystem.Reachable s ∧ s.fault = some .outOfBounds) ∧
    ∃ s, packSystem.Reachable s ∧ ∃ pack ∈ s.demuxer.nextPack, ¬PacketFits pack ∧
      ∃ r, s.demuxer.processNextPack [true] = .ok r ∧ r.returns = true := by
  refine ⟨?_, ?_, ?_⟩
  · exact exists_of_run (packSystem_init [enableVideo 0xe0])
      [.setStream (packOf 0xe0 0x80 0 [0xdd]) true, .processNextPack []] _ (by decide +kernel)
  · exact exists_of_run (packSystem_init [enableAc3])
      [.setStream (packOf 0xbd 0 0 [0x30, 0, 0, 0, 0x0b, 0x77, 0, 0, 0, 0, 1, 1, 1]) true, .processNextPack [],
        .processNextPack [true], .setStream (packOf 0xbd 0 0 [0x30, 0, 0, 0, 1]) true, .processNextPack []] _ (by decide +kernel)
  have ⟨s, hs, hpack, hr⟩ := exists_of_run (packSystem_init [enableVideo 0xe0])
    [.setStream (packOf 0xe0 0 0xff [0, 0, 1, 9, 0xaa, 0, 0, 1, 9]) true]
    (fun s => s.demuxer.nextPack = some (packOf 0xe0 0 0xff [0, 0, 1, 9, 0xaa, 0, 0, 1, 9]) ∧
      (s.demuxer.processNextPack [true]).map (·.returns) = .ok true) (by decide +kernel)
  cases hprocess : s.demuxer.processNextPack [true] with
  | error =>
    rw [hprocess] at hr
    cases hr
  | ok r =>
    rw [hprocess] at hr
    exact ⟨s, hs, _, hpack, by decide +kernel, r, hprocess, Except.ok.inj hr⟩

end Armsx3.Cell.DmuxPamf
