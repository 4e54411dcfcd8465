import Armsx3.Cell.DmuxStream

/-!
# DmuxPamf — the PAMF demuxer

`current_pes_packet` is an offset in the pack, since it always ends where the pack ends.  Event handlers are lists of
their answers, and what they are told is left out except for the access units.
-/

namespace Armsx3.Cell.DmuxPamf

inductive StreamType
  | video
  | lpcm
  | ac3
  | atracx
  | userData
deriving DecidableEq, Repr

instance : Fintype StreamType :=
  ⟨{.video, .lpcm, .ac3, .atracx, .userData}, fun type => by cases type <;> decide⟩

instance channelNeZero : NeZero 16 := Nat.instNeZeroSucc

/-- The place of an elementary stream in `elementary_streams`. -/
abbrev Key := StreamType × Fin 16

def streamIdToTypeChannel (streamId privateStreamId : Nat) : Option Key :=
  if streamId &&& 0xf0 = 0xe0 then some (.video, Fin.ofNat 16 streamId)
  else if streamId &&& 0xff ≠ 0xbd then none
  else if privateStreamId &&& 0xf0 = 0x40 then some (.lpcm, Fin.ofNat 16 privateStreamId)
  else if privateStreamId &&& 0xf0 = 0x30 then some (.ac3, Fin.ofNat 16 privateStreamId)
  else if privateStreamId &&& 0xf0 = 0x00 then some (.atracx, Fin.ofNat 16 privateStreamId)
  else if privateStreamId &&& 0xf0 = 0x20 then some (.userData, Fin.ofNat 16 privateStreamId)
  else none

def packSize : Nat := 0x800
def packStart : Nat := 0x1ba
def systemHeader : Nat := 0x1bb
def privateStream2 : Nat := 0x1bf
def progEnd : Nat := 0x1b9
def packetStartCodePrefix : Nat := 1

inductive PackState
  | initial
  | elementaryStream
  | progEnd
deriving DecidableEq, Repr

structure Demuxer where
  state : PackState := .initial
  demuxDoneNotified : Bool := true
  packEsTypeIdx : Option StreamType := none
  packEsChannel : Fin 16 := 0
  rawEs : Bool := false
  stream : Option (List UInt8) := none
  streams : Key → Option ElementaryStream := fun _ => none

/-! ## Finding the packet -/

/-- What `process_next_pack` finds at the reading position, and the rest of the stream. -/
inductive Section
  | done
  | raw (pack rest : List UInt8)
  | progEnd (rest : List UInt8)
  | pack (pack rest : List UInt8)
deriving DecidableEq, Repr

def nextSection (rawEs : Bool) : Nat → List UInt8 → Except Fault Section
  | 0, _ => .error .rounds
  | n + 1, stream =>
    if stream.length < 14 then .ok .done
    else if rawEs then .ok (.raw (stream.take packSize) (stream.drop packSize))
    else do
      let code ← readFromPtr (stream.take packSize) 0 4
      if code = packStart then .ok (.pack (stream.take packSize) (stream.drop packSize))
      else if code = progEnd then .ok (.progEnd (stream.drop packSize))
      else nextSection rawEs n (stream.drop packSize)

/-- Where the PES packet is in a pack, and the video stream whose next access unit is a random access point.
Without an offset `process_next_pack` returns false. -/
structure Headers where
  rapChannel : Option (Fin 16) := none
  offset : Option Nat := none
deriving DecidableEq, Repr

/-- A system header is optionally followed by a private stream 2. -/
def skipPrivateStream2 (pack : List UInt8) (offset : Nat) : Except Fault Headers := do
  let length ← readFromPtr pack (offset + 4) 2
  let length := (length + 6) % 2 ^ 16
  if offset + length + 9 > pack.length then .ok {}
  else
    let id ← readFromPtr pack (offset + 6) 2
    .ok { rapChannel := some (Fin.ofNat 16 id), offset := some (offset + length) }

def skipSystemHeader (pack : List UInt8) (offset : Nat) : Except Fault Headers := do
  let length ← readFromPtr pack (offset + 4) 2
  let length := length + 6
  if offset + length + 9 > pack.length then .ok {}
  else
    -- the next start code is at an address aligned to 0x10 bytes
    let offset := offset + length - (offset + length) % 16
    let code ← readFromPtr pack offset 4
    if code / 2 ^ 8 ≠ packetStartCodePrefix then .ok {}
    else if code = privateStream2 then skipPrivateStream2 pack offset
    else .ok { offset := some offset }

def skipHeaders (pack : List UInt8) : Except Fault Headers := do
  let stuffing ← readFromPtr pack 13 1
  let offset := 14 + stuffing % 8
  if offset + 9 > pack.length then .ok {}
  else
    let code ← readFromPtr pack offset 4
    if code / 2 ^ 8 ≠ packetStartCodePrefix then .ok {}
    else if code = systemHeader then skipSystemHeader pack offset
    else .ok { offset := some offset }

structure PesPacket where
  key : Key
  data : List UInt8
deriving DecidableEq, Repr

/-- Parse PES packet; `none` stands for `return false`. -/
def parsePesPacket (pack : List UInt8) (offset : Nat) : Except Fault (Option PesPacket) := do
  let code ← readFromPtr pack offset 4
  if code / 2 ^ 8 ≠ packetStartCodePrefix then .ok none
  else
    let length ← readFromPtr pack (offset + 4) 2
    let length := (length + 6) % 2 ^ 16
    let headerLength ← readFromPtr pack (offset + 8) 1
    let headerLength := (headerLength + 9) % 2 ^ 8
    if offset + length > pack.length ∨ length ≤ headerLength then .ok none
    else
      let data := (pack.drop (offset + headerLength)).take (length - headerLength)
      let privateStreamId ← readFromPtr data 0 1
      .ok ((streamIdToTypeChannel code privateStreamId).map fun key => ⟨key, data⟩)

/-- Bits 0 to 31 of a time stamp, sign-extended. -/
def readTimestamp (pack : List UInt8) (pos : Nat) : Except Fault (BitVec 64) := do
  let high ← readFromPtr pack pos 1
  let middle ← readFromPtr pack (pos + 1) 2
  let low ← readFromPtr pack (pos + 3) 2
  .ok (((BitVec.ofNat 32 (high / 2) <<< 30) ||| (BitVec.ofNat 32 (middle / 2) <<< 15) |||
    BitVec.ofNat 32 (low / 2)).signExtend 64)

def readOptionalTimestamp (flag : Bool) (pack : List UInt8) (pos : Nat) (old : BitVec 64) : Except Fault (BitVec 64) :=
  if flag then readTimestamp pack pos else .ok old

/-! ## Processing -/

/-- What `process_next_pack` returns, and the access units that were found in the stream of the pack. -/
structure PackResult where
  demuxer : Demuxer
  returns : Bool
  found : List (Nat × Nat) := []

namespace Demuxer

def set (d : Demuxer) (key : Key) (es : Option ElementaryStream) : Demuxer :=
  { d with streams := Function.update d.streams key es }

theorem streams_set_self (d : Demuxer) (key : Key) (es : Option ElementaryStream) : (d.set key es).streams key = es :=
  Function.update_self ..

theorem streams_set_of_ne (d : Demuxer) {key other : Key} (h : other ≠ key) (es : Option ElementaryStream) :
    (d.set key es).streams other = d.streams other :=
  Function.update_of_ne h ..

def processStream (d : Demuxer) (answers : List Bool) : Except Fault PackResult :=
  match d.packEsTypeIdx with
  | none => .error .outOfBounds
  | some type =>
    match d.streams (type, d.packEsChannel) with
    | none => .ok { demuxer := { d with state := .initial }, returns := true }
    | some es => do
        let p ← es.processPesPacketData answers
        let d := d.set (type, d.packEsChannel) (some p.stream)
        .ok ⟨if p.consumed then { d with state := .initial } else d, true, p.found⟩

def setRap (d : Demuxer) : Option (Fin 16) → Demuxer
  | none => d
  | some channel =>
    match d.streams (.video, channel) with
    | none => d
    | some es => d.set (.video, channel) (some { es with rap := true })

/-- The time stamps and the header of the stream, and the packet for it; whether the header is valid. -/
def handPacket (es : ElementaryStream) (pack : List UInt8) (offset : Nat) (data : List UInt8) :
    Except Fault (ElementaryStream × Bool) := do
  let ptsDtsFlag ← readFromPtr pack (offset + 7) 1
  let pts ← readOptionalTimestamp (ptsDtsFlag ≥ 0x80) pack (offset + 9) es.pts
  let dts ← readOptionalTimestamp (ptsDtsFlag &&& 0x40 ≠ 0) pack (offset + 14) es.dts
  let header ← ElementaryStream.parseStreamHeader { es with pts := pts, dts := dts } data (ptsDtsFlag ≥ 0x80)
  if header.2 > data.length then .ok (header.1, false)
  else
    let es ← header.1.setPesPacketData (data.drop header.2)
    .ok (es, true)

def processPack (d : Demuxer) (pack : List UInt8) (answers : List Bool) : Except Fault PackResult := do
  let headers ← skipHeaders pack
  let d := d.setRap headers.rapChannel
  match headers.offset with
  | none => .ok { demuxer := d, returns := false }
  | some offset =>
    match ← parsePesPacket pack offset with
    | none => .ok { demuxer := d, returns := false }
    | some packet =>
      let d := { d with packEsTypeIdx := some packet.key.1, packEsChannel := packet.key.2 }
      match d.streams packet.key with
      | none => processStream { d with state := .elementaryStream } answers
      | some es =>
        let handed ← handPacket es pack offset packet.data
        let d := d.set packet.key (some handed.1)
        if handed.2 then processStream { d with state := .elementaryStream } answers
        else .ok { demuxer := d, returns := false }

def processRaw (d : Demuxer) (pack : List UInt8) : Except Fault PackResult :=
  match d.packEsTypeIdx with
  | none => .error .outOfBounds
  | some type =>
    match d.streams (type, 0) with
    | none => .ok { demuxer := { d with state := .elementaryStream }, returns := true }
    | some es => do
        let es ← es.setPesPacketData pack
        .ok { demuxer := { d.set (type, 0) (some es) with state := .elementaryStream }, returns := true }

def processSection (d : Demuxer) (answers : List Bool) : Section → Except Fault PackResult
  | .done =>
    .ok { demuxer := { d with stream := none, demuxDoneNotified := answers.headD false }, returns := true }
  | .raw pack rest => { d with stream := some rest }.processRaw pack
  | .progEnd rest =>
    .ok {
      demuxer := { d with stream := some rest, state := if answers.headD false then d.state else .progEnd }
      returns := true }
  | .pack pack rest => { d with stream := some rest }.processPack pack answers

/-- `process_next_pack`; `answers` are what the event handlers return, and then false. -/
def processNextPack (d : Demuxer) (answers : List Bool) : Except Fault PackResult :=
  match d.stream with
  | none =>
    .ok { demuxer := { d with demuxDoneNotified := d.demuxDoneNotified || answers.headD false }, returns := true }
  | some stream =>
    match d.state with
    | .initial => do
        let sec ← nextSection d.rawEs (stream.length + 1) stream
        d.processSection answers sec
    | .elementaryStream => d.processStream answers
    | .progEnd =>
      .ok { demuxer := if answers.headD false then { d with state := .initial } else d, returns := true }

/-! ## Commands -/

def hasWork (d : Demuxer) : Bool := d.stream.isSome || !d.demuxDoneNotified

end Demuxer

structure EnableEs where
  streamId : Nat
  privateStreamId : Nat
  isAvc : Bool
  bufferSize : BitVec 32
  buffer : Nat → UInt8
  auMaxSize : BitVec 32
  rawEs : Bool

def StreamType.kind (isAvc : Bool) : StreamType → StreamKind
  | .video => .video isAvc
  | .lpcm => .lpcm
  | .ac3 => .audio true
  | .atracx => .audio false
  | .userData => .userData

def EnableEs.newStream (a : EnableEs) (type : StreamType) : ElementaryStream where
  kind := type.kind a.isAvc
  cutter := {
    auMaxSize := effectiveAuMaxSize a.auMaxSize.toNat a.bufferSize.toNat
    queue := { size := a.bufferSize.toNat, buffer := a.buffer } }

namespace Demuxer

/-- `enable_es`; nothing changes if it returns false. -/
def enableEs (d : Demuxer) (a : EnableEs) : Demuxer :=
  match streamIdToTypeChannel a.streamId a.privateStreamId with
  | none => d
  | some key =>
    if (d.streams key).isSome then d
    else { d.set key (some (a.newStream key.1)) with rawEs := a.rawEs, packEsTypeIdx := some key.1 }

def disableEs (d : Demuxer) (streamId privateStreamId : Nat) : Demuxer :=
  match streamIdToTypeChannel streamId privateStreamId with
  | none => d
  | some key => d.set key none

def command (d : Demuxer) (streamId privateStreamId : Nat)
    (f : ElementaryStream → Except Fault ElementaryStream) (state : PackState) : Except Fault Demuxer :=
  match streamIdToTypeChannel streamId privateStreamId with
  | none => .ok d
  | some key =>
    match d.streams key with
    | none => .ok d
    | some es => (f es).map fun es => { d.set key (some es) with state := state }

def releaseAu (d : Demuxer) (streamId privateStreamId auSize : Nat) : Except Fault Demuxer :=
  d.command streamId privateStreamId (·.releaseAu auSize) d.state

def flushEs (d : Demuxer) (streamId privateStreamId : Nat) : Except Fault Demuxer :=
  d.command streamId privateStreamId (·.flushEs) .initial

def resetEs (d : Demuxer) (streamId privateStreamId : Nat) (auAddr : Option Nat) : Except Fault Demuxer :=
  d.command streamId privateStreamId (·.resetEs auAddr) (if auAddr.isNone then .initial else d.state)

def keys : List Key :=
  [.video, .lpcm, .ac3, .atracx, .userData].flatMap fun type => (List.finRange 16).map fun channel => (type, channel)

def discardAt (d : Demuxer) (key : Key) : Except Fault Demuxer :=
  match d.streams key with
  | none => .ok d
  | some es => es.discardAccessUnit.map fun es => d.set key (some es)

def discardAccessUnits (d : Demuxer) : Except Fault Demuxer := keys.foldlM discardAt d

/-- Without continuity the access units that are being cut out are discarded. -/
def interrupt (d : Demuxer) (continuity : Bool) : Except Fault Demuxer :=
  if continuity then .ok d else d.discardAccessUnits

def setStream (d : Demuxer) (stream : List UInt8) (continuity : Bool) : Except Fault Demuxer := do
  let d ← d.interrupt continuity
  .ok { d with state := .initial, stream := some stream, demuxDoneNotified := false }

def resetStream (d : Demuxer) : Except Fault Demuxer := do
  let d ← d.discardAccessUnits
  .ok { d with state := .initial, stream := none }

end Demuxer

end Armsx3.Cell.DmuxPamf
