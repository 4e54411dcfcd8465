import Armsx3.Cell.DmuxQueue

/-!
# DmuxStream — elementary streams of the PAMF demuxer

Spans are lists of bytes, and positions in them are offsets.  The part of an elementary stream that deals with the
output queue is its `Cutter`; `AuInfo` is the rest of `current_au`.
-/

namespace Armsx3.Cell.DmuxPamf

open List

def be (xs : List UInt8) : Nat := xs.foldl (fun n b => 256 * n + b.toNat) 0

def readFromPtr (xs : List UInt8) (pos n : Nat) : Except Fault Nat :=
  if pos + n ≤ xs.length then .ok (be ((xs.drop pos).take n)) else .error (.ensure .readBounds)

def subrange (xs : List UInt8) (first last : Nat) : Except Fault (List UInt8) :=
  if first ≤ last ∧ last ≤ xs.length then .ok ((xs.take last).drop first) else .error .outOfBounds

def m2vPicStart : Nat := 0x100
def avcAuDelimiter : Nat := 0x109
def m2vSequenceHeader : Nat := 0x1b3
def m2vSequenceEnd : Nat := 0x1b7

inductive StreamKind
  | video (avc : Bool)
  | lpcm
  | audio (ac3 : Bool)
  | userData
deriving DecidableEq, Repr

structure AuInfo where
  rap : Bool := false
  timestampsRapSet : Bool := false
  sizeInfoOffset : Nat := 0
  parsedSize : Nat := 0
  pts : BitVec 64 := .allOnes 64
  dts : BitVec 64 := .allOnes 64
  auSpecificInfoBuf : List UInt8 := replicate 0x10 0
deriving DecidableEq, Repr

structure ElementaryStream where
  kind : StreamKind
  cutter : Cutter
  info : AuInfo := {}
  cache : List UInt8 := []
  auSizeUnk : Nat := 0
  auSpecificInfoBuf : List UInt8 := replicate 0x10 0
  pesPacketData : Option (List UInt8) := none
  streamChunk : List UInt8 := []
  pts : BitVec 64 := .allOnes 64
  dts : BitVec 64 := .allOnes 64
  rap : Bool := false

structure Parsed where
  au : AuState
  info : AuInfo
  cachedData : List UInt8
  data : List UInt8
  cache : List UInt8
  auSizeUnk : Nat
  consumed : Nat

def Parsed.begins (p : Parsed) : Bool :=
  !p.info.timestampsRapSet &&
    (p.au == .commenced || p.au == .m2vSequence || (p.au == .complete && p.cachedData.isEmpty))

/-- Where the search for a delimiter in the cache ends; `stop` if it returned from there. -/
structure CacheScan where
  cacheIdx : Nat
  au : AuState
  info : AuInfo
  stop : Option Nat := none

structure Scan where
  streamIt : Nat
  auChunkBegin : Nat
  au : AuState
  info : AuInfo

def auChunk (cache stream : List UInt8) (cacheIdx : Nat) (r : Scan) : Except Fault (List UInt8 × List UInt8) :=
  if r.au = .none then .ok ([], [])
  else (subrange stream r.auChunkBegin r.streamIt).map fun data => (cache.take cacheIdx, data)

/-! ## Video streams -/

section Video

variable (avc : Bool)

def isDelimiter (code : Nat) : Bool :=
  if avc then code == avcAuDelimiter
  else code == m2vPicStart || code == m2vSequenceHeader || code == m2vSequenceEnd

def inProgress (au : AuState) : Bool := au ≠ .none && (avc || au ≠ .m2vSequence)

/-- The state after the delimiter at the start of an access unit. -/
def commence (code : Nat) : AuState := if avc || code == m2vPicStart then .commenced else .m2vSequence

def scanVideoCache (buf : List UInt8) (info : AuInfo) : Nat → Nat → AuState → Except Fault CacheScan
  | 0, cacheIdx, au => .ok ⟨cacheIdx, au, info, none⟩
  | n + 1, cacheIdx, au => do
      let code ← readFromPtr buf cacheIdx 4
      if isDelimiter avc code then
        if inProgress avc au then .ok ⟨cacheIdx, .complete, info, some code⟩
        else scanVideoCache buf info n (cacheIdx + 1) (commence avc code)
      else scanVideoCache buf info n (cacheIdx + 1) au

def scanVideo (info : AuInfo) : List UInt8 → Nat → Nat → AuState → Scan
  | a :: b :: c :: d :: rest, streamIt, auChunkBegin, au =>
    let code := be [a, b, c, d]
    if isDelimiter avc code then
      if inProgress avc au then
        -- the sequence end code is included in the access unit
        ⟨if !avc && code == m2vSequenceEnd then streamIt + 4 else streamIt, auChunkBegin, .complete, info⟩
      else
        scanVideo info (b :: c :: d :: rest) (streamIt + 1)
          (if avc || au == .none then streamIt else auChunkBegin) (commence avc code)
    else scanVideo info (b :: c :: d :: rest) (streamIt + 1) auChunkBegin au
  | _, streamIt, auChunkBegin, au => ⟨streamIt, auChunkBegin, au, info⟩

def CacheScan.video (c : CacheScan) (stream : List UInt8) : Scan :=
  match c.stop with
  | some code => ⟨if !avc && code == m2vSequenceEnd then min 4 stream.length else 0, 0, c.au, c.info⟩
  | none => scanVideo avc c.info stream 0 0 c.au

def parseVideo (es : ElementaryStream) (stream : List UInt8) : Except Fault Parsed := do
  let au := if inProgress avc es.cutter.au then .incomplete else es.cutter.au
  if es.cache.length ≤ 3 then
    let buf := (es.cache ++ stream.take 3 ++ replicate 8 0xff).take 8
    let c ← scanVideoCache avc buf es.info es.cache.length 0 au
    let r := c.video avc stream
    let chunk ← auChunk es.cache stream c.cacheIdx r
    .ok {
      au := r.au
      info := r.info
      cachedData := chunk.1
      data := chunk.2
      cache := es.cache.drop c.cacheIdx ++ if r.au = .complete then [] else stream.drop r.streamIt
      auSizeUnk := es.auSizeUnk
      consumed := if r.au ≠ .complete ∨ r.streamIt > stream.length then stream.length else r.streamIt }
  else .error (.ensure .cacheSize)

end Video

/-! ## Compressed audio streams -/

section Audio

variable (ac3 : Bool)

def syncWord : Nat := if ac3 then 0x0b77 else 0x0fd0

def ac3FrmsizeTable : List (List Nat) := [
  [0x40, 0x40, 0x50, 0x50, 0x60, 0x60, 0x70, 0x70, 0x80, 0x80, 0xa0, 0xa0, 0xc0, 0xc0, 0xe0, 0xe0, 0x100, 0x100,
    0x140, 0x140, 0x180, 0x180, 0x1c0, 0x1c0, 0x200, 0x200, 0x280, 0x280, 0x300, 0x300, 0x380, 0x380, 0x400, 0x400,
    0x480, 0x480, 0x500, 0x500],
  [0x45, 0x46, 0x57, 0x58, 0x68, 0x69, 0x79, 0x7a, 0x8b, 0x8c, 0xae, 0xaf, 0xd0, 0xd1, 0xf3, 0xf4, 0x116, 0x117,
    0x15c, 0x15d, 0x1a1, 0x1a2, 0x1e7, 0x1e8, 0x22d, 0x22e, 0x2b8, 0x2b9, 0x343, 0x344, 0x3cf, 0x3d0, 0x45a, 0x45b,
    0x4e5, 0x4e6, 0x571, 0x572],
  [0x60, 0x60, 0x78, 0x78, 0x90, 0x90, 0xa8, 0xa8, 0xc0, 0xc0, 0xf0, 0xf0, 0x120, 0x120, 0x150, 0x150, 0x180, 0x180,
    0x1e0, 0x1e0, 0x240, 0x240, 0x2a0, 0x2a0, 0x300, 0x300, 0x3c0, 0x3c0, 0x480, 0x480, 0x540, 0x540, 0x600, 0x600,
    0x6c0, 0x6c0, 0x780, 0x780]]

/-- `parse_au_size`; zero if the size is invalid. -/
def parseAuSize (data : Nat) : Nat :=
  if ac3 then
    let fscod := data >>> 14
    let frmsizecod := data >>> 8 &&& 0x3f
    if fscod < 3 ∧ frmsizecod < 38 then ((ac3FrmsizeTable.getD fscod []).getD frmsizecod 0) * 2 else 0
  else if data &&& 0x3ff < 0x200 then ((data &&& 0x3ff) + 1) * 8 + 8
  else 0

/-- The effect of two bytes: an access unit begins here, or the search ends here. -/
structure Visit where
  au : AuState
  info : AuInfo
  begins : Bool := false
  ends : Bool := false

/-- The body of both loops; `auSize` is the size that the access unit would have if it ended here. -/
def visitAudio (tmp auSize : Nat) (au : AuState) (info : AuInfo) : Visit :=
  if info.sizeInfoOffset ≠ 0 then
    { au := au
      info := { info with
        sizeInfoOffset := info.sizeInfoOffset - 1
        parsedSize := if info.sizeInfoOffset = 1 then parseAuSize ac3 tmp else info.parsedSize } }
  else if tmp = syncWord ac3 then
    if au = .none then
      { au := .commenced, info := { info with sizeInfoOffset := if ac3 then 4 else 2 }, begins := true }
    else if auSize ≥ info.parsedSize then
      { au := if auSize = info.parsedSize then .complete else .sizeMismatch, info := info, ends := true }
    else { au := au, info := info }
  else { au := au, info := info }

def scanAudioCache (accumulatedSize : Nat) (buf : List UInt8) : Nat → Nat → AuState → AuInfo → Except Fault CacheScan
  | 0, cacheIdx, au, info => .ok ⟨cacheIdx, au, info, none⟩
  | n + 1, cacheIdx, au, info => do
      let tmp ← readFromPtr buf cacheIdx 2
      let v := visitAudio ac3 tmp ((accumulatedSize + cacheIdx) % 2 ^ 32) au info
      if v.ends then .ok ⟨cacheIdx, v.au, v.info, some tmp⟩
      else scanAudioCache accumulatedSize buf n (cacheIdx + 1) v.au v.info

/-- Search for delimiter in stream; `size` is the size of the access unit before the chunk. -/
def scanAudio (size : Nat) : List UInt8 → Nat → Nat → AuState → AuInfo → Scan
  | a :: b :: c :: d :: rest, streamIt, auChunkBegin, au, info =>
    let v := visitAudio ac3 (be [a, b]) ((size + streamIt - auChunkBegin) % 2 ^ 32) au info
    if v.ends then ⟨streamIt, auChunkBegin, v.au, v.info⟩
    else
      scanAudio size (b :: c :: d :: rest) (streamIt + 1) (if v.begins then streamIt else auChunkBegin) v.au v.info
  | _, streamIt, auChunkBegin, au, info => ⟨streamIt, auChunkBegin, au, info⟩

/-- What does not have to be parsed, because the access unit has not reached the size in its header. -/
def CacheScan.skip (c : CacheScan) (size streamSize : Nat) : Nat :=
  if c.au ≠ .none ∧ c.info.sizeInfoOffset = 0 ∧ size < c.info.parsedSize then
    min (c.info.parsedSize - size) ((streamSize + 2 ^ 64 - 4) % 2 ^ 64)
  else 0

def CacheScan.audio (c : CacheScan) (size : Nat) (stream : List UInt8) : Scan :=
  match c.stop with
  | some _ => ⟨0, 0, c.au, c.info⟩
  | none =>
    scanAudio ac3 size (stream.drop (c.skip size stream.length)) (c.skip size stream.length) 0 c.au c.info

def parseAudio (es : ElementaryStream) (stream : List UInt8) : Except Fault Parsed := do
  let au := if es.cutter.au ≠ .none then .incomplete else .none
  if es.cache.length ≤ 3 then
    let buf := (es.cache ++ stream.take 1 ++ replicate 8 0).take 8
    let c ← scanAudioCache ac3 es.cutter.accumulatedSize buf (es.cache.length + min 1 stream.length - 1) 0 au es.info
    let r := c.audio ac3 (es.cutter.accumulatedSize + es.cache.length) stream
    let chunk ← auChunk es.cache stream c.cacheIdx r
    .ok {
      au := r.au
      info := r.info
      cachedData := chunk.1
      data := chunk.2
      cache := es.cache.drop c.cacheIdx ++
        if r.au = .complete ∨ r.au = .sizeMismatch then [] else stream.drop r.streamIt
      auSizeUnk := es.auSizeUnk
      consumed := if r.au ≠ .complete then stream.length else r.streamIt }
  else .error (.ensure .cacheSize)

end Audio

/-! ## LPCM and user data streams -/

def parseLpcm (es : ElementaryStream) (stream : List UInt8) : Parsed :=
  let info := if es.cutter.au = .none then { es.info with auSpecificInfoBuf := es.auSpecificInfoBuf } else es.info
  let left := sub32 es.cutter.auMaxSize es.cutter.accumulatedSize
  if left > stream.length then
    { au := if es.cutter.au = .none then .commenced else .incomplete, info := info, cachedData := [], data := stream,
      cache := es.cache, auSizeUnk := es.auSizeUnk, consumed := stream.length }
  else
    { au := .complete, info := info, cachedData := [], data := stream.take left, cache := es.cache,
      auSizeUnk := es.auSizeUnk, consumed := left }

def parseUserData (es : ElementaryStream) (stream : List UInt8) : Parsed :=
  if es.auSizeUnk > stream.length then
    { au := .commenced, info := es.info, cachedData := [], data := stream, cache := es.cache,
      auSizeUnk := es.auSizeUnk - stream.length, consumed := stream.length }
  else
    { au := .complete, info := es.info, cachedData := [], data := stream.take es.auSizeUnk, cache := es.cache,
      auSizeUnk := 0, consumed := stream.length }

namespace ElementaryStream

def parseStream (es : ElementaryStream) (stream : List UInt8) : Except Fault Parsed :=
  match es.kind with
  | .video avc => parseVideo avc es stream
  | .lpcm => .ok (parseLpcm es stream)
  | .audio ac3 => parseAudio ac3 es stream
  | .userData => .ok (parseUserData es stream)

/-! ## Stream headers -/

def invalidHeader : Nat := 2 ^ 32 - 1

def parseAudioStreamHeader (mask : Nat) (es : ElementaryStream) (data : List UInt8) :
    Except Fault (ElementaryStream × Nat) :=
  if es.auSizeUnk = 0 then
    if data.length < 4 then .ok (es, invalidHeader)
    else do
      let extra ← readFromPtr data 0 4
      .ok ({ es with auSizeUnk := 1 }, (extra &&& mask) + 4)
  else .ok (es, 4)

/-- `parse_stream_header`; `pts` says that there is a presentation time stamp. -/
def parseStreamHeader (es : ElementaryStream) (data : List UInt8) (pts : Bool) :
    Except Fault (ElementaryStream × Nat) :=
  match es.kind with
  | .video _ => .ok (es, 0)
  | .lpcm =>
    if data.length < 1 + 0x10 then .ok (es, invalidHeader)
    else parseAudioStreamHeader 0x7ff { es with auSpecificInfoBuf := (data.drop 1).take 0x10 } data
  | .audio _ => parseAudioStreamHeader 0xffff es data
  | .userData =>
    if pts then
      if data.length < 2 + 4 then .ok (es, invalidHeader)
      else do
        let size ← readFromPtr data 2 4
        .ok ({ es with auSizeUnk := sub32 size 4 }, 10)
    else .ok (es, 2)

/-! ## Processing a packet -/

def setPesPacketData (es : ElementaryStream) (data : List UInt8) : Except Fault ElementaryStream :=
  if es.pesPacketData.isNone then .ok { es with pesPacketData := some data, streamChunk := data }
  else .error (.ensure .pesPacketPending)

def setAuTimestampsRap (es : ElementaryStream) : ElementaryStream :=
  { es with
    info := { es.info with pts := es.pts, dts := es.dts, rap := es.rap, timestampsRapSet := true }
    pts := .allOnes 64
    dts := .allOnes 64
    rap := false }

/-- `case state::initial` with a section of the stream to parse. -/
def parse (es : ElementaryStream) : Except Fault ElementaryStream := do
  let p ← es.parseStream es.streamChunk
  let parsed := { es with
    cutter := es.cutter.parsed (p.cachedData ++ p.data) p.au
    info := p.info
    cache := p.cache
    auSizeUnk := p.auSizeUnk
    streamChunk := es.streamChunk.drop p.consumed }
  .ok (if p.begins then parsed.setAuTimestampsRap else parsed)

structure Round where
  stream : ElementaryStream
  progress : Progress
  found : Option (Nat × Nat)

def drained (es : ElementaryStream) (r : Drained) : Except Fault Round :=
  match r.progress with
  | .stalled => .ok ⟨{ es with cutter := r.cutter }, .stalled, r.found⟩
  | .mismatch =>
    -- one byte is cut off from the beginning of the packet
    match es.pesPacketData with
    | some (_ :: data) =>
      .ok ⟨{ es with cutter := r.cutter, pesPacketData := some data, streamChunk := data }, .mismatch, r.found⟩
    | _ => .error .outOfBounds
  | .ready =>
    .ok ⟨{ es with cutter := r.cutter, info := if es.cutter.au = .complete then {} else es.info }, .ready, r.found⟩

def start (es : ElementaryStream) : Except Fault ElementaryStream :=
  if es.cutter.state = .initial then es.parse else .ok es

def round (es : ElementaryStream) (accept : Bool) : Except Fault Round := do
  let es ← es.start
  let r ← es.cutter.drain accept
  es.drained r

structure Processed where
  stream : ElementaryStream
  consumed : Bool
  found : List (Nat × Nat) := []

def processLoop : Nat → List Bool → ElementaryStream → Except Fault Processed
  | 0, _, _ => .error .rounds
  | n + 1, answers, es =>
    if es.cutter.state = .initial ∧ es.streamChunk = [] then .ok ⟨{ es with pesPacketData := none }, true, []⟩
    else do
      let r ← es.round (answers.headD false)
      if r.progress = .stalled then .ok ⟨r.stream, false, r.found.toList⟩
      else
        let p ← processLoop n (if r.found.isSome then answers.tail else answers) r.stream
        .ok { p with found := r.found.toList ++ p.found }

def rounds (es : ElementaryStream) (answers : List Bool) : Nat :=
  answers.length + (es.pesPacketData.getD []).length + 3

/-- `process_pes_packet_data`; `answers` are what `on_au_found` returns, and then false. -/
def processPesPacketData (es : ElementaryStream) (answers : List Bool) : Except Fault Processed :=
  if es.pesPacketData.isSome then processLoop (es.rounds answers) answers es
  else .error (.ensure .pesPacketMissing)

/-! ## Commands -/

def reset (es : ElementaryStream) : ElementaryStream :=
  { es with
    cutter := { es.cutter with state := .initial, chunk := [], au := .none, accumulatedSize := 0 }
    info := {}
    pesPacketData := none
    auSizeUnk := 0
    pts := .allOnes 64
    dts := .allOnes 64
    rap := false }

/-- `flush_es`; what `on_au_found` returns is ignored. -/
def flushEs (es : ElementaryStream) : Except Fault ElementaryStream :=
  if es.cutter.accumulatedSize ≠ 0 then
    if es.cache.length ≤ es.cutter.queue.getFreeSize then
      .ok { es with cutter := { es.cutter with queue := es.cutter.queue.pushUnchecked es.cache } }.reset
    else .error (.ensure .freeSize)
  else .ok es.reset

/-- `reset_es`; without an address the queue is cleared. -/
def resetEs (es : ElementaryStream) : Option Nat → Except Fault ElementaryStream
  | none =>
    .ok { es.reset with cutter := { es.reset.cutter with queue := es.cutter.queue.clear } }
  | some auAddr =>
    (es.cutter.queue.popBackAddr auAddr).map fun queue => { es with cutter := { es.cutter with queue := queue } }

def discardAccessUnit (es : ElementaryStream) : Except Fault ElementaryStream :=
  (es.cutter.queue.popBack (sub32 es.cutter.accumulatedSize es.cutter.chunk.length)).map fun queue =>
    { es with cutter := { es.cutter with queue := queue }, cache := [] }.reset

def releaseAu (es : ElementaryStream) (auSize : Nat) : Except Fault ElementaryStream :=
  (es.cutter.queue.popFront auSize).map fun queue => { es with cutter := { es.cutter with queue := queue } }

end ElementaryStream

end Armsx3.Cell.DmuxPamf
