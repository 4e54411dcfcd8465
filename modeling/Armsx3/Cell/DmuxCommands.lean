import Armsx3.Cell.DmuxPamf
import Armsx3.Library.Fallible

/-!
# DmuxCommands — commands of the PAMF demuxer between its packets

The demuxer as a whole is either at the start of a pack or in an elementary stream, and each elementary stream knows
on its own whether it has a packet that is not consumed.  The two agree as long as no command comes while a different
stream has such a packet.
-/

namespace Armsx3.Cell.DmuxPamf

open Fallible Meets Demuxer ElementaryStream Option Bool Transition List Demuxer

/-! ## Runs -/

inductive Command
  | enableEs (a : EnableEs)
  | disableEs (streamId privateStreamId : Nat)
  | releaseAu (streamId privateStreamId auSize : Nat)
  | flushEs (streamId privateStreamId : Nat)
  | setStream (stream : List UInt8) (continuity : Bool)
  | resetStream
  | resetEs (streamId privateStreamId : Nat) (auAddr : Option Nat)
  | processNextPack (answers : List Bool)

def Demuxer.execute (d : Demuxer) : Command → Except Fault Demuxer
  | .enableEs a => .ok (d.enableEs a)
  | .disableEs streamId privateStreamId => .ok (d.disableEs streamId privateStreamId)
  | .releaseAu streamId privateStreamId auSize => d.releaseAu streamId privateStreamId auSize
  | .flushEs streamId privateStreamId => d.flushEs streamId privateStreamId
  | .setStream stream continuity => d.setStream stream continuity
  | .resetStream => d.resetStream
  | .resetEs streamId privateStreamId auAddr => d.resetEs streamId privateStreamId auAddr
  | .processNextPack answers => (d.processNextPack answers).map (·.demuxer)

structure CommandState where
  demuxer : Demuxer := {}
  fault : Option Fault := none

def CommandState.after (s : CommandState) : Except Fault Demuxer → CommandState
  | .ok d => { s with demuxer := d }
  | .error e => { s with fault := some e }

/-- A new stream is set once the previous one has been entirely consumed. -/
def Command.enabled (d : Demuxer) : Command → Bool
  | .setStream _ _ => !d.hasWork
  | _ => true

def commandStep (s : CommandState) (e : Command) : Option CommandState :=
  if s.fault = none ∧ e.enabled s.demuxer then some (s.after (s.demuxer.execute e)) else none

def commandSystem : System CommandState Command where
  init s := s = {}
  step := commandStep

/-! ## What has to hold -/

def ElementaryStream.pending (es : ElementaryStream) : Bool := es.pesPacketData.isSome

def Demuxer.pending (d : Demuxer) (key : Key) : Bool := (d.streams key).any (·.pending)

/-- A packet that is not consumed belongs to the stream that `process_next_pack` goes on with. -/
structure Paired (d : Demuxer) : Prop where
  pending : ∀ key, d.pending key = true →
    d.state = .elementaryStream ∧ d.packEsTypeIdx = some key.1 ∧ d.packEsChannel = key.2 ∧ d.stream.isSome
  raw : d.rawEs = true → d.packEsChannel = 0

def ElementaryStream.unconsumed (es : ElementaryStream) : Option (List UInt8) × List UInt8 × List UInt8 :=
  (es.pesPacketData, es.streamChunk, es.cutter.chunk)

def Command.addresses (key : Key) : Command → Prop
  | .disableEs streamId privateStreamId => streamIdToTypeChannel streamId privateStreamId = some key
  | .flushEs streamId privateStreamId => streamIdToTypeChannel streamId privateStreamId = some key
  | .resetEs streamId privateStreamId _ => streamIdToTypeChannel streamId privateStreamId = some key
  | .resetStream => True
  | _ => False

def Carried (d : Demuxer) (e : Command) (d' : Demuxer) : Prop :=
  ∀ key es, d.streams key = some es → es.pending = true → ¬e.addresses key → ∃ es', d'.streams key = some es' ∧
      (es'.unconsumed = es.unconsumed ∨
        ∃ answers p, e = .processNextPack answers ∧ es.processPesPacketData answers = .ok p ∧ es' = p.stream)

/-- Commands that leave a packet of another stream alone. -/
def Undisturbed (s : CommandState) : Command → Prop
  | .enableEs a => ∀ key, streamIdToTypeChannel a.streamId a.privateStreamId = some key →
      (s.demuxer.streams key).isNone →
      (∀ other, s.demuxer.pending other → other.1 = key.1) ∧ (a.rawEs → s.demuxer.packEsChannel = 0)
  | .flushEs streamId privateStreamId => ∀ key, streamIdToTypeChannel streamId privateStreamId = some key →
      (s.demuxer.streams key).isSome → ∀ other, s.demuxer.pending other → other = key
  | .resetEs streamId privateStreamId none => ∀ key, streamIdToTypeChannel streamId privateStreamId = some key →
      (s.demuxer.streams key).isSome → ∀ other, s.demuxer.pending other → other = key
  | _ => True

instance (s : CommandState) (e : Command) : Decidable (Undisturbed s e) :=
  match e with
  | .enableEs _ | .flushEs _ _ | .resetEs _ _ none => inferInstanceAs (Decidable (∀ _ : Key, _ → _))
  | .resetEs _ _ (some _) | .disableEs _ _ | .releaseAu _ _ _ | .setStream _ _ | .resetStream | .processNextPack _ =>
    isTrue trivial

/-! ## Faults other than that of `set_pes_packet_data` -/

/-- Not the `ensure` of `set_pes_packet_data`. -/
def Other (e : Fault) : Prop := e ≠ .ensure .pesPacketPending

section Other

variable {es : ElementaryStream} {c : Cutter} {xs stream : List UInt8}

theorem readFromPtr_other (pos n : Nat) : Meets (readFromPtr xs pos n) (fun _ => True) Other :=
  ite (fun _ => trivial) (fun _ => nofun)

theorem auChunk_other (cache : List UInt8) (cacheIdx : Nat) (r : Scan) :
    Meets (auChunk cache stream cacheIdx r) (fun _ => True) Other := by
  refine ite (fun _ => trivial) (fun _ => map ?_)
  exact ite (fun _ => trivial) (fun _ => nofun)

theorem scanVideoCache_other (avc : Bool) (info : AuInfo) (n cacheIdx : Nat) (au : AuState) :
    Meets (scanVideoCache avc xs info n cacheIdx au) (fun _ => True) Other := by
  induction n generalizing cacheIdx au with
  | zero => trivial
  | succ n ih =>
    refine (readFromPtr_other cacheIdx 4).bind fun code _ _ => ite (fun _ => ?_) fun _ => ih _ _
    exact ite (fun _ => trivial) fun _ => ih _ _

theorem scanAudioCache_other (ac3 : Bool) (size n cacheIdx : Nat) (au : AuState) (info : AuInfo) :
    Meets (scanAudioCache ac3 size xs n cacheIdx au info) (fun _ => True) Other := by
  induction n generalizing cacheIdx au info with
  | zero => trivial
  | succ n ih =>
    exact (readFromPtr_other cacheIdx 2).bind fun tmp _ _ => ite (fun _ => trivial) fun _ => ih _ _ _

theorem parseVideo_other (avc : Bool) : Meets (parseVideo avc es stream) (fun _ => True) Other := by
  refine ite (fun _ => ?_) fun _ => nofun
  refine (scanVideoCache_other avc _ _ _ _).bind fun c _ _ => ?_
  exact (auChunk_other _ _ _).bind fun _ _ _ => trivial

theorem parseAudio_other (ac3 : Bool) : Meets (parseAudio ac3 es stream) (fun _ => True) Other := by
  refine ite (fun _ => ?_) fun _ => nofun
  refine (scanAudioCache_other ac3 _ _ _ _ _).bind fun c _ _ => ?_
  exact (auChunk_other _ _ _).bind fun _ _ _ => trivial

theorem parse_other : Meets es.parse (fun _ => True) Other := by
  have hparse : Meets (es.parseStream es.streamChunk) (fun _ => True) Other := by
    unfold parseStream
    split
    · exact parseVideo_other _
    · trivial
    · exact parseAudio_other _
    · trivial
  exact hparse.bind fun _ _ _ => trivial

theorem drain_other (accept : Bool) : Meets (c.drain accept) (fun _ => True) Other := by
  have hpushed : ∀ c : Cutter, Meets (c.pushed accept) (fun _ => True) Other := fun c =>
    ite (fun _ => map (ite (fun _ => trivial) fun _ => nofun)) fun _ => trivial
  unfold Cutter.drain
  split
  · trivial
  · refine ite (fun _ => hpushed c) fun _ => ?_
    split
    · trivial
    · exact hpushed _
  · trivial
  · trivial

theorem round_other (accept : Bool) : Meets (es.round accept) (fun _ => True) Other := by
  have hstart : Meets es.start (fun _ => True) Other := ite (fun _ => parse_other) fun _ => trivial
  refine hstart.bind fun es _ _ => ?_
  refine (drain_other accept).bind fun r _ _ => ?_
  unfold drained
  split
  · trivial
  · split
    · trivial
    · intro h
      cases h
  · trivial

theorem processLoop_other (n : Nat) (answers : List Bool) (es : ElementaryStream) :
    Meets (processLoop n answers es) (fun p => p.consumed = true → p.stream.pending = false) Other := by
  induction n generalizing answers es with
  | zero =>
    intro h
    cases h
  | succ n ih =>
    refine ite (fun _ _ => rfl) fun _ => (round_other _).bind fun r _ _ => ?_
    refine ite (fun _ h => absurd h Bool.noConfusion) fun _ => ?_
    exact (ih _ _).bind fun p _ hp => hp

theorem process_other (answers : List Bool) :
    Meets (es.processPesPacketData answers) (fun p => p.consumed = true → p.stream.pending = false) Other :=
  ite (fun _ => processLoop_other _ _ _) fun _ => nofun

theorem parseAudioStreamHeader_other (mask : Nat) (data : List UInt8) :
    Meets (es.parseAudioStreamHeader mask data) (fun r => r.1.pending = es.pending) Other := by
  refine ite (fun _ => ite (fun _ => rfl) fun _ => ?_) fun _ => rfl
  exact (readFromPtr_other 0 4).bind fun _ _ _ => rfl

theorem parseStreamHeader_other (data : List UInt8) (pts : Bool) :
    Meets (es.parseStreamHeader data pts) (fun r => r.1.pending = es.pending) Other := by
  unfold parseStreamHeader
  split
  · rfl
  · refine ite (fun _ => rfl) fun _ => ?_
    exact parseAudioStreamHeader_other 0x7ff data
  · exact parseAudioStreamHeader_other 0xffff data
  · refine ite (fun _ => ite (fun _ => rfl) fun _ => ?_) fun _ => rfl
    have hkeep : ∀ n, ElementaryStream.pending { es with auSizeUnk := n } = es.pending := fun _ => rfl
    exact (readFromPtr_other 2 4).bind fun _ _ _ => hkeep _

theorem readTimestamp_other (pos : Nat) : Meets (readTimestamp xs pos) (fun _ => True) Other := by
  refine (readFromPtr_other pos 1).bind fun _ _ _ => ?_
  refine (readFromPtr_other (pos + 1) 2).bind fun _ _ _ => ?_
  exact (readFromPtr_other (pos + 3) 2).bind fun _ _ _ => trivial

theorem readOptionalTimestamp_other (flag : Bool) (pos : Nat) (old : BitVec 64) :
    Meets (readOptionalTimestamp flag xs pos old) (fun _ => True) Other :=
  ite (fun _ => readTimestamp_other pos) fun _ => trivial

theorem handPacket_other (h : es.pending = false) (pack : List UInt8) (offset : Nat) (data : List UInt8) :
    Meets (handPacket es pack offset data) (fun r => r.2 = false → r.1.pending = false) Other := by
  refine (readFromPtr_other (offset + 7) 1).bind fun flag _ _ => ?_
  refine (readOptionalTimestamp_other _ _ _).bind fun pts _ _ => ?_
  refine (readOptionalTimestamp_other _ _ _).bind fun dts _ _ => ?_
  refine (parseStreamHeader_other data _).bind fun header _ hheader => ?_
  have hnone : header.1.pesPacketData.isNone = true := by
    rw [isNone_iff_eq_none, ← not_isSome_iff_eq_none]
    show ¬header.1.pending = true
    rw [hheader]
    exact eq_false_iff.mp h
  refine ite (fun _ _ => ?_) fun _ => ?_
  · rw [hheader]
    exact h
  · unfold setPesPacketData
    rw [if_pos hnone]
    exact fun hfalse => absurd hfalse Bool.noConfusion

theorem skipHeaders_other : Meets (skipHeaders xs) (fun _ => True) Other := by
  have hprivate : ∀ offset, Meets (skipPrivateStream2 xs offset) (fun _ => True) Other := by
    intro offset
    refine (readFromPtr_other _ 2).bind fun _ _ _ => ite (fun _ => trivial) fun _ => ?_
    exact (readFromPtr_other _ 2).bind fun _ _ _ => trivial
  have hsystem : ∀ offset, Meets (skipSystemHeader xs offset) (fun _ => True) Other := by
    intro offset
    refine (readFromPtr_other _ 2).bind fun _ _ _ => ite (fun _ => trivial) fun _ => ?_
    refine (readFromPtr_other _ 4).bind fun _ _ _ => ite (fun _ => trivial) fun _ => ?_
    exact ite (fun _ => hprivate _) fun _ => trivial
  refine (readFromPtr_other 13 1).bind fun _ _ _ => ite (fun _ => trivial) fun _ => ?_
  refine (readFromPtr_other _ 4).bind fun _ _ _ => ite (fun _ => trivial) fun _ => ?_
  exact ite (fun _ => hsystem _) fun _ => trivial

theorem parsePesPacket_other (offset : Nat) : Meets (parsePesPacket xs offset) (fun _ => True) Other := by
  refine (readFromPtr_other _ 4).bind fun _ _ _ => ite (fun _ => trivial) fun _ => ?_
  refine (readFromPtr_other _ 2).bind fun _ _ _ => (readFromPtr_other _ 1).bind fun _ _ _ => ?_
  refine ite (fun _ => trivial) fun _ => ?_
  exact (readFromPtr_other _ 1).bind fun _ _ _ => trivial

theorem nextSection_other (rawEs : Bool) (n : Nat) : Meets (nextSection rawEs n stream)
      (fun sec => (∀ pack rest, sec = .raw pack rest → rawEs = true) ∧
        ∀ pack rest, sec = .pack pack rest → rawEs = false) Other := by
  induction n generalizing stream with
  | zero =>
    intro h
    cases h
  | succ n ih =>
    refine ite (fun _ => ⟨nofun, nofun⟩) fun _ => ?_
    refine ite (fun hraw => ⟨fun _ _ _ => hraw, nofun⟩) fun hraw => ?_
    refine (readFromPtr_other 0 4).bind fun _ _ _ => ?_
    refine ite (fun _ => ⟨nofun, fun _ _ _ => eq_false_iff.mpr hraw⟩) fun _ => ?_
    exact ite (fun _ => ⟨nofun, nofun⟩) fun _ => ih

theorem flushEs_other : Meets es.flushEs (fun es' => es'.pending = false) Other :=
  ite (fun _ => ite (fun _ => rfl) fun _ => nofun) fun _ => rfl

theorem resetEs_other (auAddr : Option Nat) :
    Meets (es.resetEs auAddr) (fun es' => es'.pending = (auAddr.isSome && es.pending)) Other := by
  cases auAddr with
  | none => rfl
  | some =>
    refine map ?_
    exact ite (fun _ => (Bool.true_and _).symm) fun _ => nofun

theorem discardAccessUnit_other : Meets es.discardAccessUnit (fun es' => es'.pending = false) Other :=
  map (ite (fun _ => rfl) fun _ => nofun)

theorem releaseAu_other (auSize : Nat) :
    Meets (es.releaseAu auSize) (fun es' => es'.unconsumed = es.unconsumed) Other := by
  refine map (ite (fun _ => ite (fun _ => ?_) fun _ => rfl) fun _ => nofun)
  exact ite (fun _ => rfl) fun _ => nofun

end Other

/-! ## Processing a pack -/

variable {e : Command}

section Demuxer

variable {d : Demuxer} {key other : Key} {es : ElementaryStream}

theorem pending_set (es : Option ElementaryStream) :
    (d.set key es).pending other = if other = key then es.any (·.pending) else d.pending other := by
  unfold Demuxer.pending
  by_cases hkey : other = key
  · rw [if_pos hkey, hkey, streams_set_self]
  · rw [if_neg hkey, streams_set_of_ne d hkey]

theorem pending_cases {es : Option ElementaryStream} (h : (d.set key es).pending other = true) :
    (other = key ∧ es.any (·.pending) = true) ∨ d.pending other = true := by
  rw [pending_set] at h
  by_cases hkey : other = key
  · rw [if_pos hkey] at h
    exact .inl ⟨hkey, h⟩
  · rw [if_neg hkey] at h
    exact .inr h

theorem pending_of_none (hnone : d.streams key = none) : d.pending key = false := by
  unfold Demuxer.pending
  rw [hnone]
  rfl

theorem pending_of_streams (hes : d.streams key = some es) : d.pending key = es.pending := by
  unfold Demuxer.pending
  rw [hes]
  rfl

def Idle (d : Demuxer) : Prop := ∀ key, d.pending key = false

theorem idle_set (hes : es.pending = false) (h : ∀ other, other ≠ key → d.pending other = false) :
    Idle (d.set key (some es)) := by
  intro other
  rw [pending_set]
  by_cases hkey : other = key
  · rw [if_pos hkey]
    exact hes
  · rw [if_neg hkey]
    exact h other hkey

theorem Idle.set (h : Idle d) (hes : es.pending = false) : Idle (d.set key (some es)) :=
  idle_set hes fun other _ => h other

theorem Idle.paired (h : Idle d) (hraw : d.rawEs = true → d.packEsChannel = 0) : Paired d :=
  ⟨fun key hkey => absurd hkey (eq_false_iff.mp (h key)), hraw⟩

theorem Paired.idle (h : Paired d) (hstate : d.state ≠ .elementaryStream) : Idle d :=
  fun key => eq_false_iff.mpr fun hkey => hstate (h.pending key hkey).1

theorem Paired.idle_of_stream (h : Paired d) (hstream : d.stream = none) : Idle d := by
  intro key
  refine eq_false_iff.mpr fun hkey => ?_
  have hsome := (h.pending key hkey).2.2.2
  rw [hstream] at hsome
  cases hsome

theorem processStream_paired (h : Paired d) (hstate : d.state = .elementaryStream) (hstream : d.stream.isSome)
    (answers : List Bool) : Meets (d.processStream answers) (fun r => Paired r.demuxer) Other := by
  unfold processStream
  split
  · exact nofun
  rename_i type htype
  -- only this stream can have a packet
  have honly : ∀ other, other ≠ (type, d.packEsChannel) → d.pending other = false := by
    intro other hne
    refine eq_false_iff.mpr fun hother => hne ?_
    have ⟨_, hidx, hchannel, _⟩ := h.pending other hother
    rw [htype] at hidx
    exact Prod.ext (Option.some.inj hidx).symm hchannel.symm
  split
  next hnone =>
    have hidle : Idle d := by
      intro other
      by_cases hother : other = (type, d.packEsChannel)
      · exact hother ▸ pending_of_none hnone
      · exact honly other hother
    exact ok (Idle.paired hidle h.raw)
  next es hes =>
    refine (process_other answers).bind fun p _ hp => ok ?_
    by_cases hconsumed : p.consumed = true
    · have hidle := idle_set (hp hconsumed) honly
      rw [if_pos hconsumed]
      exact Idle.paired hidle h.raw
    rw [if_neg hconsumed]
    refine ⟨fun other hother => ?_, h.raw⟩
    rcases pending_cases hother with ⟨hkey, _⟩ | hother
    · rw [hkey]
      exact ⟨hstate, htype, rfl, hstream⟩
    · exact h.pending other hother

theorem setRap_eq (channel : Option (Fin 16)) :
    ∃ streams, d.setRap channel = { d with streams := streams } ∧ (Idle d → Idle (d.setRap channel)) := by
  unfold setRap
  split
  · exact ⟨d.streams, rfl, id⟩
  split
  · exact ⟨d.streams, rfl, id⟩
  rename_i channel _ es hes
  refine ⟨_, rfl, fun hidle => hidle.set ?_⟩
  have hnone := hidle (.video, channel)
  rw [pending_of_streams hes] at hnone
  exact hnone

theorem processPack_paired (hidle : Idle d) (hraw : d.rawEs = false) (hstream : d.stream.isSome) (pack : List UInt8)
    (answers : List Bool) : Meets (d.processPack pack answers) (fun r => Paired r.demuxer) Other := by
  have hno : ∀ {p : Prop}, d.rawEs = true → p := fun htrue => by
    rw [hraw] at htrue
    cases htrue
  refine skipHeaders_other.bind fun headers _ _ => ?_
  have ⟨streams, hset, hkeep⟩ := setRap_eq (d := d) headers.rapChannel
  have hidle := hkeep hidle
  rw [hset] at hidle ⊢
  split
  · exact ok (hidle.paired hno)
  refine (parsePesPacket_other _).bind fun packet? _ _ => ?_
  cases packet? with
  | none => exact ok (hidle.paired hno)
  | some packet =>
    dsimp only
    split
    · refine processStream_paired ?_ rfl ?_ answers
      · exact Idle.paired hidle hno
      · exact hstream
    rename_i es hes
    have hpending : es.pending = false := by
      rw [← hidle packet.key]
      exact (pending_of_streams hes).symm
    refine (handPacket_other hpending _ _ _).bind fun handed _ hhanded => ?_
    refine ite (fun htrue => ?_) fun hfalse => ok ?_
    · refine processStream_paired ⟨fun other hother => ?_, ?_⟩ rfl ?_ answers
      · have hset : pending (set { d with streams := streams } packet.key (some handed.1)) other = true := hother
        rcases pending_cases hset with ⟨hkey, _⟩ | hset
        · rw [hkey]
          exact ⟨rfl, rfl, rfl, hstream⟩
        · exact absurd hset (eq_false_iff.mp (hidle other))
      · exact hno
      · exact hstream
    · have hset : Idle (set { d with streams := streams } packet.key (some handed.1)) :=
        hidle.set (hhanded (eq_false_iff.mpr hfalse))
      exact Idle.paired hset hno

theorem processRaw_paired (hidle : Idle d) (hraw : d.packEsChannel = 0) (hstream : d.stream.isSome)
    (pack : List UInt8) : Meets (d.processRaw pack) (fun r => Paired r.demuxer) Other := by
  unfold processRaw
  split
  · exact nofun
  rename_i type htype
  split
  · refine ok (Idle.paired ?_ fun _ => hraw)
    exact hidle
  rename_i es hes
  have hnone : es.pesPacketData.isNone = true := by
    have hpending := hidle (type, 0)
    rw [pending_of_streams hes] at hpending
    rw [isNone_iff_eq_none, ← not_isSome_iff_eq_none]
    exact eq_false_iff.mp hpending
  unfold setPesPacketData
  rw [if_pos hnone]
  refine ⟨fun other hother => ?_, fun _ => hraw⟩
  have hset : pending (d.set (type, 0) (some { es with
      pesPacketData := some pack
      streamChunk := pack })) other = true := hother
  rcases pending_cases hset with ⟨hkey, _⟩ | hset
  · rw [hkey]
    exact ⟨rfl, htype, hraw, hstream⟩
  · exact absurd hset (eq_false_iff.mp (hidle other))

theorem processNextPack_paired (h : Paired d) (answers : List Bool) :
    Meets (d.processNextPack answers) (fun r => Paired r.demuxer) Other := by
  unfold processNextPack
  split
  · exact ok ⟨h.pending, h.raw⟩
  rename_i stream hstream
  have hsome : d.stream.isSome = true := by
    rw [hstream]
    rfl
  split
  next hstate =>
    have hidle := h.idle (by rw [hstate]; decide)
    refine (nextSection_other d.rawEs _).bind fun sec _ hsec => ?_
    cases sec with
    | done => exact ok (Idle.paired hidle h.raw)
    | raw pack rest =>
      refine processRaw_paired ?_ ?_ rfl pack
      · exact hidle
      · exact h.raw (hsec.1 pack rest rfl)
    | progEnd => exact ok (Idle.paired hidle h.raw)
    | pack pack rest =>
      refine processPack_paired ?_ ?_ rfl pack answers
      · exact hidle
      · exact hsec.2 pack rest rfl
  next hstate =>
    exact processStream_paired h hstate hsome answers
  next hstate =>
    have hidle := h.idle (by rw [hstate]; decide)
    refine ok ?_
    split
    · exact Idle.paired hidle h.raw
    · exact h

theorem processNextPack_carried (h : Paired d) (answers : List Bool) {r : PackResult}
    (hr : d.processNextPack answers = .ok r) : Carried d (.processNextPack answers) r.demuxer := by
  intro key es hes hpending _
  have hkey : d.pending key = true := by
    rw [pending_of_streams hes]
    exact hpending
  have ⟨hstate, htype, hchannel, hstream⟩ := h.pending key hkey
  have ⟨stream, hstream⟩ := isSome_iff_exists.mp hstream
  have hes' : d.streams (key.1, d.packEsChannel) = some es := by
    rw [hchannel]
    exact hes
  simp only [processNextPack, hstream, hstate, processStream, htype, hes'] at hr
  cases hp : es.processPesPacketData answers with
  | error =>
    rw [hp] at hr
    cases hr
  | ok p =>
    rw [hp] at hr
    refine ⟨p.stream, ?_, .inr ⟨answers, p, rfl, hp, rfl⟩⟩
    have hstreams : r.demuxer.streams = (d.set (key.1, d.packEsChannel) (some p.stream)).streams := by
      rw [← Except.ok.inj hr]
      split
      · rfl
      · rfl
    rw [hstreams, hchannel]
    exact streams_set_self d key _

/-! ## Commands -/

theorem carried_of_ne {d' : Demuxer} (hkey : ∀ other, d'.streams other ≠ d.streams other →
    d.pending other = true → e.addresses other) : Carried d e d' := by
  intro other es hes hpending haddr
  refine ⟨es, ?_, .inl rfl⟩
  by_contra hne
  rw [← hes] at hne
  exact haddr (hkey other hne (by rw [pending_of_streams hes]; exact hpending))

theorem flushed_paired (h : Paired d) {es' : ElementaryStream} (hes' : es'.pending = false)
    (honly : ∀ other, d.pending other = true → other = key) :
    Paired { d.set key (some es') with state := .initial } := by
  have hidle := idle_set hes' fun other hother =>
    eq_false_iff.mpr fun hpending => hother (honly other hpending)
  exact Idle.paired hidle h.raw

theorem kept_paired (h : Paired d) {es es' : ElementaryStream} (hes : d.streams key = some es)
    (hes' : es'.pending = es.pending) : Paired { d.set key (some es') with state := d.state } := by
  refine ⟨fun other hother => h.pending other ?_, h.raw⟩
  have hset := hother
  rcases pending_cases hset with ⟨hkey, hset⟩ | hset
  · rw [hkey, pending_of_streams hes, ← hes']
    exact hset
  · exact hset

theorem streams_ne_of_set (es : Option ElementaryStream) {d' : Demuxer} (hd' : d'.streams = (d.set key es).streams)
    (hne : d'.streams other ≠ d.streams other) : other = key := by
  by_contra hother
  rw [hd', streams_set_of_ne d hother] at hne
  exact hne rfl

theorem discardAccessUnits_idle : Meets d.discardAccessUnits
    (fun d' => Idle d' ∧ d'.rawEs = d.rawEs ∧ d'.packEsChannel = d.packEsChannel) Other := by
  have hkeys : ∀ key, key ∈ Demuxer.keys := by decide
  have hfold : Meets d.discardAccessUnits (fun d' => (∀ key, key ∉ ([] : List Key) → d'.pending key = false) ∧
      d'.rawEs = d.rawEs ∧ d'.packEsChannel = d.packEsChannel) Other := by
    refine foldlM (R := fun (keys : List Key) (d' : Demuxer) => (∀ key, key ∉ keys → d'.pending key = false) ∧
      d'.rawEs = d.rawEs ∧ d'.packEsChannel = d.packEsChannel) ?_ ⟨fun key hkey => absurd (hkeys key) hkey, rfl, rfl⟩
    intro key keys d' ⟨hdone, hraw, hchannel⟩
    unfold discardAt
    split
    next hnone =>
      refine ⟨fun other hother => ?_, hraw, hchannel⟩
      by_cases hkey : other = key
      · exact hkey ▸ pending_of_none hnone
      · exact hdone other fun hmem => (mem_cons.mp hmem).elim hkey hother
    · refine map (discardAccessUnit_other.mono fun es' hes' => ⟨fun other hother => ?_, hraw, hchannel⟩)
      rw [pending_set]
      by_cases hkey : other = key
      · rw [if_pos hkey]
        exact hes'
      · rw [if_neg hkey]
        exact hdone other fun hmem => (mem_cons.mp hmem).elim hkey hother
  exact hfold.mono fun d' ⟨hidle, hkeep⟩ => ⟨fun key => hidle key not_mem_nil, hkeep⟩

theorem enableEs_paired (h : Paired d) (a : EnableEs) (hquiet : Undisturbed ⟨d, none⟩ (.enableEs a)) :
    Paired (d.enableEs a) ∧ Carried d (.enableEs a) (d.enableEs a) := by
  unfold enableEs
  split
  · exact ⟨h, carried_of_ne fun _ hne => absurd rfl hne⟩
  rename_i key hkey
  split
  · exact ⟨h, carried_of_ne fun _ hne => absurd rfl hne⟩
  rename_i hsome
  have hnone := not_isSome_iff_eq_none.mp hsome
  have hidle := pending_of_none hnone
  have ⟨htype, hraw⟩ := hquiet key hkey (by rw [hnone]; rfl)
  constructor
  · refine ⟨fun other hother => ?_, hraw⟩
    have hset := hother
    rcases pending_cases hset with ⟨_, hset⟩ | hset
    · cases hset
    · have ⟨hstate, _, hchannel, hstream⟩ := h.pending other hset
      exact ⟨hstate, congrArg some (htype other hset).symm, hchannel, hstream⟩
  · refine carried_of_ne fun other hne hpending => ?_
    have heq := streams_ne_of_set (some (a.newStream key.1)) rfl hne
    rw [heq, hidle] at hpending
    cases hpending

theorem disableEs_paired (h : Paired d) (streamId privateStreamId : Nat) :
    Paired (d.disableEs streamId privateStreamId) ∧
      Carried d (.disableEs streamId privateStreamId) (d.disableEs streamId privateStreamId) := by
  unfold disableEs
  split
  · exact ⟨h, carried_of_ne fun _ hne => absurd rfl hne⟩
  rename_i key hkey
  constructor
  · refine ⟨fun other hother => h.pending other ?_, h.raw⟩
    rcases pending_cases hother with ⟨_, hother⟩ | hother
    · cases hother
    · exact hother
  · refine carried_of_ne fun other hne _ => ?_
    have heq := streams_ne_of_set none rfl hne
    rw [heq]
    exact hkey

/-- A command does nothing, or calls `f` on the stream it names. -/
theorem command_paired {f : ElementaryStream → Except Fault ElementaryStream} {state : PackState}
    {Q : ElementaryStream → ElementaryStream → Prop} (h : Paired d) (streamId privateStreamId : Nat)
    (hf : ∀ es, Meets (f es) (Q es) Other) (hset : ∀ key es es',
      streamIdToTypeChannel streamId privateStreamId = some key → d.streams key = some es → Q es es' →
      Paired { d.set key (some es') with state := state } ∧ Carried d e { d.set key (some es') with state := state }) :
    Meets (d.command streamId privateStreamId f state) (fun d' => Paired d' ∧ Carried d e d') Other := by
  unfold command
  split
  · exact ⟨h, carried_of_ne fun _ hne => absurd rfl hne⟩
  rename_i key hkey
  split
  · exact ⟨h, carried_of_ne fun _ hne => absurd rfl hne⟩
  next es hes => exact map ((hf es).mono fun es' hes' => hset key es es' hkey hes hes')

end Demuxer

/-! ## Runs -/

variable {s s' : CommandState}

theorem execute_paired {d : Demuxer} (h : Paired d) (henabled : e.enabled d = true)
    (hquiet : Undisturbed ⟨d, none⟩ e) : Meets (d.execute e) (fun d' => Paired d' ∧ Carried d e d') Other := by
  cases e with
  | enableEs a => exact enableEs_paired h a hquiet
  | disableEs streamId privateStreamId => exact disableEs_paired h streamId privateStreamId
  | releaseAu streamId privateStreamId auSize =>
    refine command_paired h streamId privateStreamId (fun es => releaseAu_other auSize) ?_
    intro key es es' hkey hes hsame
    have hpending := congrArg (fun u => u.1.isSome) hsame
    refine ⟨kept_paired h hes hpending, fun other es1 hes1 _ _ => ?_⟩
    by_cases heq : other = key
    · rw [heq] at hes1 ⊢
      rw [hes] at hes1
      cases hes1
      exact ⟨es', streams_set_self d key _, .inl hsame⟩
    · exact ⟨es1, (streams_set_of_ne d heq _).trans hes1, .inl rfl⟩
  | flushEs streamId privateStreamId =>
    refine command_paired h streamId privateStreamId (fun es => flushEs_other) ?_
    intro key es es' hkey hes hnone
    have honly := hquiet key hkey (by rw [hes]; rfl)
    refine ⟨flushed_paired h hnone honly, carried_of_ne fun other hne _ => ?_⟩
    rw [streams_ne_of_set (some es') rfl hne]
    exact hkey
  | setStream stream continuity =>
    have hwork : d.stream = none := by
      have hneg : (!d.hasWork) = true := henabled
      have hnot : d.hasWork = false := by simpa using hneg
      cases hstream : d.stream with
      | none => rfl
      | some =>
        rw [hasWork, hstream] at hnot
        cases hnot
    have hidle := h.idle_of_stream hwork
    have hdiscard : Meets (d.interrupt continuity)
        (fun d' => Idle d' ∧ d'.rawEs = d.rawEs ∧ d'.packEsChannel = d.packEsChannel) Other :=
      ite (fun _ => ⟨hidle, rfl, rfl⟩) fun _ => discardAccessUnits_idle
    refine hdiscard.bind fun d' _ ⟨hidle', hraw, hchannel⟩ => ok ⟨Idle.paired hidle' ?_, ?_⟩
    · rw [hraw, hchannel]
      exact h.raw
    · exact carried_of_ne fun other _ hpending => absurd hpending (eq_false_iff.mp (hidle other))
  | resetStream =>
    refine discardAccessUnits_idle.bind fun d' _ ⟨hidle', hraw, hchannel⟩ => ok ⟨Idle.paired hidle' ?_, ?_⟩
    · rw [hraw, hchannel]
      exact h.raw
    · exact fun _ _ _ _ haddr => absurd trivial haddr
  | resetEs streamId privateStreamId auAddr =>
    refine command_paired h streamId privateStreamId (fun es => resetEs_other auAddr) ?_
    intro key es es' hkey hes hpending
    refine ⟨?_, carried_of_ne fun other hne _ => ?_⟩
    · cases auAddr with
      | none => exact flushed_paired h hpending (hquiet key hkey (by rw [hes]; rfl))
      | some => exact kept_paired h hes hpending
    · rw [streams_ne_of_set (some es') rfl hne]
      exact hkey
  | processNextPack answers =>
    refine map ?_
    cases hr : d.processNextPack answers with
    | error =>
      have hother := (processNextPack_paired h answers).fault hr
      exact hother
    | ok => exact ⟨(processNextPack_paired h answers).value hr, processNextPack_carried h answers hr⟩

theorem commandStep_paired (h : Paired s.demuxer) (hquiet : Undisturbed s e) (hstep : commandStep s e = some s') :
    Paired s'.demuxer ∧ s'.fault ≠ some (.ensure .pesPacketPending) ∧
      (s'.fault = none → Carried s.demuxer e s'.demuxer) := by
  have ⟨hgo, hstep⟩ := ite_none_right_eq_some.mp hstep
  have hexecute := execute_paired h hgo.2 (by cases e <;> exact hquiet)
  cases hstep
  cases hd : s.demuxer.execute e with
  | error =>
    have hother := hexecute.fault hd
    exact ⟨h, fun hf => hother (Option.some.inj hf), nofun⟩
  | ok =>
    have ⟨hpaired, hcarried⟩ := hexecute.value hd
    refine ⟨hpaired, ?_, fun _ => hcarried⟩
    show s.fault ≠ _
    rw [hgo.1]
    exact nofun

/-- `set_pes_packet_data` finds no packet there, and no step loses a packet of a stream that it is not for. -/
structure CommandsSafe (s : CommandState) : Prop where
  handed : s.fault ≠ some (.ensure .pesPacketPending)
  paired : Paired s.demuxer
  carried : ∀ e s', (commandSystem.restrict Undisturbed).step s e = some s' → s'.fault = none →
    Carried s.demuxer e s'.demuxer

/-- In every run in which `enable_es`, `flush_es` and `reset_es` come while no other stream has a packet. -/
theorem commands_safe (hs : (commandSystem.restrict Undisturbed).Reachable s) : CommandsSafe s := by
  have hinv : s.fault ≠ some (.ensure .pesPacketPending) ∧ Paired s.demuxer := by
    refine hs.invariant (P := fun s => s.fault ≠ some (.ensure .pesPacketPending) ∧ Paired s.demuxer) ?_ ?_
    · intro s₀ h₀
      have hs₀ := h₀
      rw [hs₀]
      exact ⟨nofun, nofun, fun _ => rfl⟩
    · intro s₁ e s₂ ⟨_, hpaired⟩ hstep
      have ⟨hquiet, hstep⟩ := System.step_restrict.mp hstep
      have ⟨hpaired', hfault, _⟩ := commandStep_paired hpaired hquiet hstep
      exact ⟨hfault, hpaired'⟩
  refine ⟨hinv.1, hinv.2, fun e s' hstep => ?_⟩
  have ⟨hquiet, hstep⟩ := System.step_restrict.mp hstep
  exact (commandStep_paired hinv.2 hquiet hstep).2.2

def enableVideo (streamId : Nat) : EnableEs where
  streamId := streamId
  privateStreamId := 0
  isAvc := true
  bufferSize := 64
  buffer := fun _ => 0
  auMaxSize := 32
  rawEs := false

/-- A pack with one access unit, of five bytes, for the first video stream. -/
def videoPack : List UInt8 :=
  [0, 0, 1, 0xba, 0, 0, 0, 0, 0, 0, 0, 0, 0, 0] ++ [0, 0, 1, 0xe0, 0, 12, 0, 0, 0] ++ [0, 0, 1, 9, 0xaa, 0, 0, 1, 9]

/-- The access unit is not accepted, and another stream of the same type is enabled. -/
theorem commands_safe_stalled : ∃ s, (commandSystem.restrict Undisturbed).Reachable s ∧
    s.demuxer.pending (.video, 0) = true ∧ CommandsSafe s :=
  System.Reachable.exists_of_run_and commands_safe rfl
    [.enableEs (enableVideo 0xe0), .setStream videoPack true, .processNextPack [], .enableEs (enableVideo 0xe1)]
    (by decide +kernel)

/-- A stream is flushed while another one has a packet, which is still there when its next one comes. -/
theorem flush_packet_pending : ∃ s, commandSystem.Reachable s ∧ s.fault = some (.ensure .pesPacketPending) :=
  System.Reachable.exists_of_run rfl
    [.enableEs (enableVideo 0xe0), .enableEs (enableVideo 0xe1), .setStream videoPack true, .processNextPack [],
      .flushEs 0xe1 0, .processNextPack [true], .setStream videoPack true, .processNextPack []] _ (by decide +kernel)

end Armsx3.Cell.DmuxPamf
