import Armsx3.Library.Reassembly
import Armsx3.Library.Transition

/-!
# P2psStream — stream sockets over datagrams

`lv2_socket_p2ps` carries a stream of bytes in datagrams with sequence numbers.  The network keeps every datagram ever
sent and can deliver any of them at any time, as often as it likes or never.  Ports and checksums, which are the same on
both sides, and the timeout monitor, which only resends, are left out.
-/

namespace Armsx3.P2ps

open Transition

abbrev Bytes := List UInt8

inductive Status
  | closed
  | listening
  | handshaking
  | connected
  | disconnected
deriving DecidableEq, Repr

abbrev TcpFlags := BitVec 8

def fin : TcpFlags := 0x01
def syn : TcpFlags := 0x02
def rst : TcpFlags := 0x04
def psh : TcpFlags := 0x08
def ack : TcpFlags := 0x10

/-- `p2ps_encapsulated_tcp` with the data that follow it; `length` is that of the data. -/
structure Packet where
  flags : TcpFlags
  seq : Nat
  ack : Nat
  data : Bytes
deriving DecidableEq, Repr

def headerSize : Nat := 6 + 32

def generateU2sPacket (p : Packet) : Option Packet :=
  if headerSize + p.data.length < 65535 then some p else none

def wrap (n : Nat) : Nat := n % 2 ^ 64

structure Socket where
  status : Status
  dataBegSeq : Nat
  dataAvailable : Nat
  receivedData : OrderedMap Nat Bytes
  curSeq : Nat

/-! ## Receiving datagrams -/

/-- The loop of `send_ack`; each turn but the last meets one more entry, unless an entry is empty and the
loop does not end. -/
def finalAck (receivedData : OrderedMap Nat Bytes) : (fuel : Nat) → (finalAck : Nat) → Option Nat
  | 0, _ => none
  | n + 1, a =>
    match receivedData.find? a with
    | none => some a
    | some d => finalAck receivedData n (wrap (a + d.length))

def sendAck (s : Socket) : Option (Socket × List Packet) :=
  (finalAck s.receivedData (s.receivedData.entries.length + 1) s.dataBegSeq).bind fun a =>
    (generateU2sPacket ⟨ack, 0, a, []⟩).map fun p =>
      ({ s with dataAvailable := wrap (a + 2 ^ 64 - s.dataBegSeq) }, [p])

def handleConnected (s : Socket) (p : Packet) : Option (Socket × List Packet) :=
  if s.status ≠ .connected ∧ s.status ≠ .handshaking then some (s, [])
  else if s.status = .handshaking then
    if p.flags = syn ||| ack then
      sendAck { s with dataBegSeq := wrap (p.seq + 1), status := .connected }
    else some (s, [])
  else if p.flags = 0 ∨ p.flags = psh ∨ p.flags = ack ∨ p.flags = syn ∨ p.flags = syn ||| ack then
    if p.seq < s.dataBegSeq then
      -- the data have been processed already
      if p.flags ≠ ack then sendAck s else some (s, [])
    else sendAck { s with receivedData := s.receivedData.emplace p.seq p.data }
  else if p.flags = rst ∨ p.flags = fin then some ({ s with status := .disconnected }, [])
  else some (s, [])

/-! ## Reading and writing -/

inductive RecvResult
  | given (data : Bytes)
  | notConn
  | wouldBlock
  | blocked
deriving DecidableEq, Repr

def RecvResult.data : RecvResult → Bytes
  | .given d => d
  | _ => []

/-- The loop of `recvfrom`; it has no value if it goes on to read where there is no entry. -/
def recvLoop : (fuel : Nat) → (leftToGive : Nat) → OrderedMap Nat Bytes → (destBuf : Bytes) →
    Option (OrderedMap Nat Bytes × Bytes)
  | _, 0, m, buf => some (m, buf)
  | 0, _ + 1, _, _ => none
  | n + 1, left + 1, m, buf =>
    match m.begin? with
    | none => none
    | some (key, curData) =>
      let toGive := min curData.length (left + 1)
      let m := if curData.length ≠ toGive then
          m.emplace (wrap (key + toGive)) (curData.drop toGive) else m
      recvLoop n (left + 1 - toGive) m.eraseBegin (buf ++ curData.take toGive)

/-- `recvfrom`; `nonblocking` is `so_nbio || (flags & SYS_NET_MSG_DONTWAIT)`. -/
def recvfrom (s : Socket) (len : Nat) (nonblocking : Bool) : Option (Socket × RecvResult) :=
  if s.dataAvailable = 0 then
    if s.status = .disconnected then some (s, .given [])
    else if s.status = .closed then some (s, .notConn)
    else if nonblocking then some (s, .wouldBlock)
    else some (s, .blocked)
  else
    let toGive := min s.dataAvailable len
    (recvLoop s.receivedData.entries.length toGive s.receivedData []).map fun (m, buf) =>
      ({ s with receivedData := m
                dataAvailable := s.dataAvailable - toGive
                dataBegSeq := wrap (s.dataBegSeq + toGive) }, .given buf)

def maxDataLen : Nat := 65535 - headerSize

/-- The loop of `sendto` over what is left of the buffer. -/
def sendLoop : (fuel : Nat) → (curSeq : Nat) → Bytes → Option (Nat × List Packet)
  | _, curSeq, [] => some (curSeq, [])
  | 0, _, _ :: _ => none
  | n + 1, curSeq, b :: bs =>
    let curDataLen := min (b :: bs).length maxDataLen
    (generateU2sPacket ⟨0, curSeq, 0, (b :: bs).take curDataLen⟩).bind fun p =>
      (sendLoop n (wrap (curSeq + curDataLen)) ((b :: bs).drop curDataLen)).map fun (curSeq, ps) =>
        (curSeq, p :: ps)

inductive SendResult
  | accepted
  | connReset
  | notConn
deriving DecidableEq, Repr

def sendto (s : Socket) (buf : Bytes) : Option (Socket × SendResult × List Packet) :=
  if s.status = .disconnected then some (s, .connReset, [])
  else if s.status = .closed then some (s, .notConn, [])
  else (sendLoop buf.length s.curSeq buf).map fun (curSeq, ps) =>
    ({ s with curSeq := curSeq }, .accepted, ps)

/-! ## Two peers -/

inductive Side
  | a
  | b
deriving DecidableEq, Repr

def Side.peer : Side → Side
  | .a => .b
  | .b => .a

/-- `net i` are the datagrams `i` has sent.  `sent i` are the bytes `sendto` of `i` has accepted and
`given i` those `recvfrom` of `i` has returned, from the beginning. -/
structure State where
  sock : Side → Socket
  net : Side → List Packet
  sent : Side → Bytes
  given : Side → Bytes

inductive Event
  | send (i : Side) (buf : Bytes)
  | recv (i : Side) (len : Nat) (nonblocking : Bool)
  /-- the network delivers the `n`-th datagram of the peer -/
  | deliver (i : Side) (n : Nat)
  /-- the timeout monitor gives up -/
  | closeStream (i : Side)
deriving Repr

open Function (update) in
def step (s : State) : Event → Option State
  | .send i buf =>
    if (s.sock i).curSeq + buf.length < 2 ^ 64 then
      (sendto (s.sock i) buf).map fun (sock, result, ps) =>
        { s with sock := update s.sock i sock
                 net := update s.net i (s.net i ++ ps)
                 sent := update s.sent i (s.sent i ++ if result = .accepted then buf else []) }
    else none
  | .recv i len nonblocking =>
    (recvfrom (s.sock i) len nonblocking).map fun (sock, result) =>
      { s with sock := update s.sock i sock
               given := update s.given i (s.given i ++ result.data) }
  | .deliver i n =>
    (s.net i.peer)[n]?.bind fun p =>
      (handleConnected (s.sock i) p).map fun (sock, ps) =>
        { s with sock := update s.sock i sock
                 net := update s.net i (s.net i ++ ps) }
  | .closeStream i =>
    some { s with sock := update s.sock i { s.sock i with status := .disconnected } }

/-- A side numbers its first byte with `start`, which is one more than the number in its handshake
datagram; those of the handshake, without data, may still be on the way. -/
structure Connected (start : Side → Nat) (s : State) : Prop where
  start_pos : ∀ i, 0 < start i
  start_lt : ∀ i, start i < 2 ^ 64
  status : ∀ i, (s.sock i).status = .connected
  curSeq : ∀ i, (s.sock i).curSeq = start i
  dataBegSeq : ∀ i, (s.sock i).dataBegSeq = start i.peer
  dataAvailable : ∀ i, (s.sock i).dataAvailable = 0
  receivedData : ∀ i, (s.sock i).receivedData = .empty
  net : ∀ i, ∀ p ∈ s.net i, p.data = [] ∧ p.seq < start i
  sent : ∀ i, s.sent i = []
  given : ∀ i, s.given i = []

def system : System State Event := ⟨fun s => ∃ start, Connected start s, step⟩

end Armsx3.P2ps
