import Armsx3.Library.OrderedMap
import Armsx3.Library.Transition

/-!
# TcpTimeoutMonitor — messages that wait for their acknowledgement

`tcp_timeout_monitor` keeps each message in a map whose key is the time at which it is to be sent again.  Of a message
only the fields the monitor looks at are kept; the number of the `add_message` call stands for the rest.
-/

namespace Armsx3.TcpTimeout

open Transition

structure Message where
  sockId : Int
  seq : Nat
  initialSendtime : Nat
  id : Nat
deriving DecidableEq, Repr

/-- `rttTime` is in milliseconds. -/
structure RttInfo where
  numRetries : Nat
  rttTime : Nat
deriving DecidableEq, Repr

def ms (n : Nat) : Nat := n * 1000000

/-- `clock` is the last reading.  `added` are all messages, and `excused` the ids of those that need not be
sent again: they have been acknowledged or cleared, or their stream is closed. -/
structure State where
  msgs : OrderedMap Nat Message
  rtts : Int → RttInfo
  clock : Nat
  added : List Message
  excused : List Nat

def State.excuse (s : State) (p : Message → Bool) : List Nat :=
  s.excused ++ (s.added.filter p).map Message.id

/-! ## Calls of the sockets -/

def expectedTime (rtt : RttInfo) (now : Nat) : Nat := now + ms rtt.rttTime

def addMessage (s : State) (sockId : Int) (seq now : Nat) : State :=
  let msg : Message := ⟨sockId, seq, now, s.added.length⟩
  { s with msgs := s.msgs.emplace (expectedTime (s.rtts sockId) now) msg
           clock := now
           added := s.added ++ [msg] }

/-- What the loop of `confirm_data_received` does to the round-trip time for one confirmed message. -/
def confirmRtt (now : Nat) (rtt : RttInfo) (x : Nat × Message) : RttInfo :=
  if now < x.1 then
    let actualRtt := (now - x.2.initialSendtime) / 1000000
    if rtt.rttTime > actualRtt then { rtt with rttTime := (actualRtt + rtt.rttTime) / 2 } else rtt
  else rtt

def Message.confirmed (sockId : Int) (ack : Nat) (m : Message) : Bool :=
  m.sockId = sockId ∧ m.seq < ack

def confirmDataReceived (s : State) (sockId : Int) (ack now : Nat) : State :=
  let confirmed := s.msgs.entries.filter fun x => x.2.confirmed sockId ack
  { s with msgs := s.msgs.eraseIf fun x => x.2.confirmed sockId ack
           rtts := Function.update s.rtts sockId
             (confirmed.foldl (confirmRtt now) { s.rtts sockId with numRetries := 0 })
           clock := now
           excused := s.excuse (Message.confirmed sockId ack) }

def clearAllMessages (s : State) (sockId : Int) : State :=
  { s with msgs := s.msgs.eraseIf fun x => x.2.sockId = sockId
           excused := s.excuse fun m => m.sockId = sockId }

/-! ## The monitor -/

inductive Outcome
  | sent
  | failed
  | noSocket
deriving DecidableEq, Repr

/-- The variables of one turn of `operator()`; `gone` are sockets that do not exist any more. -/
structure Wake where
  msgs : OrderedMap Nat Message
  rtts : Int → RttInfo
  rttIncreased : List Int
  streamsToClose : List Int
  gone : List Int

def RttInfo.increased (rtt : RttInfo) : RttInfo := ⟨rtt.numRetries + 1, rtt.rttTime + rtt.rttTime / 10⟩

/-- The reply is late: the round-trip time goes up, once in a turn for a socket. -/
def Wake.late (w : Wake) (sockId : Int) : Wake :=
  if sockId ∈ w.rttIncreased then w
  else
    { w with rtts := Function.update w.rtts sockId (w.rtts sockId).increased
             rttIncreased := sockId :: w.rttIncreased }

def Wake.message (w : Wake) (now : Nat) (outcome : Outcome) (key : Nat) (msg : Message) : Wake :=
  let w := w.late msg.sockId
  let rtt := w.rtts msg.sockId
  if 10 ≤ rtt.numRetries then
    { w with streamsToClose := w.streamsToClose ++ [msg.sockId], msgs := w.msgs.erase key }
  else
    match outcome with
    | .noSocket => { w with gone := w.gone ++ [msg.sockId], msgs := w.msgs.erase key }
    | .failed => { w with streamsToClose := w.streamsToClose ++ [msg.sockId], msgs := w.msgs.erase key }
    | .sent => { w with msgs := (w.msgs.emplace (expectedTime rtt now) msg).erase key }

/-- The loop over the messages whose time has come; `outcome` gives what comes of each attempt. -/
def wakeLoop (now : Nat) (outcome : Nat → Outcome) : (fuel : Nat) → Wake → Option Wake
  | 0, _ => none
  | n + 1, w =>
    match w.msgs.begin? with
    | none => some w
    | some (key, msg) =>
      if key > now then some w else wakeLoop now outcome n (w.message now (outcome n) key msg)

/-- One turn of `operator()`.  A message is visited twice at most: a second time only if its round-trip time
is 0. -/
def wakeUp (s : State) (now : Nat) (outcome : Nat → Outcome) : Option Wake :=
  wakeLoop now outcome (2 * s.msgs.entries.length + 1) ⟨s.msgs, s.rtts, [], [], []⟩

/-- The state after the turn.  The streams to close are closed outside of the lock, each of which clears
the messages of its socket. -/
def State.afterWake (s : State) (now : Nat) (w : Wake) : State :=
  { s with msgs := w.msgs
           rtts := w.rtts
           clock := now
           excused := s.excuse fun m => m.sockId ∈ w.streamsToClose ∨ m.sockId ∈ w.gone }

/-! ## Calls in any order -/

inductive Event
  | addMessage (sockId : Int) (seq now : Nat)
  | confirmDataReceived (sockId : Int) (ack now : Nat)
  | clearAllMessages (sockId : Int)
  | wakeUp (now : Nat) (outcome : Nat → Outcome)

def step (s : State) : Event → Option State
  | .addMessage sockId seq now => if s.clock ≤ now then some (addMessage s sockId seq now) else none
  | .confirmDataReceived sockId ack now =>
    if s.clock ≤ now then some (confirmDataReceived s sockId ack now) else none
  | .clearAllMessages sockId => some (clearAllMessages s sockId)
  | .wakeUp now outcome =>
    if s.clock ≤ now then (wakeUp s now outcome).map (s.afterWake now) else none

def initial : State := ⟨.empty, fun _ => ⟨0, 50⟩, 0, [], []⟩

def system : System State Event := ⟨fun s => s = initial, step⟩

end Armsx3.TcpTimeout
