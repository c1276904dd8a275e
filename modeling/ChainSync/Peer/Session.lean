import ChainSync.Peer.Event
import ChainSync.Peer.Exchange

/-!
# Sessions

A peer over a stream: first the version exchange, then a reader that
dispatches every message that arrives and a writer that empties the outbox.
The session ends once, with the reason recorded first; what was still
queued is lost then.
-/

namespace ChainSync

structure Session where
  peer : Peer
  reader : FrameReader
  writable : Bool

/-- What a step of a session brings about. -/
structure Activity where
  events : List PeerEvent
  sent : List Message

namespace Session

/-- How a failed exchange is recorded. -/
def reasonOf (e : NetError) : DisconnectReason :=
  if e.isViolation then .protocolViolation else .closed

/-- The version exchange as seen by the peer. -/
def shakeHands [Digest] (own : Version) (c : Connection) (p : Peer) :
    Peer × Exchange × Except NetError Version :=
  let (x, _) := Exchange.run own c
  match x.result with
  | .ok remote => (p.activate remote, x, .ok remote)
  | .error e => (p.disconnect (reasonOf e), x, .error e)

/-- Ends the session; nothing happens to one that is over. -/
def finish (reason : DisconnectReason) (s : Session) : Session × List PeerEvent :=
  if s.peer.state = .disconnected then (s, [])
  else
    let peer := s.peer.disconnect reason
    ({ s with peer }, [.pool (.disconnected peer.id peer.addr (peer.reason.getD reason))])

/-- Why a session ends that cannot read on. -/
def readReason (e : NetError) : DisconnectReason :=
  if e.isTimeout then .stalled else reasonOf e

/-- Takes packets off the stream and dispatches their messages, until more has to arrive or reading fails. -/
def readOn [Digest] (now : Instant) (s : Session) : Session × List PeerEvent × Option NetError :=
  match _h : s.reader.poll with
  | (reader, .waiting) => ({ s with reader }, [], none)
  | (reader, .ended) => ({ s with reader }, [], some .connectionClosed)
  | (reader, .failure e) => ({ s with reader }, [], some e)
  | (reader, .packet packet) =>
    match Connection.messageOf packet with
    | .error e => ({ s with reader }, [], some e)
    | .ok m =>
      let (peer, event) := s.peer.dispatch now m packet.payload
      let (s, events, error) := readOn now { s with peer, reader }
      (s, event.toList ++ events, error)
termination_by s.reader.buffer.length
decreasing_by exact FrameReader.poll_packet_length (by assumption)

/-- Reads on, and ends the session if that fails. -/
def read [Digest] (now : Instant) (s : Session) : Session × List PeerEvent :=
  match s.readOn now with
  | (s, events, none) => (s, events)
  | (s, events, some e) =>
    let (s, last) := s.finish (readReason e)
    (s, events ++ last)

def arrive [Digest] (now : Instant) (bs : Bytes) (s : Session) : Session × List PeerEvent :=
  if s.peer.state = .disconnected then (s, [])
  else { s with reader := s.reader.feed bs }.read now

/-- The remote's stream ends; an unfinished frame is lost. -/
def arriveEnd [Digest] (now : Instant := 0) (s : Session) : Session × List PeerEvent :=
  if s.peer.state = .disconnected then (s, [])
  else { s with reader := s.reader.atEnd }.read now

def stall (s : Session) : Session × List PeerEvent :=
  s.finish .stalled

def flush (s : Session) : Session × Activity :=
  if s.peer.state = .disconnected || s.peer.outbox.isEmpty then (s, ⟨[], []⟩)
  else if s.writable then
    let (peer, sent) := s.peer.drain
    ({ s with peer }, ⟨[], sent⟩)
  else (s.finish .closed).map id fun events => ⟨events, []⟩

/-- Whatever a step did, its messages are written next. -/
def thenFlush (step : Session × List PeerEvent) : Session × Activity :=
  let (s, a) := step.1.flush
  (s, { a with events := step.2 ++ a.events })

/-- Begins to read and write behind an exchange that succeeded. What has arrived is dispatched. -/
def start [Digest] (now : Instant) (p : Peer) (c : Connection) : Session × Activity :=
  let s : Session := ⟨p, c.reader, c.writable⟩
  let (s, events) := s.arrive now c.arrived
  match c.remote with
  | .sending => thenFlush (s, events)
  | _ =>
    let (s, last) := s.arriveEnd now
    thenFlush (s, events ++ last)

end Session

end ChainSync
