import ChainSync.Peer.Weight
import ChainSync.Wire.Message
import ChainSync.Wire.Error

/-!
# Peers

A remote node as the pool sees it. Messages to it wait in a bounded
outbox; requests only queue, and answers come back as events. Once
disconnected a peer stays so, and the first reason given sticks.
-/

namespace ChainSync

abbrev PeerId := Nat

inductive PeerState
  | connecting
  | handshaking
  | active
  | disconnected
deriving DecidableEq, Inhabited

inductive DisconnectReason
  /-- The remote closed the stream, or a write failed. -/
  | closed
  /-- Nothing came within the read timeout. -/
  | stalled
  | protocolViolation
  /-- Evicted for too many errors or timeouts. -/
  | replaced
  | shutdown
deriving DecidableEq, Inhabited

def PeerState.name : PeerState → String
  | connecting => "connecting"
  | handshaking => "handshaking"
  | active => "active"
  | disconnected => "disconnected"

namespace DisconnectReason

def name : DisconnectReason → String
  | closed => "closed"
  | stalled => "stalled"
  | protocolViolation => "protocol_violation"
  | replaced => "replaced"
  | shutdown => "shutdown"

/-- The reason of this name, shutdown if none has it. -/
def ofName (s : String) : DisconnectReason :=
  ([closed, stalled, protocolViolation, replaced].find? (·.name = s)).getD shutdown

end DisconnectReason

def outboxCapacity : Nat := 100

structure Peer where
  id : PeerId
  addr : SocketAddress
  inbound : Bool
  state : PeerState
  remote : Option Version
  bestHeight : Nat
  weight : Weight
  /-- Messages waiting to be written, oldest first. -/
  outbox : List Message
  /-- Whether anything still takes messages out. -/
  outboxOpen : Bool
  reason : Option DisconnectReason
  /-- Whether the pool counts this peer among its own. -/
  pooled : Bool
deriving DecidableEq, Inhabited

namespace Peer

def connecting (id : PeerId) (addr : SocketAddress) (inbound : Bool) (now : Instant) : Peer where
  id
  addr
  inbound
  state := .connecting
  remote := none
  bestHeight := 0
  weight := .fresh now
  outbox := []
  outboxOpen := true
  reason := none
  pooled := false

/-- Where other nodes reach this peer: the address dialed, or for an inbound peer its own address
with the port it says it listens on. -/
def listenAddr? (p : Peer) : Option SocketAddress :=
  if ¬ p.inbound then some p.addr
  else
    match p.remote with
    | some v => if v.port = 0 then none else some (.ofIp p.addr.ip v.port)
    | none => none

def isActive (p : Peer) : Bool :=
  p.state == .active

/-- Whether the tasks of this peer were told to stop. -/
def cancelled (p : Peer) : Bool :=
  p.reason.isSome

/-- Raises the advertised height; nothing lowers it. -/
def raiseHeight (height : Nat) (p : Peer) : Peer :=
  { p with bestHeight := max p.bestHeight height }

def activate (v : Version) (p : Peer) : Peer :=
  { p with bestHeight := max p.bestHeight v.startHeight.toNat, remote := some v, state := .active }

def disconnect (reason : DisconnectReason) (p : Peer) : Peer :=
  { p with reason := p.reason.or (some reason), state := .disconnected }

def addSpeed (speed : Rate) (p : Peer) : Peer :=
  { p with weight := p.weight.addSpeed speed }

def addError (p : Peer) : Peer :=
  { p with weight := p.weight.addError }

def addTimeout (p : Peer) : Peer :=
  { p with weight := p.weight.addTimeout }

def idText (id : PeerId) : String :=
  s!"#{id}"

/-! ## Sending -/

def send (m : Message) (p : Peer) : Peer × Except NetError Unit :=
  if p.state = .disconnected then (p, .error .connectionClosed)
  else if ¬ p.outboxOpen then (p, .error (.sendQueue s!"{idText p.id}: channel closed"))
  else if outboxCapacity ≤ p.outbox.length then
    (p, .error (.sendQueue s!"{idText p.id}: no available capacity"))
  else ({ p with outbox := p.outbox ++ [m] }, .ok ())

def noteRequest (now : Instant) (p : Peer) : Peer :=
  { p with weight := p.weight.addRequest now }

def getHeaders (now : Instant) (start : Hash) (p : Peer) : Peer × Except NetError Unit :=
  (p.noteRequest now).send (.getheaders (.behind start))

def getBlocks (now : Instant) (start : Hash) (p : Peer) : Peer × Except NetError Unit :=
  (p.noteRequest now).send (.getblocks (.behind start))

/-- Asks for things by hash; only asking for blocks counts as a request. -/
def getData (now : Instant) (kind : InventoryKind) (hashes : List Hash) (p : Peer) :
    Peer × Except NetError Unit :=
  if hashes.isEmpty then (p, .ok ())
  else
    let p := if kind = .block then p.noteRequest now else p
    p.send (.getdata ⟨kind, hashes⟩)

def getAddresses (p : Peer) : Peer × Except NetError Unit :=
  p.send .getaddr

def drain (p : Peer) : Peer × List Message :=
  ({ p with outbox := [] }, p.outbox)

/-! ## Descriptions -/

def stateName : PeerState → String
  | .connecting => "Connecting"
  | .handshaking => "Handshaking"
  | .active => "Active"
  | .disconnected => "Disconnected"

def describe (p : Peer) : String :=
  "Peer \x7b id: PeerId(" ++ toString p.id ++ "), addr: " ++ p.addr.toText ++ ", state: " ++
    stateName p.state ++ ", best_height: " ++ toString p.bestHeight ++ " \x7d"

end Peer

end ChainSync
