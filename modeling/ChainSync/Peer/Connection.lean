import ChainSync.Net.SocketAddress
import ChainSync.Wire.Reader

/-!
# Connections

One end of a stream of frames: what has arrived and was not read, how the
remote's side ended, and whether writing still reaches anyone.
-/

namespace ChainSync

inductive RemoteSide
  | sending
  | finished
  /-- It went away before reading everything; this is said once. -/
  | reset
deriving DecidableEq

structure Connection where
  addr : SocketAddress
  reader : FrameReader
  /-- Bytes that have arrived and were not read yet. -/
  arrived : Bytes
  remote : RemoteSide
  /-- Whether the remote still takes what is written. -/
  writable : Bool
  /-- Whether a frame could not be written. -/
  unsent : Bool
  /-- Whether the two directions are used on their own. -/
  split : Bool

namespace Connection

def fresh (addr : SocketAddress) (magic : UInt32) : Connection :=
  ⟨addr, .empty magic, [], .sending, true, false, false⟩

def deliver (bs : Bytes) (c : Connection) : Connection :=
  { c with arrived := c.arrived ++ bs }

/-- Looks at how the remote's side ends, all that arrived having been read. -/
def pollEnd [Digest] (c : Connection) : Connection × Arrival :=
  match c.remote with
  | .sending => (c, .waiting)
  | .finished => c.reader.pollAtEnd.map ({ c with reader := · }) id
  | .reset =>
    (c.reader.abort (.io "ConnectionReset")).map ({ c with reader := ·, remote := .finished }) id

/-- Takes the next packet off the stream, reading from it only when the buffer has none. -/
def poll [Digest] (c : Connection) : Connection × Arrival :=
  match c.reader.poll with
  | (reader, .waiting) =>
    if c.arrived.isEmpty then { c with reader }.pollEnd
    else
      match (reader.feed c.arrived).poll with
      | (reader, .waiting) => { c with reader, arrived := [] }.pollEnd
      | (reader, a) => ({ c with reader, arrived := [] }, a)
  | (reader, a) => ({ c with reader }, a)

/-- The message in a packet, for a receiver that takes any. -/
def messageOf (p : Packet) : Except NetError Message :=
  (Message.decode p).mapError .ofStop

/-- Waits for a message until the deadline. -/
def receive [Digest] (c : Connection) : Connection × Except NetError (Message × Packet) :=
  match c.poll with
  | (c, .waiting) => (c, .error (.timeout (if c.split then s!"read from {c.addr.toText}" else "read")))
  | (c, .packet p) => (c, (messageOf p).map (·, p))
  | (c, .failure e) => (c, .error e)
  | (c, .ended) => (c, .error .connectionClosed)

def send [Digest] (m : Message) (c : Connection) : Connection × Except NetError Bytes :=
  match Frame.encode c.reader.magic m.toPacket with
  | .error e => (c, .error e)
  | .ok bs => if c.writable then (c, .ok bs) else ({ c with unsent := true }, .error (.io "BrokenPipe"))

/-- Closes this end, which means to write what is left. -/
def close (c : Connection) : Except NetError Unit :=
  if c.unsent then .error (.io "BrokenPipe") else .ok ()

/-- The other end, closed or dropped, is gone; `unread` says whether it left anything unread. -/
def loseRemote (unread : Bool) (c : Connection) : Connection :=
  { c with writable := false, remote := if unread then .reset else .finished }

end Connection

end ChainSync
