import ChainSync.Wire.Decoder

/-!
# Network errors

What can go wrong between two nodes, and how each of it is worded.
-/

namespace ChainSync

inductive NetError
  | connectionFailed (text : String)
  | connectionClosed
  | handshakeFailed (text : String)
  /-- The remote showed this node's own nonce. -/
  | selfConnection
  | invalidMessage (cause : Malformed)
  | checksumMismatch (expected actual : String)
  | lengthMismatch (declared actual : Nat)
  | messageTooLarge (size max : Nat)
  | magicMismatch (expected got : UInt32)
  | peerNotFound (text : String)
  | tooManyConnections (count max : Nat)
  /-- A peer's outbound queue is full or gone. -/
  | sendQueue (text : String)
  /-- A service is used against its life cycle. -/
  | service (text : String)
  | timeout (text : String)
  | io (text : String)
deriving DecidableEq

namespace NetError

def message : NetError → String
  | connectionFailed text => s!"Connection failed: {text}"
  | connectionClosed => "Connection closed"
  | handshakeFailed text => s!"Handshake failed: {text}"
  | selfConnection => "Connected to self"
  | invalidMessage cause => s!"Invalid message: {cause.message}"
  | checksumMismatch expected actual => s!"Checksum mismatch: expected {expected}, got {actual}"
  | lengthMismatch declared actual => s!"Length mismatch: header says {declared} bytes, got {actual}"
  | messageTooLarge size max => s!"Message too large: {size} bytes, max {max} bytes"
  | magicMismatch expected got =>
    s!"Network magic mismatch: expected {hexNumber 8 expected.toNat}, got {hexNumber 8 got.toNat}"
  | peerNotFound text => s!"Peer not found: {text}"
  | tooManyConnections count max => s!"Too many connections: {count}, max {max}"
  | sendQueue text => s!"Send queue unavailable for peer {text}"
  | service text => s!"Service error: {text}"
  | timeout text => s!"Timeout: {text}"
  | io text => s!"I/O error: {text}"

def kind : NetError → String
  | connectionFailed _ => "ConnectionFailed"
  | connectionClosed => "ConnectionClosed"
  | handshakeFailed _ => "HandshakeFailed"
  | selfConnection => "SelfConnection"
  | invalidMessage _ => "InvalidMessage"
  | checksumMismatch .. => "ChecksumMismatch"
  | lengthMismatch .. => "LengthMismatch"
  | messageTooLarge .. => "MessageTooLarge"
  | magicMismatch .. => "MagicMismatch"
  | peerNotFound _ => "PeerNotFound"
  | tooManyConnections .. => "TooManyConnections"
  | sendQueue _ => "SendQueue"
  | service _ => "Service"
  | timeout _ => "Timeout"
  | io _ => "Io"

/-- Whether a deadline passed rather than anything failing. -/
def isTimeout : NetError → Bool
  | timeout _ => true
  | _ => false

/-- Whether the remote sent what the protocol forbids. -/
def isViolation : NetError → Bool
  | invalidMessage _ | checksumMismatch .. | lengthMismatch .. | messageTooLarge .. | magicMismatch ..
  | handshakeFailed _ | selfConnection => true
  | _ => false

/-- What a decoder's stop means to whoever waits for the value. Guarded decoders only ever refuse. -/
def ofStop : Stop → NetError
  | .refused cause => invalidMessage cause
  | .overrun => invalidMessage (.other "read past the end")

end NetError

end ChainSync
