import ChainSync.Wire.Message
import ChainSync.Wire.Error

/-!
# The version exchange

Both endpoints send their version first and acknowledge the other's with
`verack`. A `Handshake` is how far one endpoint has come: it either owes a
message, waits for one, or is over.
-/

namespace ChainSync

inductive Handshake
  /-- The own version is to be sent. -/
  | greeting
  | awaitingVersion
  /-- The remote's version is here, its acknowledgement is to be sent. -/
  | acknowledging (remote : Version)
  | awaitingVerack (remote : Version)
  | accepted (remote : Version)
  | failed (error : NetError)
deriving DecidableEq

namespace Handshake

/-- The message that is owed. -/
def owed? (own : Version) : Handshake → Option Message
  | greeting => some (.version own)
  | acknowledging _ => some .verack
  | _ => none

def afterSend : Handshake → Handshake
  | greeting => awaitingVersion
  | acknowledging remote => awaitingVerack remote
  | h => h

def isWaiting : Handshake → Bool
  | awaitingVersion | awaitingVerack _ => true
  | _ => false

/-- The outcome, once there is one. -/
def result? : Handshake → Option (Except NetError Version)
  | accepted remote => some (.ok remote)
  | failed e => some (.error e)
  | _ => none

def unexpected (wanted : String) (m : Message) : NetError :=
  .handshakeFailed s!"expected {wanted}, got {m.command.name}"

def receive (own : Version) (m : Message) : Handshake → Handshake
  | awaitingVersion =>
    match m with
    | .version remote =>
      if remote.nonce = own.nonce then failed .selfConnection else acknowledging remote
    | _ => failed (unexpected "version" m)
  | awaitingVerack remote =>
    match m with
    | .verack => accepted remote
    | _ => failed (unexpected "verack" m)
  | h => h

end Handshake

end ChainSync
