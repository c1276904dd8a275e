import ChainSync.Peer.Basic

/-!
# Events of a peer

What an active peer does with each message that arrives: it tells the pool
or the synchronizer, or asks at once for the blocks that were announced.
-/

namespace ChainSync

inductive PoolEvent
  | addresses (peer : PeerId) (addresses : List SocketAddress)
  | addressRequest (peer : PeerId)
  | inventory (peer : PeerId) (inventory : Inventory)
  | dataRequest (peer : PeerId) (inventory : Inventory)
  | transaction (peer : PeerId) (tx : Transaction)
  | disconnected (peer : PeerId) (addr : SocketAddress) (reason : DisconnectReason)
deriving DecidableEq

/-- News for the synchronizer; a block comes with the payload it was read from. -/
inductive SyncEvent
  | headers (peer : PeerId) (headers : List Header)
  | block (peer : PeerId) (block : Block) (raw : Bytes)
deriving DecidableEq

inductive PeerEvent
  | pool (event : PoolEvent)
  | sync (event : SyncEvent)
deriving DecidableEq

namespace Peer

/-- The greatest height among headers, if there are any. -/
def topHeight? (headers : List Header) : Option Nat :=
  (headers.map Header.height).max?

/-- Routes a message that arrived with `payload`: what becomes of the peer, and the event raised. -/
def dispatch (now : Instant) (m : Message) (payload : Bytes) (p : Peer) : Peer × Option PeerEvent :=
  match m with
  | .addr entries => (p, some (.pool (.addresses p.id (entries.map AddressEntry.address))))
  | .getaddr => (p, some (.pool (.addressRequest p.id)))
  | .inv inventory =>
    match inventory.kind with
    | .block => ((p.getData now .block inventory.hashes).1, none)
    | .tx => (p, some (.pool (.inventory p.id inventory)))
    | .consensus => (p, none)
  | .getdata inventory => (p, some (.pool (.dataRequest p.id inventory)))
  | .headers headers =>
    (match topHeight? headers with
      | some top => p.raiseHeight top
      | none => p,
     some (.sync (.headers p.id headers)))
  | .block block => (p.raiseHeight block.height, some (.sync (.block p.id block payload)))
  | .tx tx => (p, some (.pool (.transaction p.id tx)))
  | .version _ | .verack | .getheaders _ | .getblocks _ | .unknown .. => (p, none)

end Peer

end ChainSync
