import ChainSync.Peer.Event
import ChainSync.Pool.Basic

/-!
# Pool events

How the pool answers the news of its peers: addresses are taken in and
given out, transactions are asked for, served and relayed.
-/

namespace ChainSync.Pool

/-- What a peer that asks for addresses is told: where the other peers listen, then the known
addresses, and never more than a message holds. -/
def addressesFor (requester : PeerId) (pool : Pool) : List SocketAddress :=
  (Assoc.keys (pool.book.connected.filter (·.2 ≠ requester)) ++ Assoc.keys pool.book.known).take maxAddresses

def answerAddressRequest (now : Instant) (requester : PeerId) (pool : Pool) : Pool :=
  match pool.peer? requester with
  | none => pool
  | some _ =>
    let entries := (pool.addressesFor requester).map fun a => ⟨(now / 1000000).toUInt32, fullNode, a⟩
    pool.sendEach [requester] (.addr entries)

/-- Sends transactions one by one until one does not fit any more. -/
def serve (id : PeerId) : List Transaction → Pool → Pool
  | [], pool => pool
  | tx :: rest, pool =>
    match pool.withPeer id (·.send (.tx tx)) with
    | (pool, .ok ()) => pool.serve id rest
    | (pool, .error _) => pool

variable [Digest]

def handle (now : Instant) (sink : RelaySink) (event : PoolEvent) (pool : Pool) : Pool :=
  match event with
  | .addresses _ addresses => (pool.addAddresses addresses).1
  | .addressRequest peer => pool.answerAddressRequest now peer
  | .inventory peer inventory =>
    if inventory.kind ≠ .tx then pool
    else
      match pool.peer? peer with
      | none => pool
      | some _ =>
        let wanted := inventory.hashes.filter fun h => !pool.relay.contains h && !sink.isPersisted h
        (pool.withPeer peer (·.getData now .tx wanted)).1
  | .dataRequest peer inventory =>
    if inventory.kind ≠ .tx then pool
    else
      match pool.peer? peer with
      | none => pool
      | some _ => pool.serve peer (inventory.hashes.filterMap (pool.relay.get? ·))
  | .transaction peer tx => (pool.relayFrom now sink tx (some peer)).1
  | .disconnected peer _ reason => pool.sessionEnded peer reason

end ChainSync.Pool
