import ChainSync.Scripted.Chain
import ChainSync.Sync.Persist

/-!
# The scripted stack

A node whose peers play a script: they advertise a chain, and the script
reads what is queued for them and hands in the answers. A step that does
not apply breaks the script and has no result.
-/

namespace ChainSync.Scripted

structure Stack where
  node : Node
  /-- The chain that the peers pretend to have. -/
  chain : Array Block
  /-- Number of the next peer's address and port. -/
  nextPort : Nat

namespace Stack

variable [Digest]

def fresh (pool : PoolConfig) (sync : SyncConfig) (len : Nat) : Stack where
  node := .fresh (.ofGenesis genesisBlock) pool 0 sync
  chain := Scripted.chain len
  nextPort := 1

/-- The blocks at these heights, both ends included. -/
def slice? (s : Stack) (first last : Nat) : Option (List Block) :=
  if first ≤ last + 1 ∧ last < s.chain.size then some (s.chain.toList.take (last + 1) |>.drop first) else none

/-- Connects a peer at some height. -/
def connect? (now : Instant) (height : UInt32) (s : Stack) : Option (Stack × PeerId) := do
  let (pool, id) := s.node.pool.takeId
  let p := (Peer.connecting id (address s.nextPort) false now).activate
    (version s.nextPort.toUInt32 s.nextPort.toUInt16 height)
  let pool ← ((pool.addPeer p).register p).toOption
  return ({ s with node := s.node.setPool pool, nextPort := s.nextPort + 1 }, id)

/-- Stores the chain's headers from the first to this height, all of which must link on. -/
def storeHeaders? (height : Nat) (s : Stack) : Option Stack := do
  let blocks ← s.slice? 1 height
  let (ledger, accepted) := s.node.ledger.addHeaders (blocks.map (·.header))
  if accepted = blocks.length then some { s with node := { s.node with ledger } } else none

/-- Stores the chain's blocks up to this height. -/
def storeBlocks? (height : Nat) (s : Stack) : Option Stack := do
  let blocks ← s.slice? (s.node.ledger.blockHeight + 1) height
  let ledger ← blocks.foldlM (fun l b => (l.addBlock (Codec.encode b)).toOption.map (·.1)) s.node.ledger
  return { s with node := { s.node with ledger } }

/-- Delivers a block of the chain as if it came from a peer. -/
def deliver? (now : Instant) (peer : PeerId) (height : Nat) (s : Stack) : Option Stack := do
  let b ← s.chain[height]?
  return { s with node := s.node.receiveBlock now peer b (Codec.encode b) }

def drain (peer : PeerId) (s : Stack) : Stack × List Message :=
  match s.node.pool.find? peer with
  | none => (s, [])
  | some p => ({ s with node := s.node.setPool (s.node.pool.modify peer (·.drain.1)) }, p.outbox)

/-- Where each request for headers starts. -/
def headerRequests (messages : List Message) : List Hash :=
  messages.filterMap fun
    | .getheaders locator => locator.start.head?
    | _ => none

/-- The blocks that are asked for. -/
def blockRequests (messages : List Message) : List Hash :=
  messages.flatMap fun
    | .getdata inventory => if inventory.kind = .block then inventory.hashes else []
    | _ => []

end Stack

end ChainSync.Scripted
