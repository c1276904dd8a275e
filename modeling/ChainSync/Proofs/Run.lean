import ChainSync.Proofs.Step
import ChainSync.Scripted.Chain

/-!
# Runs of the node

A run is a list of actions: rounds of the synchronizer or parts of one,
deliveries by any peer, passes of persisting, whatever befalls the pool
meanwhile, and time. Only the synchronizer writes to the ledger.
-/

namespace ChainSync

/-- What befalls the pool without the synchronizer. -/
inductive Churn
  | arrive (addr : SocketAddress) (inbound : Bool) (remote : Version)
  | raise (id : PeerId) (height : Nat)
  | flush (id : PeerId)
  /-- Nothing takes messages out of the outbox of a peer any more. -/
  | shut (id : PeerId)
  /-- The session of a peer stops; the pool is told later. -/
  | hangUp (id : PeerId) (reason : DisconnectReason)
  | leave (id : PeerId) (reason : DisconnectReason)
  | replace (id : PeerId)
  | addresses (found : List SocketAddress)
  | connect (a : SocketAddress)
  | check
  | query
  | dialed (job : DialJob) (outcome : Pool.DialOutcome)
  | disconnectAll

def Churn.run (now : Instant) (pool : Pool) : Churn → Pool
  | arrive addr inbound remote =>
    let (pool, id) := pool.takeId
    let p := (Peer.connecting id addr inbound now).activate remote
    let pool := pool.addPeer p
    match pool.register p with
    | .ok pool => pool
    | .error _ => pool.modify id (·.disconnect .shutdown)
  | raise id height => pool.modify id (·.raiseHeight height)
  | flush id => pool.modify id (·.drain.1)
  | shut id => pool.modify id fun p => { p with outboxOpen := false }
  | hangUp id reason => pool.modify id (·.disconnect reason)
  | leave id reason => pool.sessionEnded id reason
  | replace id => pool.replace id
  | addresses found => (pool.addAddresses found).1
  | connect a => (pool.connectTo a).1
  | check => pool.check
  | query => pool.queryPeers now
  | dialed job outcome => pool.finishDial now job outcome
  | disconnectAll => pool.disconnectAll

inductive Action
  | checkHeaders
  | checkBlocks
  | syncHeaders
  | syncBlocks
  | tick
  | headers (peer : PeerId) (headers : List Header)
  | block (peer : PeerId) (block : Block) (raw : Bytes)
  | persist
  | churn (c : Churn)
  | relay (tx : Transaction)
  | event (e : PoolEvent)
  | wait (d : Duration)

structure World where
  now : Instant
  node : Node

def World.IsFresh [Digest] (w : World) (genesis : Block) (config : SyncConfig) : Prop :=
  w.node.ledger = .ofGenesis genesis ∧ w.node.sync = .fresh config

namespace Action

def delivered : Action → List Header
  | headers _ hs => hs
  | block _ b _ => [b.header]
  | _ => []

variable [Digest]

def act (now : Instant) (n : Node) : Action → Node
  | checkHeaders => n.checkHeaders now
  | checkBlocks => n.checkBlocks now
  | syncHeaders => n.syncHeaders now
  | syncBlocks => n.syncBlocks now
  | tick => n.tick now
  | headers peer hs => n.receiveHeaders peer hs
  | block peer b raw => n.receiveBlock now peer b raw
  | persist => n.persist.1
  | churn c => n.setPool (c.run now n.pool)
  | relay tx => (n.relay now tx).1
  | event e => n.handlePoolEvent now e
  | wait _ => n

def elapsed : Action → Duration
  | wait d => d
  | _ => 0

def step (w : World) (a : Action) : World :=
  ⟨w.now + a.elapsed, a.act w.now w.node⟩

end Action

namespace World

variable [Digest]

def run (w : World) (actions : List Action) : World :=
  actions.foldl Action.step w

theorem run_append (w : World) (as bs : List Action) : w.run (as ++ bs) = (w.run as).run bs :=
  List.foldl_append

theorem run_preserves {P : Node → Prop} {actions : List Action} {w : World}
    (hstep : ∀ a ∈ actions, ∀ now n, P n → P (a.act now n)) (hw : P w.node) : P (w.run actions).node := by
  induction actions generalizing w with
  | nil => exact hw
  | cons a actions ih =>
    refine ih (fun b hb => hstep b (List.mem_cons_of_mem _ hb)) (w := a.step w) ?_
    exact hstep a (List.mem_cons_self ..) w.now w.node hw

end World

/-! ## Headers of a run -/

def Header.unsigned (h : Header) : Header :=
  { h with witness := .empty }

def deliveredHeaders (actions : List Action) : List Header :=
  actions.flatMap Action.delivered

theorem deliveredHeaders_append (as bs : List Action) :
    deliveredHeaders (as ++ bs) = deliveredHeaders as ++ deliveredHeaders bs :=
  List.flatMap_append

variable [Digest]

/-- No two headers with different unsigned fields share a hash. -/
def CollisionFree (hs : List Header) : Prop :=
  ∀ a ∈ hs, ∀ b ∈ hs, a.hash = b.hash → a.unsigned = b.unsigned

theorem CollisionFree.height_eq {hs : List Header} (h : CollisionFree hs) {a b : Header} (ha : a ∈ hs) (hb : b ∈ hs)
    (heq : a.hash = b.hash) : a.height = b.height := by
  show a.unsigned.height = b.unsigned.height
  rw [h a ha b hb heq]

theorem collisionFree_of_nodup {hs : List Header} (h : (hs.map Header.hash).Nodup) : CollisionFree hs :=
  fun _ ha _ hb heq => congrArg Header.unsigned (List.inj_on_of_nodup_map h ha hb heq)

/-! ## A short run -/

namespace Scripted

def firstBlock : Block :=
  (next? genesisBlock).getD default

def smallWorld : World :=
  ⟨0, .fresh (.ofGenesis genesisBlock) .default 0 { SyncConfig.default with cacheCapacity := 1 }⟩

def firstDelivery : List Action :=
  [.churn (.arrive (address 1) false (version 1 10333 1)), .tick, .headers 1 [firstBlock.header], .tick,
    .block 1 firstBlock (Codec.encode firstBlock)]

end Scripted

end ChainSync
