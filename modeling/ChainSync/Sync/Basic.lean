import ChainSync.Ledger.Basic
import ChainSync.Pool.Events
import ChainSync.Sync.Cache
import ChainSync.Sync.Request

/-!
# The node

Ledger, pool and synchronizer together. The synchronizer asks peers for
headers first and then for the blocks between the stored ones and the last
header; what it waits for stands in its requests.
-/

namespace ChainSync

structure SyncConfig where
  tickInterval : Duration
  /-- How far the last header may be ahead of the last block. -/
  lookAhead : Nat
  cacheCapacity : Nat
  /-- The most hashes in one request for blocks. -/
  requestLimit : Nat
  headerTimeout : Duration
  blockTimeout : Duration
deriving DecidableEq, Inhabited

def SyncConfig.default : SyncConfig where
  tickInterval := .ofSecs 1
  lookAhead := 2000
  cacheCapacity := 500
  requestLimit := 500
  headerTimeout := .ofSecs 5
  blockTimeout := .ofSecs 5

structure Sync where
  config : SyncConfig
  /-- The outstanding request for headers. -/
  header : Option Request
  /-- The outstanding requests for blocks, by the hash of the block. -/
  blocks : List (Hash × Request)
  cache : BlockCache
deriving Inhabited

def Sync.fresh (config : SyncConfig) : Sync :=
  ⟨config, none, [], .empty config.cacheCapacity⟩

structure Node where
  ledger : Ledger
  pool : Pool
  sync : Sync
  /-- Whether the relay gate is open at all. -/
  relayOpen : Bool

structure SyncStatus where
  headerHeight : Nat
  blockHeight : Nat
  cacheSize : Nat
  cacheCapacity : Nat
  headerRequested : Bool
  blocksRequested : Nat
deriving DecidableEq

namespace Node

def fresh (ledger : Ledger) (pool : PoolConfig) (nonce : UInt32) (sync : SyncConfig) : Node where
  ledger
  pool := .fresh pool nonce
  sync := .fresh sync
  relayOpen := true

def status (n : Node) : SyncStatus where
  headerHeight := n.ledger.headerHeight
  blockHeight := n.ledger.blockHeight
  cacheSize := n.sync.cache.size
  cacheCapacity := n.sync.cache.capacity
  headerRequested := n.sync.header.isSome
  blocksRequested := n.sync.blocks.length

def blockRequest? (h : Hash) (n : Node) : Option Request :=
  Assoc.get? h n.sync.blocks

/-- The chain as the relay gate consults it. -/
def sink (n : Node) : RelaySink :=
  { n.ledger.sink with ready := n.ledger.sink.ready && n.relayOpen }

def setHeader (r : Option Request) (n : Node) : Node :=
  { n with sync := { n.sync with header := r } }

def setBlocks (blocks : List (Hash × Request)) (n : Node) : Node :=
  { n with sync := { n.sync with blocks } }

def setCache (cache : BlockCache) (n : Node) : Node :=
  { n with sync := { n.sync with cache } }

def setPool (pool : Pool) (n : Node) : Node :=
  { n with pool }

def withPeer (id : PeerId) (f : Peer → Peer × Except NetError Unit) (n : Node) : Node × Except NetError Unit :=
  let (pool, result) := n.pool.withPeer id f
  (n.setPool pool, result)

variable [Digest]

def relay (now : Instant) (tx : Transaction) (n : Node) : Node × RelayResult :=
  let (pool, result) := n.pool.relayFrom now n.sink tx none
  (n.setPool pool, result)

def handlePoolEvent (now : Instant) (event : PoolEvent) (n : Node) : Node :=
  n.setPool (n.pool.handle now n.sink event)

end Node

end ChainSync
