import ChainSync.Pool.Basic
import ChainSync.Sync.Basic
import ChainSync.Net.AddressText

/-!
# Configuration of a node

What can be set about a node, with what holds by default, and the settings
of the pool and the synchronizer that follow from it.
-/

namespace ChainSync

structure NetworkSection where
  bindAddress : String
  /-- Whether remote nodes may connect to this one. -/
  listen : Bool
  /-- Takes the place of the chain's magic number. -/
  magic : Option UInt32
  seeds : List String
  minClients : Nat
  maxClients : Nat
  dialTimeoutSecs : Nat
  handshakeTimeoutSecs : Nat
  readTimeoutSecs : Nat
  peerQueryIntervalSecs : Nat
  poolCheckIntervalSecs : Nat
  maxConcurrentDials : Nat
  userAgent : Option String
deriving DecidableEq

structure SyncSection where
  tickIntervalMs : Nat
  headerLookAhead : Nat
  blockCacheCapacity : Nat
  blockRequestLimit : Nat
  headerTimeoutSecs : Nat
  blockTimeoutSecs : Nat
deriving DecidableEq

structure ApiSection where
  enabled : Bool
  bindAddress : String
  key : Option String
deriving DecidableEq

structure NodeConfig where
  name : String
  /-- Which chain to follow: `testnet`, or else the main one. -/
  chain : String
  network : NetworkSection
  sync : SyncSection
  api : ApiSection
deriving DecidableEq

/-! ## Defaults -/

def mainnetSeeds : List String :=
  ["seed1.neo.org:10333", "seed2.neo.org:10333", "seed3.neo.org:10333", "seed4.neo.org:10333",
   "seed5.neo.org:10333"]

def testnetSeeds : List String :=
  ["seed1.ngd.network:20333", "seed2.ngd.network:20333", "seed3.ngd.network:20333",
   "seed4.ngd.network:20333", "seed5.ngd.network:20333"]

def NetworkSection.default : NetworkSection where
  bindAddress := "0.0.0.0:10333"
  listen := true
  magic := none
  seeds := mainnetSeeds
  minClients := 4
  maxClients := 10
  dialTimeoutSecs := 3
  handshakeTimeoutSecs := 10
  readTimeoutSecs := 90
  peerQueryIntervalSecs := 15
  poolCheckIntervalSecs := 10
  maxConcurrentDials := 5
  userAgent := none

def SyncSection.default : SyncSection where
  tickIntervalMs := 1000
  headerLookAhead := 2000
  blockCacheCapacity := 500
  blockRequestLimit := 500
  headerTimeoutSecs := 5
  blockTimeoutSecs := 5

def ApiSection.default : ApiSection where
  enabled := true
  bindAddress := "127.0.0.1:10332"
  key := none

namespace NodeConfig

/-- The configuration for a chain when there is no file. -/
def ofChain (chain : String) : NodeConfig where
  name := "neo-rust-node"
  chain
  network :=
    { NetworkSection.default with seeds := if chain = "testnet" then testnetSeeds else mainnetSeeds }
  sync := .default
  api := .default

/-! ## What follows from it -/

def magic (c : NodeConfig) : UInt32 :=
  match c.network.magic with
  | some magic => magic
  | none => if c.chain = "testnet" then testnetMagic else mainnetMagic

end NodeConfig

inductive ConfigError
  | unreadable
  | malformed
  | bindAddress (text : String)
  | cacheCapacity
  | requestLimit (limit : Nat)
deriving DecidableEq

def ConfigError.message : ConfigError → String
  | unreadable => "Failed to read config file"
  | malformed => "Failed to parse config file"
  | bindAddress text => s!"Invalid P2P bind address {text}"
  | cacheCapacity => "sync.block_cache_capacity must be at least 1"
  | requestLimit limit =>
    s!"sync.block_request_limit must be between 1 and {maxInventory}, got {limit}"

namespace NodeConfig

/-- Where to listen. The address need not be one unless the node listens. -/
def listenAddress (c : NodeConfig) : Except ConfigError (Option SocketAddress) :=
  if ¬ c.network.listen then .ok none
  else
    match SocketAddress.ofText? c.network.bindAddress with
    | some addr => .ok (some addr)
    | none => .error (.bindAddress c.network.bindAddress)

def poolConfig (c : NodeConfig) : Except ConfigError PoolConfig := do
  let bindAddress ← c.listenAddress
  let net := c.network
  return {
    magic := c.magic
    connectTimeout := .ofSecs net.dialTimeoutSecs
    handshakeTimeout := .ofSecs net.handshakeTimeoutSecs
    readTimeout := .ofSecs net.readTimeoutSecs
    bindAddress
    seeds := net.seeds
    minClients := net.minClients
    maxClients := net.maxClients
    queryInterval := .ofSecs net.peerQueryIntervalSecs
    checkInterval := .ofSecs net.poolCheckIntervalSecs
    maxDials := net.maxConcurrentDials
    userAgent := net.userAgent.getD PoolConfig.default.userAgent }

/-- The settings of the synchronizer; refuses those with which no block would ever be asked for. -/
def syncConfig (c : NodeConfig) : Except ConfigError SyncConfig :=
  let sync := c.sync
  if sync.blockCacheCapacity = 0 then .error .cacheCapacity
  else if sync.blockRequestLimit = 0 ∨ maxInventory < sync.blockRequestLimit then
    .error (.requestLimit sync.blockRequestLimit)
  else
    .ok
      { tickInterval := .ofMillis (max sync.tickIntervalMs 1)
        lookAhead := sync.headerLookAhead
        cacheCapacity := sync.blockCacheCapacity
        requestLimit := sync.blockRequestLimit
        headerTimeout := .ofSecs sync.headerTimeoutSecs
        blockTimeout := .ofSecs sync.blockTimeoutSecs }

end NodeConfig

end ChainSync
