import ChainSync.Pool.AddressBook
import ChainSync.Pool.Relay
import ChainSync.Wire.Frame

/-!
# The peer pool

The pool keeps between `minClients` and `maxClients` peers connected. It
holds every peer of this process, the address book, and the dials that
were asked for and have not ended yet.
-/

namespace ChainSync

/-- Errors tolerated before a peer is replaced. -/
def maxErrors : Nat := 5

/-- Timeouts tolerated before a peer is replaced. -/
def maxTimeouts : Nat := 15

/-- Unverified addresses probed in one check of a full pool. -/
def probesPerCheck : Nat := 2

def defaultPort : UInt16 := 10333

def protocolVersion : UInt32 := 0

structure PoolConfig where
  magic : UInt32
  connectTimeout : Duration
  /-- Deadline of the whole handshake. -/
  handshakeTimeout : Duration
  /-- Silence after which a peer counts as stalled. -/
  readTimeout : Duration
  /-- Where to listen, if at all. -/
  bindAddress : Option SocketAddress
  seeds : List String
  minClients : Nat
  maxClients : Nat
  queryInterval : Duration
  checkInterval : Duration
  maxDials : Nat
  userAgent : String
deriving DecidableEq, Inhabited

def PoolConfig.default : PoolConfig where
  magic := mainnetMagic
  connectTimeout := .ofSecs 3
  handshakeTimeout := .ofSecs 10
  readTimeout := .ofSecs 90
  bindAddress := none
  seeds := []
  minClients := 4
  maxClients := 10
  queryInterval := .ofSecs 15
  checkInterval := .ofSecs 10
  maxDials := 5
  userAgent := "/neo-rust-node:0.1.0/"

inductive DialMode
  /-- Join the pool on success. -/
  | join
  /-- Shake hands, note the verdict, hang up. -/
  | probe
deriving DecidableEq, Inhabited

structure DialJob where
  addr : SocketAddress
  mode : DialMode
deriving DecidableEq, Inhabited

structure Pool where
  config : PoolConfig
  /-- Sent in `version`; a remote that shows it is this node. -/
  nonce : UInt32
  nextId : PeerId
  /-- Every peer there ever was, pooled or not. -/
  peers : List Peer
  book : AddressBook
  /-- Dials asked for and not ended, oldest first. -/
  jobs : List DialJob
  relay : RelayPool
deriving Inhabited

structure PoolStats where
  connected : Nat
  queued : Nat
  known : Nat
  bad : Nat
  relay : Nat
deriving DecidableEq

namespace Pool

def fresh (config : PoolConfig) (nonce : UInt32) : Pool where
  config
  nonce
  nextId := 1
  peers := []
  book := .empty
  jobs := []
  relay := .empty

/-! ## Peers -/

/-- Any peer, pooled or not. -/
def find? (id : PeerId) (pool : Pool) : Option Peer :=
  pool.peers.find? (·.id = id)

/-- A peer that the pool counts as connected. -/
def peer? (id : PeerId) (pool : Pool) : Option Peer :=
  pool.peers.find? fun p => p.id = id && p.pooled

def modify (id : PeerId) (f : Peer → Peer) (pool : Pool) : Pool :=
  { pool with peers := pool.peers.map fun p => if p.id = id then f p else p }

def addPeer (p : Peer) (pool : Pool) : Pool :=
  { pool with peers := pool.peers ++ [p] }

def takeId (pool : Pool) : Pool × PeerId :=
  ({ pool with nextId := pool.nextId + 1 }, pool.nextId)

def pooledPeers (pool : Pool) : List Peer :=
  pool.peers.filter (·.pooled)

def count (pool : Pool) : Nat :=
  pool.pooledPeers.length

/-- Lets a peer do something that may fail; what it became is kept either way. -/
def withPeer (id : PeerId) (f : Peer → Peer × Except NetError Unit) (pool : Pool) :
    Pool × Except NetError Unit :=
  match pool.find? id with
  | none => (pool, .ok ())
  | some p =>
    let (p, result) := f p
    (pool.modify id fun _ => p, result)

/-- Whether dialing this address would reach this node. -/
def isLocal (pool : Pool) (a : SocketAddress) : Bool :=
  match pool.config.bindAddress with
  | none => false
  | some bind =>
    bind = a ||
      (bind.port = a.port && (a.ip.isLoopback || a.ip.isUnspecified) &&
        (bind.ip.isLoopback || bind.ip.isUnspecified))

def localVersion (now : Instant) (startHeight : Nat) (pool : Pool) : Version where
  version := protocolVersion
  services := fullNode
  timestamp := (now / 1000000).toUInt32
  port := (pool.config.bindAddress.map SocketAddress.port).getD 0
  nonce := pool.nonce
  userAgent := pool.config.userAgent
  startHeight := startHeight.toUInt32
  relay := true

/-! ## Selection -/

/-- The active peers of the pool, heaviest first. -/
def ranked (now : Instant) (pool : Pool) : List Peer :=
  (pool.pooledPeers.filter Peer.isActive).mergeSort fun p q =>
    (q.weight.value now).rank ≤ (p.weight.value now).rank

/-- The heaviest active peer that is at least `height` high. -/
def nextPeer? (now : Instant) (height : Nat) (pool : Pool) : Option Peer :=
  (pool.ranked now).find? (height ≤ ·.bestHeight)

/-- The first of the peers with the fewest failures, behind the best one seen so far. -/
def leastFailed (failures : PeerId → Nat) : Option Peer → List Peer → Option Peer
  | best, [] => best
  | best, p :: rest =>
    if failures p.id = 0 then some p
    else
      match best with
      | none => leastFailed failures (some p) rest
      | some q => leastFailed failures (some (if failures p.id < failures q.id then p else q)) rest

/-- Whom to try next: of the peers that are high enough, those that failed least, and of these the
heaviest. -/
def retryPeer? (now : Instant) (failures : PeerId → Nat) (height : Nat) (pool : Pool) : Option Peer :=
  leastFailed failures none ((pool.ranked now).filter (height ≤ ·.bestHeight))

/-! ## Admission -/

def enqueue (a : SocketAddress) (mode : DialMode) (pool : Pool) : Pool :=
  { pool with book := pool.book.enqueue a, jobs := pool.jobs ++ [⟨a, mode⟩] }

/-- Takes in one discovered address: to the dials while the pool has open slots, else aside. -/
def addAddress (a : SocketAddress) (pool : Pool) : Pool × Bool :=
  if pool.isLocal a || pool.book.isTracked a then (pool, false)
  else if pool.count + pool.book.queued.length < pool.config.maxClients then
    (pool.enqueue a .join, true)
  else ({ pool with book := pool.book.park a }, true)

/-- Takes in discovered addresses, and says how many were new. -/
def addAddresses : List SocketAddress → Pool → Pool × Nat
  | [], pool => (pool, 0)
  | a :: rest, pool =>
    let (pool, isNew) := pool.addAddress a
    let (pool, n) := pool.addAddresses rest
    (pool, n + if isNew then 1 else 0)

/-- Asks for a dial whatever is known of the address, unless it is local, connected or queued. -/
def connectTo (a : SocketAddress) (pool : Pool) : Pool × Bool :=
  if pool.isLocal a || pool.book.isConnected a || pool.book.isQueued a then (pool, false)
  else (pool.enqueue a .join, true)

/-- Adds a peer to the pool once its handshake is done. -/
def register (p : Peer) (pool : Pool) : Except NetError Pool :=
  if pool.config.maxClients ≤ pool.count then
    .error (.tooManyConnections pool.count pool.config.maxClients)
  else
    let join (book : AddressBook) : Pool :=
      { pool.modify p.id (fun p => { p with pooled := true }) with book }
    match p.listenAddr? with
    | none => .ok (join pool.book)
    | some a =>
      if pool.book.isConnected a then .error (.connectionFailed s!"{a.toText} already connected")
      else .ok (join (pool.book.link a p.id))

/-! ## Departures -/

/-- Drops a peer from the pool, with `f` done to it and to the book of its listen address. -/
def remove (p : Peer) (f : Peer → Peer) (g : SocketAddress → AddressBook → AddressBook) (pool : Pool) : Pool :=
  let pool := pool.modify p.id fun p => { f p with pooled := false }
  match p.listenAddr? with
  | none => pool
  | some a => { pool with book := g a (pool.book.unlink a p.id) }

/-- Disconnects a peer, marks its address bad and promotes a known one in its place. -/
def replace (id : PeerId) (pool : Pool) : Pool :=
  match pool.peer? id with
  | none => pool
  | some p =>
    let pool := pool.remove p (·.disconnect .replaced) AddressBook.markBad
    match pool.book.pickKnown? with
    | none => pool
    | some a => pool.enqueue a .join

/-- What a session's end means for the address of its peer. -/
def standing : DisconnectReason → SocketAddress → AddressBook → AddressBook
  | .protocolViolation, a, b | .replaced, a, b => b.markBad a
  | .closed, a, b | .stalled, a, b => b.markKnown a false
  | .shutdown, _, b => b

/-- Drops a peer whose session ended. -/
def sessionEnded (id : PeerId) (reason : DisconnectReason) (pool : Pool) : Pool :=
  match pool.peer? id with
  | none => pool
  | some p => pool.remove p (fun p => p) (standing reason)

/-- Counts an error against a pooled peer, and says whether that made the pool replace it. -/
def penaliseError (id : PeerId) (pool : Pool) : Pool × Bool :=
  match pool.peer? id with
  | none => (pool, false)
  | some p =>
    let pool := pool.modify id Peer.addError
    if maxErrors < p.addError.weight.errors then (pool.replace id, true) else (pool, false)

/-- Counts a timeout against a pooled peer, and says whether that made the pool replace it. -/
def penaliseTimeout (id : PeerId) (pool : Pool) : Pool × Bool :=
  match pool.peer? id with
  | none => (pool, false)
  | some p =>
    let pool := pool.modify id Peer.addTimeout
    if maxTimeouts < p.addTimeout.weight.timeouts then (pool.replace id, true) else (pool, false)

def disconnectAll (pool : Pool) : Pool :=
  { pool with
    peers := pool.peers.map fun p => if p.pooled then { p.disconnect .shutdown with pooled := false } else p
    book := { pool.book with connected := [] } }

/-! ## Maintenance -/

def enqueueAll (mode : DialMode) (addresses : List SocketAddress) (pool : Pool) : Pool :=
  addresses.foldl (fun pool a => pool.enqueue a mode) pool

/-- Known addresses, those that passed their probe first. -/
def candidates (pool : Pool) : List SocketAddress :=
  ((pool.book.known.filter (·.2)) ++ (pool.book.known.filter (!·.2))).map (·.1)

/-- One pass of maintenance: known addresses fill open slots; a full pool probes a few unverified
ones instead; below `minClients` with nothing left to try, bad addresses get another chance. -/
def check (pool : Pool) : Pool :=
  let connected := pool.count
  let room := pool.config.maxClients - (connected + pool.book.queued.length)
  let pool :=
    if 0 < room then pool.enqueueAll .join (pool.candidates.take room)
    else pool.enqueueAll .probe (((pool.book.known.filter (!·.2)).map (·.1)).take probesPerCheck)
  if connected < pool.config.minClients && pool.book.known.isEmpty && pool.book.queued.isEmpty &&
      !pool.book.bad.isEmpty then
    { pool with book := pool.book.recycle }
  else pool

/-- Sends a message to each of the peers; a full outbox loses it. -/
def sendEach (ids : List PeerId) (m : Message) (pool : Pool) : Pool :=
  ids.foldl (fun pool id => (pool.withPeer id (·.send m)).1) pool

/-- Asks every active peer for the addresses it knows. -/
def queryPeers (now : Instant) (pool : Pool) : Pool :=
  pool.sendEach ((pool.ranked now).map (·.id)) .getaddr

/-! ## Dials -/

/-- How a dial ended on the wire: refused, failed in the handshake, or with the remote's version. -/
abbrev DialOutcome := Except NetError Version

/-- Takes a dial job off the list and settles its address: a failed dial makes it bad, a passed probe
known; otherwise the new peer joins the pool, unless it filled up or got the address meanwhile. -/
def finishDial (now : Instant) (job : DialJob) (outcome : DialOutcome) (pool : Pool) : Pool :=
  let pool := { pool with jobs := pool.jobs.erase job }
  match outcome with
  | .error _ => { pool with book := pool.book.markBad job.addr }
  | .ok remote =>
    let (pool, id) := pool.takeId
    let p := (Peer.connecting id job.addr false now).activate remote
    let pool := pool.addPeer p
    let hangUp := pool.modify id (·.disconnect .shutdown)
    match job.mode with
    | .probe => { hangUp with book := pool.book.markKnown job.addr true }
    | .join =>
      match pool.register p with
      | .ok pool => pool
      | .error (.tooManyConnections ..) => { hangUp with book := pool.book.markKnown job.addr true }
      | .error _ => { hangUp with book := pool.book.markBad job.addr }

/-! ## Relay -/

section Relay

variable [Digest]

/-- Submits a transaction and announces it, once accepted, to every active peer but the one it came
from. -/
def relayFrom (now : Instant) (sink : RelaySink) (tx : Transaction) (origin : Option PeerId) (pool : Pool) :
    Pool × RelayResult :=
  let (relay, result) := pool.relay.submit sink tx
  let pool := { pool with relay }
  if result = .accepted then
    let others := ((pool.ranked now).map (·.id)).filter fun id => some id ≠ origin
    (pool.sendEach others (.inv ⟨.tx, [tx.hash]⟩), result)
  else (pool, result)

/-- Forgets the relayed transactions that a persisted block includes. -/
def blockPersisted (block : Block) (pool : Pool) : Pool :=
  { pool with relay := pool.relay.removeBlock block }

end Relay

/-! ## Views -/

def stats (pool : Pool) : PoolStats where
  connected := pool.count
  queued := pool.book.queued.length
  known := pool.book.known.length
  bad := pool.book.bad.length
  relay := pool.relay.size

def queuedAddresses (pool : Pool) : List SocketAddress :=
  SocketAddress.sorted pool.book.queued

def knownAddresses (pool : Pool) : List SocketAddress :=
  SocketAddress.sorted (Assoc.keys pool.book.known)

def badAddresses (pool : Pool) : List SocketAddress :=
  SocketAddress.sorted pool.book.bad

def connectedAddresses (pool : Pool) : List SocketAddress :=
  SocketAddress.sorted (Assoc.keys pool.book.connected)

end Pool

end ChainSync
