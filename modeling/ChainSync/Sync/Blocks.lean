import ChainSync.Sync.Basic

/-!
# Synchronizing blocks

The blocks between the last stored one and the last header are asked for
in batches, no more of them than the cache has room for. Overdue requests
go as one batch to the peer that failed them least.
-/

namespace ChainSync.Node

/-- How many hashes the next request may name. -/
def batchLimit (n : Node) : Nat :=
  min (min n.sync.cache.remaining n.sync.config.requestLimit) maxInventory

/-- The lowest heights up to `top` that are stored as headers only and not cached, with their hashes. -/
def missingBlocks (top : Nat) (n : Node) : List (Nat × Hash) :=
  let base := n.ledger.blockHeight
  let heights := (List.range' (base + 1) (min n.ledger.headerHeight top - base)).filter
    fun h => !n.sync.cache.contains h
  ((heights.take n.batchLimit).map fun h => (h, n.ledger.hashAt h)).takeWhile fun e => !e.2.isZero

def issue (now : Instant) (peer : PeerId) (batch : List (Nat × Hash)) : List (Hash × Request) :=
  batch.foldl (fun blocks e => Assoc.set e.2 (.start now peer e.1) blocks) []

/-- Asks for the next batch, unless one is outstanding. -/
def syncBlocks (now : Instant) (n : Node) : Node :=
  let base := n.ledger.blockHeight
  if !n.sync.blocks.isEmpty || n.ledger.headerHeight ≤ base || n.batchLimit = 0 then n
  else
    match n.pool.nextPeer? now (base + 1) with
    | none => n
    | some p =>
      let batch := n.missingBlocks p.bestHeight
      if batch.isEmpty then n
      else
        match n.withPeer p.id (·.getData now .block (batch.map (·.2))) with
        | (n, .ok ()) => n.setBlocks (issue now p.id batch)
        | (n, .error _) => n

/-! ## Overdue requests -/

/-- Whether the latest flight is too old, or there is none. -/
def isOverdue (now : Instant) (timeout : Duration) (r : Request) : Bool :=
  r.recent?.all (·.isTimedOut now timeout)

/-- Charges a request to the peer of its latest flight. -/
def blame (r : Request) : Request :=
  match r.recent? with
  | some f => r.addFailure f.peer
  | none => r

def dropRequests (hashes : List Hash) (blocks : List (Hash × Request)) : List (Hash × Request) :=
  blocks.filter fun e => !hashes.contains e.1

/-- How often a peer failed any of the requests. -/
def totalFailures (requests : List (Hash × Request)) (peer : PeerId) : Nat :=
  requests.foldl (fun n e => n + e.2.failures peer) 0

/-- Applies `f` to the requests that `hashes` name. -/
def mapRequests (hashes : List Hash) (f : Request → Request) (blocks : List (Hash × Request)) :
    List (Hash × Request) :=
  blocks.map fun e => if hashes.contains e.1 then (e.1, f e.2) else e

/-- Sends a batch of overdue requests, in ascending order of height, to another peer, or gives them up
if there is none to send them to. -/
def retryBlocks (now : Instant) (batch : List (Hash × Request)) (n : Node) : Node :=
  let hashes := batch.map (·.1)
  let top := (batch.getLast?.map (·.2.height)).getD 0
  match n.pool.retryPeer? now (totalFailures batch) top with
  | none => n.setBlocks (dropRequests hashes n.sync.blocks)
  | some p =>
    match n.withPeer p.id (·.getData now .block hashes) with
    | (n, .ok ()) =>
      n.setBlocks (mapRequests hashes (fun r => r.addFlight ⟨p.id, r.height, now⟩) n.sync.blocks)
    | (n, .error _) => n.setBlocks (dropRequests hashes n.sync.blocks)

/-- Looks after the outstanding requests. Those at stored heights go; for the other overdue ones each
peer in charge takes one timeout, and up to a message's worth of them, lowest first, is retried. -/
def checkBlocks (now : Instant) (n : Node) : Node :=
  let base := n.ledger.blockHeight
  let overdue := n.sync.blocks.filter fun e => isOverdue now n.sync.config.blockTimeout e.2
  let late := overdue.filter fun e => base < e.2.height
  let stale := (overdue.filter fun e => e.2.height ≤ base).map (·.1)
  let offenders := (late.filterMap fun e => e.2.recent?.map (·.peer)).eraseDups
  let blamed := late.map fun e => (e.1, blame e.2)
  let batch := blamed.mergeSort fun a b => a.2.height ≤ b.2.height
  let retry := batch.take maxInventory
  let blocks := mapRequests (late.map (·.1)) blame (dropRequests stale n.sync.blocks)
  let n := n.setBlocks (dropRequests ((batch.drop maxInventory).map (·.1)) blocks)
  let n := n.setPool (offenders.foldl (fun pool id => (pool.penaliseTimeout id).1) n.pool)
  if retry.isEmpty then n else n.retryBlocks now retry

/-! ## Deliveries -/

/-- Bytes per second, over no less than a millisecond. -/
def deliverySpeed (size : Nat) (elapsed : Duration) : Rate :=
  let secs := Float.ofNat (elapsed / 1000000) + Float.ofNat (elapsed % 1000000 * 1000) / 1000000000.0
  .ofFloat (Float.ofNat size / (if secs < 0.001 then 0.001 else secs))

variable [Digest]

/-- Takes a block that was asked for: the sender's speed is noted, and the block cached when the
ledger can still use it. -/
def receiveBlock (now : Instant) (peer : PeerId) (block : Block) (raw : Bytes) (n : Node) : Node :=
  match n.blockRequest? block.hash with
  | none => n
  | some r =>
    let n := n.setBlocks (Assoc.erase block.hash n.sync.blocks)
    let n := match (r.flight? peer).or r.recent?, n.pool.peer? peer with
      | some f, some _ =>
        n.setPool (n.pool.modify peer (·.addSpeed (deliverySpeed raw.length (f.elapsed now))))
      | _, _ => n
    let height := block.height
    if n.ledger.headerHeight + 1 < height || height ≤ n.ledger.blockHeight then n
    else n.setCache (n.sync.cache.insert ⟨block, raw, peer⟩).1

end ChainSync.Node
