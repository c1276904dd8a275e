import ChainSync.Assoc
import ChainSync.Chain.Block

/-!
# Transaction relay

Transactions accepted for relay and not yet persisted. A gate of checks
against the chain and the pool decides what is admitted.
-/

namespace ChainSync

/-- What the relay gate asks of the chain. -/
structure RelaySink where
  /-- Whether the chain can judge transactions at all. -/
  ready : Bool
  isPersisted : Hash → Bool
  /-- Whether a transaction is fit to join those already pooled. -/
  verify : Transaction → List Transaction → Bool
  /-- Height told to peers. -/
  startHeight : Nat

inductive RelayResult
  | accepted
  | alreadyPooled
  | alreadyPersisted
  | ledgerNotReady
  | invalid
deriving DecidableEq, Inhabited

def RelayResult.name : RelayResult → String
  | accepted => "accepted"
  | alreadyPooled => "already_pooled"
  | alreadyPersisted => "already_persisted"
  | ledgerNotReady => "ledger_not_ready"
  | invalid => "invalid"

structure RelayPool where
  txs : List (Hash × Transaction)
deriving Inhabited

namespace RelayPool

def empty : RelayPool := ⟨[]⟩

def get? (h : Hash) (pool : RelayPool) : Option Transaction :=
  Assoc.get? h pool.txs

def contains (h : Hash) (pool : RelayPool) : Bool :=
  Assoc.contains h pool.txs

def size (pool : RelayPool) : Nat :=
  pool.txs.length

/-- In ascending order. -/
def hashes (pool : RelayPool) : List Hash :=
  (Assoc.keys pool.txs).mergeSort (·.toNat ≤ ·.toNat)

def transactions (pool : RelayPool) : List Transaction :=
  pool.txs.map (·.2)

variable [Digest]

def submit (sink : RelaySink) (tx : Transaction) (pool : RelayPool) : RelayPool × RelayResult :=
  if ¬ sink.ready then (pool, .ledgerNotReady)
  else if pool.contains tx.hash then (pool, .alreadyPooled)
  else if sink.isPersisted tx.hash then (pool, .alreadyPersisted)
  else if ¬ sink.verify tx pool.transactions then (pool, .invalid)
  else (⟨Assoc.set tx.hash tx pool.txs⟩, .accepted)

/-- Drops the transactions of a block. -/
def removeBlock (block : Block) (pool : RelayPool) : RelayPool :=
  ⟨block.transactions.foldl (fun txs tx => Assoc.erase tx.hash txs) pool.txs⟩

end RelayPool

end ChainSync
