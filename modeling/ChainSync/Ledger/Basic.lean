import ChainSync.Ledger.Error
import ChainSync.Pool.Relay

/-!
# The ledger

Headers and blocks in height order, rooted at a genesis block. Headers run
ahead: a header is stored when it links onto the last one, and a block
when its header is already there and its transactions match it.
-/

namespace ChainSync

structure Ledger where
  headers : Array Header
  /-- `hashes[i]` is the hash of `headers[i]`. -/
  hashes : Array Hash
  blocks : Array Block
  /-- Hashes of the transactions of stored blocks. -/
  persisted : List Hash

/-- The block that both ends of the network agree on. -/
def genesisBlock : Block where
  header :=
    { version := 0
      prevHash := Hash.zero
      merkleRoot := Hash.zero
      timestamp := 1468595301
      index := 0
      consensusData := 2083236893
      nextConsensus := FixedBytes.zero 20
      witness := .empty }
  transactions := []

namespace Ledger

def headerHeight (l : Ledger) : Nat :=
  l.headers.size - 1

def blockHeight (l : Ledger) : Nat :=
  l.blocks.size - 1

/-- The stored header's hash, zero at heights that have none. -/
def hashAt (l : Ledger) (height : Nat) : Hash :=
  (l.hashes[height]?).getD Hash.zero

def header? (l : Ledger) (height : Nat) : Option Header :=
  l.headers[height]?

def block? (l : Ledger) (height : Nat) : Option Block :=
  l.blocks[height]?

variable [Digest]

def ofGenesis (genesis : Block) : Ledger where
  headers := #[genesis.header]
  hashes := #[genesis.hash]
  blocks := #[genesis]
  persisted := genesis.transactions.map Transaction.hash

/-- Whether a header is the one after the last. -/
def links (l : Ledger) (h : Header) : Bool :=
  h.height = l.headerHeight + 1 && h.prevHash = l.hashAt l.headerHeight

def pushHeader (l : Ledger) (h : Header) : Ledger :=
  { l with headers := l.headers.push h, hashes := l.hashes.push h.hash }

/-- Stores the longest run of headers that link on, and says how many those were. -/
def addHeaders (l : Ledger) : List Header → Ledger × Nat
  | [] => (l, 0)
  | h :: hs =>
    if l.links h then
      let (l, n) := (l.pushHeader h).addHeaders hs
      (l, n + 1)
    else (l, 0)

/-- Why a block cannot be the next one, if it cannot. -/
def reject? (l : Ledger) (block : Block) : Option LedgerError :=
  if block.height ≠ l.blockHeight + 1 then some (.outOfOrder l.blockHeight block.height)
  else
    match l.hashes[block.height]? with
    | none => some (.unknownHeader block.height)
    | some expected =>
      if block.hash ≠ expected then some (.hashMismatch block.height expected block.hash)
      else if Block.merkleRoot block.transactions ≠ block.header.merkleRoot then
        some (.merkleMismatch block.height)
      else none

def pushBlock (l : Ledger) (block : Block) : Ledger :=
  { l with
    blocks := l.blocks.push block
    persisted := block.transactions.map Transaction.hash ++ l.persisted }

def addBlock (l : Ledger) (raw : Bytes) : Except LedgerError (Ledger × Block) := do
  let block ← (Codec.ofBytes Block raw).mapError fun stop => .decode (.ofStop stop)
  match l.reject? block with
  | some e => .error e
  | none => .ok (l.pushBlock block, block)

/-- The ledger as the relay gate sees it: a transaction must hold something, and nothing that is
already pooled. -/
def sink (l : Ledger) : RelaySink where
  ready := ¬ l.blocks.isEmpty
  isPersisted h := l.persisted.contains h
  verify tx pool := ¬ tx.data.isEmpty && ¬ pool.any (·.data == tx.data)
  startHeight := l.blockHeight

end Ledger

end ChainSync
