import ChainSync.Ledger.Basic
import ChainSync.Wire.Message

/-!
# Scripted chains

Deterministic chains to play against: block `h` holds the one transaction
`tx-h`, so that equal lengths give equal hashes. Blocks that branch off or
break a rule are added one by one.
-/

namespace ChainSync.Scripted

/-- Seconds between two blocks. -/
def blockInterval : UInt32 := 15

def tx (seed : Nat) : Transaction :=
  ⟨Bytes.ofString s!"tx-{seed}"⟩

/-- An address of its own for every 16-bit number. -/
def address (n : Nat) : SocketAddress :=
  .v4 (.ofNat (10 * Nat.pow 256 3 + n % Nat.pow 256 2)) 10333

/-- What a remote at some height says of itself. -/
def version (nonce : UInt32) (port : UInt16) (height : UInt32) : Version where
  version := 0
  services := fullNode
  timestamp := 0
  port
  nonce
  userAgent := "/neo-tests/"
  startHeight := height
  relay := true

variable [Digest]

/-- The next block of a regular chain. -/
def next? (b : Block) : Option Block := do
  let txs := [tx (b.height + 1)]
  let header ← b.header.child? (Block.merkleRoot txs) (b.header.timestamp + blockInterval)
    (b.index.toUInt64 + 1)
  return ⟨header, txs⟩

/-- `len` more blocks behind the last of these. -/
def grow : Nat → Array Block → Array Block
  | 0, blocks => blocks
  | len + 1, blocks =>
    match blocks.back?.bind next? with
    | some b => grow len (blocks.push b)
    | none => blocks

/-- Genesis and `len` blocks behind it; each stands at its height. -/
def chain (len : Nat) : Array Block :=
  grow len #[genesisBlock]

/-! ## Irregular blocks -/

structure BlockSpec where
  /-- Place of the block to build on, the last one if none is named. -/
  parent : Option Nat
  txs : List Transaction
  /-- Seconds behind its parent. -/
  delay : UInt32
  consensusData : UInt64
  /-- Fields that do not follow from the parent. -/
  version : Option UInt32
  index : Option UInt32
  prevHash : Option Hash
  merkleRoot : Option Hash
  witness : Witness

/-- Adds a block; there is none without a parent, nor behind the greatest index. -/
def extend? (blocks : Array Block) (spec : BlockSpec) : Option (Array Block) := do
  let parent ← blocks[spec.parent.getD (blocks.size - 1)]?
  let child ← parent.header.child? (Block.merkleRoot spec.txs) (parent.header.timestamp + spec.delay)
    spec.consensusData
  let header :=
    { child with
      version := spec.version.getD child.version
      index := spec.index.getD child.index
      prevHash := spec.prevHash.getD child.prevHash
      merkleRoot := spec.merkleRoot.getD child.merkleRoot
      witness := spec.witness }
  return blocks.push ⟨header, spec.txs⟩

end ChainSync.Scripted
