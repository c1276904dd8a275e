import ChainSync.Wire.VarInt

/-!
# Block headers

A header names its predecessor by hash and commits to the transactions of
its block by a Merkle root. Its own hash covers every field but the
witness.
-/

namespace ChainSync

instance : Codec Hash where
  encode h := h.bytes
  decode := do
    Decoder.need 32 "hash"
    Decoder.fixed 32

/-- The scripts that prove the right to issue a header. -/
structure Witness where
  invocation : Bytes
  verification : Bytes
deriving DecidableEq, Inhabited

namespace Witness

def empty : Witness := ⟨[], []⟩

instance : Codec Witness where
  encode w := VarBytes.encode w.invocation ++ VarBytes.encode w.verification
  decode := do
    let invocation ← VarBytes.decode
    let verification ← VarBytes.decode
    return { invocation, verification }

end Witness

structure Header where
  version : UInt32
  prevHash : Hash
  merkleRoot : Hash
  timestamp : UInt32
  /-- Height of the block in its chain. -/
  index : UInt32
  consensusData : UInt64
  nextConsensus : FixedBytes 20
  witness : Witness
deriving DecidableEq, Inhabited

namespace Header

/-- The fields that the hash covers. -/
def encodeUnsigned (h : Header) : Bytes :=
  Bytes.ofNatLE 4 h.version.toNat ++ h.prevHash.bytes ++ h.merkleRoot.bytes ++
    Bytes.ofNatLE 4 h.timestamp.toNat ++ Bytes.ofNatLE 4 h.index.toNat ++
    Bytes.ofNatLE 8 h.consensusData.toNat ++ h.nextConsensus.bytes

/-- Bytes up to and including the witness marker. -/
def fixedSize : Nat := 4 + 32 + 32 + 4 + 4 + 8 + 20 + 1

instance : Codec Header where
  encode h := h.encodeUnsigned ++ [1] ++ Codec.encode h.witness
  decode := do
    Decoder.need fixedSize "header"
    let version ← Decoder.u32
    let prevHash ← Codec.decode
    let merkleRoot ← Codec.decode
    let timestamp ← Decoder.u32
    let index ← Decoder.u32
    let consensusData ← Decoder.u64
    let nextConsensus ← Decoder.fixed 20
    let marker ← Decoder.byte
    if marker ≠ 1 then
      Decoder.refuse (.witnessMarker marker)
    let witness ← Codec.decode
    return { version, prevHash, merkleRoot, timestamp, index, consensusData, nextConsensus, witness }

def height (h : Header) : Nat :=
  h.index.toNat

variable [Digest]

def hash (h : Header) : Hash :=
  digest h.encodeUnsigned

/-- The header that follows `h`; there is none behind the greatest index. -/
def child? (h : Header) (merkleRoot : Hash) (timestamp : UInt32) (consensusData : UInt64) : Option Header :=
  if h.index = 0xFFFFFFFF then none
  else some
    { version := h.version
      prevHash := h.hash
      merkleRoot
      timestamp
      index := h.index + 1
      consensusData
      nextConsensus := h.nextConsensus
      witness := .empty }

end Header

end ChainSync
