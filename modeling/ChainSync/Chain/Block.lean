import ChainSync.Chain.Header

/-!
# Transactions and blocks

Transactions are opaque byte strings. A block commits to its list of them
by the Merkle root in its header: transaction hashes are joined in pairs,
level by level, an odd one at the end with itself.
-/

namespace ChainSync

structure Transaction where
  data : Bytes
deriving DecidableEq, Inhabited

namespace Transaction

instance : Codec Transaction where
  encode tx := VarBytes.encode tx.data
  decode := return ⟨← VarBytes.decode⟩

def hash [Digest] (tx : Transaction) : Hash :=
  digest tx.data

end Transaction

/-! ## Merkle roots -/

namespace Merkle

variable [Digest]

def join (left right : Hash) : Hash :=
  digest (left.bytes ++ right.bytes)

def pairUp : List Hash → List Hash
  | a :: b :: rest => join a b :: pairUp rest
  | [a] => [join a a]
  | [] => []

theorem length_pairUp_le : ∀ hs : List Hash, (pairUp hs).length ≤ (hs.length + 1) / 2
  | [] => by simp [pairUp]
  | [_] => by simp [pairUp]
  | _ :: _ :: rest => by
    have := length_pairUp_le rest
    simp only [pairUp, List.length_cons]
    omega

/-- The last hash left after joining level by level; zero for no hash at all. -/
def root : List Hash → Hash
  | [] => Hash.zero
  | [a] => a
  | a :: b :: rest => root (pairUp (a :: b :: rest))
termination_by hs => hs.length
decreasing_by
  have := length_pairUp_le (a :: b :: rest)
  simp only [List.length_cons] at this ⊢
  omega

end Merkle

structure Block where
  header : Header
  transactions : List Transaction
deriving DecidableEq, Inhabited

def maxBlockTransactions : Nat := 0xFFFF

namespace Block

instance : Codec Block where
  encode b := Codec.encode b.header ++ VarList.encode b.transactions
  decode := do
    let header ← Codec.decode
    let transactions ← VarList.decode maxBlockTransactions
    return { header, transactions }

def index (b : Block) : UInt32 :=
  b.header.index

def height (b : Block) : Nat :=
  b.header.height

variable [Digest]

def hash (b : Block) : Hash :=
  b.header.hash

def merkleRoot (txs : List Transaction) : Hash :=
  Merkle.root (txs.map Transaction.hash)

end Block

end ChainSync
