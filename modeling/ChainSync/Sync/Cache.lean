import ChainSync.Chain.Block
import ChainSync.Clock
import ChainSync.Peer.Basic

/-!
# The block cache

Downloaded blocks on their way into the ledger: a bounded map from heights
to blocks, kept in ascending order of height.
-/

namespace ChainSync

structure CachedBlock where
  block : Block
  /-- The bytes it arrived as. -/
  raw : Bytes
  /-- Who delivered it, and is to blame if the ledger rejects it. -/
  peer : PeerId
deriving DecidableEq, Inhabited

def CachedBlock.height (e : CachedBlock) : Nat :=
  e.block.height

structure BlockCache where
  capacity : Nat
  /-- In ascending order of height. -/
  entries : List CachedBlock
deriving Inhabited

namespace BlockCache

def empty (capacity : Nat) : BlockCache := ⟨capacity, []⟩

def size (c : BlockCache) : Nat :=
  c.entries.length

def isEmpty (c : BlockCache) : Bool :=
  c.entries.isEmpty

def isFull (c : BlockCache) : Bool :=
  c.capacity ≤ c.size

def remaining (c : BlockCache) : Nat :=
  c.capacity - c.size

def get? (height : Nat) (c : BlockCache) : Option CachedBlock :=
  c.entries.find? (·.height = height)

def contains (height : Nat) (c : BlockCache) : Bool :=
  (c.get? height).isSome

def firstHeight? (c : BlockCache) : Option Nat :=
  c.entries.head?.map (·.height)

def lastHeight? (c : BlockCache) : Option Nat :=
  c.entries.getLast?.map (·.height)

/-- Puts an entry in front of the first higher one. -/
def place (e : CachedBlock) : List CachedBlock → List CachedBlock
  | [] => [e]
  | f :: rest => if e.height < f.height then e :: f :: rest else f :: place e rest

/-- Adds a block, unless the cache is full or its height taken; says whether it did. -/
def insert (e : CachedBlock) (c : BlockCache) : BlockCache × Bool :=
  if c.isFull || c.contains e.height then (c, false)
  else ({ c with entries := place e c.entries }, true)

def erase (height : Nat) (c : BlockCache) : BlockCache :=
  { c with entries := c.entries.filter (·.height ≠ height) }

/-- The block at exactly this height, and the cache without it. -/
def take (height : Nat) (c : BlockCache) : BlockCache × Option CachedBlock :=
  (c.erase height, c.get? height)

/-- Drops the entries below the height after this one, and says how many those were. The height after
the greatest is that height itself. -/
def pruneThrough (height : Nat) (c : BlockCache) : BlockCache × Nat :=
  let kept := c.entries.filter (min (height + 1) maxWord ≤ ·.height)
  ({ c with entries := kept }, c.size - kept.length)

end BlockCache

end ChainSync
