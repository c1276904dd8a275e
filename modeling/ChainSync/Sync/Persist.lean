import ChainSync.Sync.Blocks
import ChainSync.Sync.Headers

/-!
# Persisting blocks

Cached blocks move into the ledger strictly in height order. The first one
that the ledger rejects ends the pass, at the cost of whoever sent it.
-/

namespace ChainSync

theorem BlockCache.size_take_lt {h : Nat} {c : BlockCache} {e : CachedBlock} (he : (c.take h).2 = some e) :
    (c.take h).1.size < c.size := by
  have hmem := List.mem_of_find?_eq_some he
  have hh : e.height = h := by simpa using List.find?_some he
  simp only [take, erase, size]
  exact List.length_filter_lt_length_iff_exists.2 ⟨e, hmem, by simp [hh]⟩

theorem BlockCache.size_pruneThrough_le (h : Nat) (c : BlockCache) : (c.pruneThrough h).1.size ≤ c.size :=
  List.length_filter_le ..

namespace Node

/-- Whether the cache holds something that a pass acts on. -/
def hasReadyBlock (n : Node) : Bool :=
  n.sync.cache.firstHeight?.any (· ≤ n.ledger.blockHeight + 1)

variable [Digest]

def persist (n : Node) : Node × Nat :=
  let base := n.ledger.blockHeight
  let pruned := (n.sync.cache.pruneThrough base).1
  match _h : (pruned.take (base + 1)).2 with
  | none => (n.setCache pruned, 0)
  | some e =>
    let n' := n.setCache (pruned.take (base + 1)).1
    match n.ledger.addBlock e.raw with
    | .ok (ledger, block) =>
      let (n', stored) := persist { n' with ledger, pool := n'.pool.blockPersisted block }
      (n', stored + 1)
    | .error _ => (n'.setPool (n'.pool.penaliseError e.peer).1, 0)
termination_by n.sync.cache.size
decreasing_by
  simp only [setCache]
  exact Nat.lt_of_lt_of_le (BlockCache.size_take_lt (by assumption)) (BlockCache.size_pruneThrough_le ..)

/-- A pass if there is anything for it to do. -/
def persistIfReady (n : Node) : Node :=
  if n.hasReadyBlock then n.persist.1 else n

def tick (now : Instant) (n : Node) : Node :=
  (((n.checkHeaders now).checkBlocks now).syncHeaders now).syncBlocks now

def handleSyncEvent (now : Instant) (event : SyncEvent) (n : Node) : Node :=
  match event with
  | .headers peer headers => n.receiveHeaders peer headers
  | .block peer block raw => (n.receiveBlock now peer block raw).persistIfReady

end Node

end ChainSync
