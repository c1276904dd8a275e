import ChainSync.Proofs.Charging
import ChainSync.Proofs.Rejections
import ChainSync.Proofs.Rounds

/-!
# What one pass over the cache does

A pass stores what is cached at the heights that come next, as far as the
ledger accepts it (`Stores`). Besides these blocks and the older ones, one
more entry can leave the cache: the one at the height where the pass stops,
which the ledger rejects, and for which its sender pays. So there is nothing
left that another pass would act on.
-/

namespace ChainSync

section
variable [Digest]

/-! ## Runs of cached blocks -/

/-- So many blocks cached at the heights that come next are stored, one after the other. -/
inductive BlockCache.Stores (c : BlockCache) : Ledger → Nat → Ledger → Prop
  | nothing (l : Ledger) : Stores c l 0 l
  | next {l l' l'' : Ledger} {e : CachedBlock} {b : Block} {k : Nat} (he : c.get? (l.blockHeight + 1) = some e)
      (hadd : l.addBlock e.raw = .ok (l', b)) (hrest : Stores c l' k l'') : Stores c l (k + 1) l''

def BlockCache.Stuck (c : BlockCache) (l : Ledger) : Prop :=
  ∀ e, c.get? (l.blockHeight + 1) = some e → ∃ err, l.addBlock e.raw = .error err

theorem Ledger.blockHeight_addBlock {l l' : Ledger} {raw : Bytes} {b : Block} (hbased : 0 < l.blocks.size)
    (hadd : l.addBlock raw = .ok (l', b)) : 0 < l'.blocks.size ∧ l'.blockHeight = l.blockHeight + 1 := by
  obtain ⟨-, -, rfl⟩ := addBlock_eq_ok_iff.1 hadd
  simp only [blockHeight, pushBlock, Array.size_push]
  omega

namespace BlockCache.Stores

variable {c : BlockCache} {l l' : Ledger} {j k : Nat}

theorem height (h : c.Stores l k l') (hbased : 0 < l.blocks.size) :
    0 < l'.blocks.size ∧ l'.blockHeight = l.blockHeight + k := by
  induction h with
  | nothing l => exact ⟨hbased, rfl⟩
  | next he hadd hrest ih =>
    obtain ⟨hbased', hheight⟩ := Ledger.blockHeight_addBlock hbased hadd
    obtain ⟨hsize, hend⟩ := ih hbased'
    exact ⟨hsize, by omega⟩

/-- Where the ledger is stuck, the run is as long as can be. -/
theorem le_of_stuck {l'' : Ledger} (h : c.Stores l k l') (hstuck : c.Stuck l') (h' : c.Stores l j l'') : j ≤ k := by
  induction h generalizing j with
  | nothing l =>
    cases h' with
    | nothing => exact Nat.le_refl 0
    | next he hadd _ =>
      obtain ⟨err, herr⟩ := hstuck _ he
      cases hadd.symm.trans herr
  | next he hadd hrest ih =>
    cases h' with
    | nothing => exact Nat.zero_le _
    | next he' hadd' hrest' =>
      obtain rfl := Option.some.inj (he.symm.trans he')
      obtain ⟨rfl, rfl⟩ := Prod.mk.inj (Except.ok.inj (hadd.symm.trans hadd'))
      exact Nat.succ_le_succ (ih hstuck hrest')

/-- What lies above the ledger's height is all that a run needs. -/
theorem of_above {h : Nat} (hrun : (c.above h).Stores l k l') (hbased : 0 < l.blocks.size) (hle : h ≤ l.blockHeight) :
    c.Stores l k l' := by
  induction hrun with
  | nothing l => exact .nothing l
  | next he hadd hrest ih =>
    obtain ⟨hbased', hheight⟩ := Ledger.blockHeight_addBlock hbased hadd
    rw [get?_above (Nat.lt_succ_of_le hle)] at he
    exact .next he hadd (ih hbased' (by omega))

end BlockCache.Stores

/-! ## One error -/

namespace Pool

/-- The counts of the peers, with one error more for a pooled culprit. They stop at the greatest word. -/
def blaming (culprit : Option PeerId) (pool : Pool) : List (PeerId × Nat × Nat) :=
  pool.peers.map fun p =>
    (p.id, if p.pooled = true ∧ culprit = some p.id then min (p.weight.errors + 1) maxWord else p.weight.errors,
      p.weight.timeouts)

variable {pool : Pool}

omit [Digest] in
theorem counters_penaliseError (hd : (pool.peers.map Peer.id).Nodup) (id : PeerId) :
    (pool.penaliseError id).1.counters = pool.blaming (some id) := by
  unfold counters blaming
  rw [peers_penaliseError hd, List.map_map]
  refine List.map_congr_left fun p _ => ?_
  dsimp only [Function.comp_apply]
  by_cases hp : p.id = id ∧ p.pooled = true
  · rw [if_pos hp, if_pos ⟨hp.2, congrArg some hp.1.symm⟩]
    unfold Peer.faulted
    split <;> rfl
  · rw [if_neg hp, if_neg fun h => hp ⟨(Option.some.inj h.2).symm, h.1⟩]

omit [Digest] in
theorem blaming_none : pool.blaming none = pool.counters := by
  simp [blaming, counters]

end Pool

/-! ## Passes -/

namespace Node

variable {n n' : Node} {k : Nat}

/-- A pass that stores so many blocks and leaves the node behind. -/
structure Pass (n : Node) (k : Nat) (n' : Node) : Prop where
  stores : n.sync.cache.Stores n.ledger k n'.ledger
  stuck : n.sync.cache.Stuck n'.ledger
  height : n'.ledger.blockHeight = n.ledger.blockHeight + k
  sync : n'.sync = { n.sync with cache := n.sync.cache.above (n.ledger.blockHeight + k + 1) }
  counters : n'.pool.counters =
    n.pool.blaming ((n.sync.cache.get? (n.ledger.blockHeight + k + 1)).map CachedBlock.peer)

section
variable (hheights : ∀ e ∈ n.sync.cache.entries, e.height < maxWord)
include hheights

omit [Digest] in
theorem pruned_eq_above : n.pruned = n.sync.cache.above n.ledger.blockHeight :=
  BlockCache.pruneThrough_eq_above hheights n.ledger.blockHeight

omit [Digest] in
theorem ready?_eq_get? : n.ready? = n.sync.cache.get? (n.ledger.blockHeight + 1) := by
  rw [ready?, pruned_eq_above hheights]
  exact BlockCache.get?_above (Nat.lt_succ_self _) n.sync.cache

omit [Digest] in
theorem unloaded_eq_above : n.unloaded = n.setCache (n.sync.cache.above (n.ledger.blockHeight + 1)) := by
  rw [unloaded, pruned_eq_above hheights, BlockCache.take_above]

theorem Pass.of_none (h : n.ready? = none) : n.Pass 0 (n.setCache n.pruned) := by
  have hfree : n.sync.cache.get? (n.ledger.blockHeight + 1) = none := ready?_eq_get? hheights ▸ h
  constructor
  case stores => exact .nothing n.ledger
  case stuck => exact fun e he => absurd (hfree.symm.trans he) (by simp)
  case height => rfl
  case sync =>
    rw [pruned_eq_above hheights, BlockCache.above_succ_of_free hfree]
    rfl
  case counters =>
    rw [Nat.add_zero, hfree]
    exact Pool.blaming_none.symm

theorem Pass.of_rejected (hd : (n.pool.peers.map Peer.id).Nodup) {e : CachedBlock} {err : LedgerError}
    (h : n.ready? = some e) (herr : n.ledger.addBlock e.raw = .error err) :
    n.Pass 0 (n.unloaded.setPool (n.pool.penaliseError e.peer).1) := by
  have hget : n.sync.cache.get? (n.ledger.blockHeight + 1) = some e := ready?_eq_get? hheights ▸ h
  constructor
  case stores => exact .nothing n.ledger
  case stuck =>
    intro e' he'
    obtain rfl : e = e' := Option.some.inj (hget.symm.trans he')
    exact ⟨err, herr⟩
  case height => rfl
  case sync =>
    rw [unloaded_eq_above hheights]
    rfl
  case counters =>
    rw [Nat.add_zero, hget]
    exact Pool.counters_penaliseError hd e.peer

/-- A block that is stored makes the pass behind it longer by one. -/
theorem Pass.of_stored (hbased : 0 < n.ledger.blocks.size) {e : CachedBlock} {b : Block} (h : n.ready? = some e)
    (hadd : n.ledger.addBlock e.raw = .ok (n.ledger.pushBlock b, b)) (hrest : (n.stored b).Pass k n') :
    n.Pass (k + 1) n' := by
  obtain ⟨hbased', hheight⟩ := Ledger.blockHeight_addBlock hbased hadd
  have hcache : (n.stored b).sync.cache = n.sync.cache.above (n.ledger.blockHeight + 1) := by
    rw [stored, unloaded_eq_above hheights]
    rfl
  have hledger : (n.stored b).ledger = n.ledger.pushBlock b := rfl
  have hend : (n.stored b).ledger.blockHeight + k + 1 = n.ledger.blockHeight + (k + 1) + 1 := by
    rw [hledger, hheight]
    omega
  have hover : ∀ h, n.ledger.blockHeight + 1 < h → (n.stored b).sync.cache.get? h = n.sync.cache.get? h := by
    intro h hlt
    rw [hcache]
    exact BlockCache.get?_above hlt n.sync.cache
  have hgrown : n'.ledger.blockHeight = n.ledger.blockHeight + (k + 1) := by
    have := hrest.height
    omega
  constructor
  case stores =>
    refine .next (ready?_eq_get? hheights ▸ h) hadd ?_
    have hrun := hrest.stores
    rw [hcache] at hrun
    exact hrun.of_above hbased' hheight.ge
  case stuck =>
    intro e' he'
    exact hrest.stuck e' ((hover _ (by omega)).trans he')
  case height => exact hgrown
  case sync =>
    rw [hrest.sync, hend, hcache, BlockCache.above_above (by omega)]
    rfl
  case counters =>
    rw [hrest.counters, hend, hover _ (by omega)]
    rfl

end

theorem pass_persist (n : Node) (hheights : ∀ e ∈ n.sync.cache.entries, e.height < maxWord)
    (hbased : 0 < n.ledger.blocks.size) (hd : (n.pool.peers.map Peer.id).Nodup) : n.Pass n.persist.2 n.persist.1 := by
  fun_induction persist n with
  | case1 n base pruned h => exact .of_none hheights h
  | case2 n base pruned e h n'' l b hadd n' k hrest ih =>
    obtain ⟨-, -, rfl⟩ := Ledger.addBlock_eq_ok_iff.1 hadd
    rw [hrest] at ih
    refine .of_stored hheights hbased h hadd (ih ?_ (Ledger.blockHeight_addBlock hbased hadd).1 hd)
    exact fun f hf => hheights f (n.entries_unloaded_subset hf)
  | case3 n base pruned e h n'' err hadd => exact .of_rejected hheights hd h hadd

omit [Digest] in
theorem hasReadyBlock_iff (hordered : n.sync.cache.Ordered) :
    n.hasReadyBlock = true ↔ ∃ e ∈ n.sync.cache.entries, e.height ≤ n.ledger.blockHeight + 1 :=
  hordered.firstHeight?_any_le

theorem Pass.hasReadyBlock_eq_false (h : n.Pass k n') (hordered : n.sync.cache.Ordered) :
    n'.hasReadyBlock = false := by
  have hcache : n'.sync.cache = n.sync.cache.above (n.ledger.blockHeight + k + 1) := congrArg Sync.cache h.sync
  have hordered' : n'.sync.cache.Ordered := by
    rw [hcache]
    exact hordered.of_sublist List.filter_sublist
  refine Bool.eq_false_iff.2 fun hready => ?_
  obtain ⟨e, he, hle⟩ := (hasReadyBlock_iff hordered').1 hready
  rw [hcache] at he
  have habove := (BlockCache.mem_above.1 he).2
  rw [h.height] at hle
  omega

/-- There is something for a pass to act on exactly when it makes the cache smaller. -/
theorem Pass.hasReadyBlock_iff_size_lt (h : n.Pass k n') (hordered : n.sync.cache.Ordered) :
    n.hasReadyBlock = true ↔ n'.sync.cache.size < n.sync.cache.size := by
  have hcache : n'.sync.cache = n.sync.cache.above (n.ledger.blockHeight + k + 1) := congrArg Sync.cache h.sync
  rw [hasReadyBlock_iff hordered, hcache, BlockCache.size_above_lt_iff]
  constructor
  · rintro ⟨e, he, hle⟩
    exact ⟨e, he, by omega⟩
  · rintro ⟨e, he, hle⟩
    -- whatever else leaves the cache, the pass got past the next height only by taking its block
    have hstores := h.stores
    cases k with
    | zero => exact ⟨e, he, hle⟩
    | succ k =>
      cases hstores with
      | next hget _ _ =>
        obtain ⟨hmem, hheight⟩ := BlockCache.mem_of_get? hget
        exact ⟨_, hmem, hheight.le⟩

/-- **What one pass does.** It stores the longest run of blocks cached at the next heights that the ledger accepts,
says how long that was, and takes from the cache the heights up to the first one that it could not store, with the
rejected block cached there, if any. That block is the only one that costs its sender an error. -/
theorem persist_stores_longest_run (n : Node) (hordered : n.sync.cache.Ordered)
    (hheights : ∀ e ∈ n.sync.cache.entries, e.height < maxWord) (hbased : 0 < n.ledger.blocks.size)
    (hd : (n.pool.peers.map Peer.id).Nodup) :
    let c := n.sync.cache
    let n' := n.persist.1
    let k := n.persist.2
    let stop := n.ledger.blockHeight + k + 1
    c.Stores n.ledger k n'.ledger ∧ (∀ j l, c.Stores n.ledger j l → j ≤ k) ∧
      n'.ledger.blockHeight = n.ledger.blockHeight + k ∧
      (∀ e, c.get? stop = some e → ∃ err, n'.ledger.addBlock e.raw = .error err) ∧
      n'.sync = { n.sync with cache := { c with entries := c.entries.filter (stop < ·.height) } } ∧
      n'.pool.counters = n.pool.blaming ((c.get? stop).map CachedBlock.peer) ∧
      n'.hasReadyBlock = false ∧ (n.hasReadyBlock = true ↔ n'.sync.cache.size < c.size) := by
  intro c n' k stop
  have h : n.Pass k n' := n.pass_persist hheights hbased hd
  refine ⟨h.stores, fun j l hrun => h.stores.le_of_stuck h.stuck hrun, h.height, ?_, h.sync, h.counters,
    h.hasReadyBlock_eq_false hordered, h.hasReadyBlock_iff_size_lt hordered⟩
  intro e he
  have hstuck := h.stuck e
  rw [h.height] at hstuck
  exact hstuck he

end Node

/-! ## The cache of a run -/

theorem Node.Move.ordered {known : List Header} {drains : Prop} {n n' : Node} (h : Move known drains n n')
    (hordered : n.sync.cache.Ordered) : n'.sync.cache.Ordered := by
  cases h with
  | pool | header | askHeaders | narrow | askBlocks | headers => exact hordered
  | block => exact hordered.insert _
  | prune => exact hordered.of_sublist (BlockCache.pruneThrough_sublist _ _)
  | store | drop =>
    exact hordered.of_sublist ((BlockCache.take_sublist _ _).trans (BlockCache.pruneThrough_sublist _ _))

/-- Every run keeps the cache in order. -/
theorem World.ordered_run {w : World} {g : Block} {config : SyncConfig} (hw : w.IsFresh g config)
    (actions : List Action) : (w.run actions).node.sync.cache.Ordered := by
  have hempty : w.node.sync.cache.Ordered := by
    rw [hw.2]
    exact BlockCache.ordered_empty _
  have hmoves : Node.Moves (deliveredHeaders actions) True w.node (w.run actions).node :=
    World.moves_run actions w (fun _ h => h) fun _ _ _ => trivial
  exact hmoves.preserve (P := fun n => n.sync.cache.Ordered) Node.Move.ordered hempty

end

/-! ## A pass that is stopped -/

namespace Scripted

def emptyBlock (index : UInt32) : Block :=
  { genesisBlock with header := { genesisBlock.header with index } }

/-- A stale block, the next one, one that cannot be read, and one behind a gap. -/
def mixedCache : BlockCache where
  capacity := 4
  entries := [⟨genesisBlock, [], 1⟩, ⟨firstBlock, Codec.encode firstBlock, 1⟩, ⟨emptyBlock 2, [], 2⟩,
    ⟨emptyBlock 4, [], 1⟩]

def mixedNode : Node :=
  let w := smallWorld.run
    [.churn (.arrive (address 1) false (version 1 10333 4)), .churn (.arrive (address 2) false (version 2 10333 4))]
  { w.node.setCache mixedCache with ledger := (Ledger.ofGenesis genesisBlock).pushHeader firstBlock.header }

theorem mixedNode_first : mixedNode.ledger.addBlock (Codec.encode firstBlock) =
    .ok (mixedNode.ledger.pushBlock firstBlock, firstBlock) := by
  have hfollows : mixedNode.ledger.Follows [genesisBlock, firstBlock] :=
    (Ledger.follows_ofGenesis rfl).pushHeader valid_firstChain rfl
  have hlimits : firstBlock.WithinLimits := valid_firstChain.limits firstBlock (by simp)
  exact Ledger.addBlock_eq_ok_iff.2
    ⟨hlimits.faithful.ofBytes_encode, hfollows.fits valid_firstChain rfl (by decide), rfl⟩

theorem mixedNode_run : mixedNode.sync.cache.Stores mixedNode.ledger 1 (mixedNode.ledger.pushBlock firstBlock) :=
  .next rfl mixedNode_first (.nothing _)

theorem mixedNode_stuck : mixedNode.sync.cache.Stuck (mixedNode.ledger.pushBlock firstBlock) := by
  intro e he
  obtain rfl : ⟨emptyBlock 2, [], 2⟩ = e := Option.some.inj he
  exact ⟨_, rfl⟩

end Scripted

open Scripted in
/-- The block that cannot be read ends the pass behind the first one, and costs the second peer an error. -/
theorem Node.persist_stores_longest_run_mixed :
    mixedNode.persist.2 = 1 ∧ mixedNode.persist.1.ledger.blockHeight = 1 ∧
      mixedNode.persist.1.sync.cache.entries.map CachedBlock.height = [4] ∧
      mixedNode.persist.1.pool.counters = [(1, 0, 0), (2, 1, 0)] ∧
      mixedNode.hasReadyBlock = true ∧ mixedNode.persist.1.hasReadyBlock = false := by
  have hordered : mixedNode.sync.cache.Ordered := by
    unfold BlockCache.Ordered
    decide
  obtain ⟨hstores, hlongest, hheight, -, hsync, hcounters, hidle, -⟩ :=
    Node.persist_stores_longest_run mixedNode hordered (by decide) (by decide) (by decide)
  have hcache : mixedNode.persist.1.sync.cache =
      mixedNode.sync.cache.above (mixedNode.ledger.blockHeight + mixedNode.persist.2 + 1) :=
    congrArg Sync.cache hsync
  have hk : mixedNode.persist.2 = 1 :=
    Nat.le_antisymm (mixedNode_run.le_of_stuck mixedNode_stuck hstores) (hlongest _ _ mixedNode_run)
  rw [hk] at hheight hcache hcounters
  refine ⟨hk, hheight, ?_, hcounters.trans (by decide), by decide, hidle⟩
  rw [hcache]
  decide

end ChainSync
