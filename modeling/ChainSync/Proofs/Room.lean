import ChainSync.Proofs.Cache
import ChainSync.Proofs.Moves
import ChainSync.Hash.Sha256

/-!
# Room in the block cache

Outstanding requests and cached blocks share the capacity of the cache and
never name the same height, so a block that was asked for always finds its
place (`Accounted`). Besides, one slot is kept for the next height, or that
height is under way already (`NextHasPlace`): a full cache can be persisted.
-/

namespace ChainSync

section
variable [Digest]

/-! ## Accounting -/

/-- Requests and cached blocks of a node whose headers all come from a list of known ones. -/
structure Node.Accounted (known : List Header) (n : Node) : Prop where
  ledger : n.ledger.WellFormed
  known : ∀ i h, n.ledger.headers[i + 1]? = some h → h ∈ known
  room : n.sync.blocks.length + n.sync.cache.size ≤ n.sync.cache.capacity
  asked : ∀ e ∈ n.sync.blocks, n.ledger.blockHeight < e.2.height ∧ e.2.height ≤ n.ledger.headerHeight ∧
    n.ledger.hashAt e.2.height = e.1
  above : ∀ e ∈ n.sync.cache.entries, n.ledger.blockHeight < e.height
  apart : ∀ e ∈ n.sync.blocks, n.sync.cache.contains e.2.height = false

theorem World.IsFresh.accounted {w : World} {g : Block} {config : SyncConfig} (h : w.IsFresh g config)
    (known : List Header) : w.node.Accounted known := by
  obtain ⟨hledger, hsync⟩ := h
  constructor
  case ledger => exact hledger ▸ Ledger.wellFormed_ofGenesis g
  case known => intro i x hx; simp [hledger, Ledger.ofGenesis] at hx
  case room => simp [hsync, Sync.fresh, BlockCache.empty, BlockCache.size]
  case asked => intro e he; simp [hsync, Sync.fresh] at he
  case above => intro e he; simp [hsync, Sync.fresh, BlockCache.empty] at he
  case apart => intro e he; simp [hsync, Sync.fresh] at he

namespace Node.Accounted

variable {known : List Header} {n : Node}

theorem height_of_hashAt (hn : n.Accounted known) (hfree : CollisionFree known) {h : Header} (hh : h ∈ known)
    {i : Nat} (hi : 0 < i) (hle : i ≤ n.ledger.headerHeight) (hhash : n.ledger.hashAt i = h.hash) : h.height = i := by
  obtain ⟨x, hx⟩ := hn.ledger.header_of_le hle
  obtain ⟨j, rfl⟩ : ∃ j, i = j + 1 := ⟨i - 1, by omega⟩
  have hxh : x.hash = h.hash := by rw [← hn.ledger.hashAt_of_header hx, hhash]
  rw [← hfree.height_eq (hn.known j x hx) hh hxh]
  exact hn.ledger.index _ x hi hx

theorem height_of_asked (hn : n.Accounted known) (hfree : CollisionFree known) {b : Block} (hb : b.header ∈ known)
    {e : Hash × Request} (he : e ∈ n.sync.blocks) (hkey : e.1 = b.hash) : b.height = e.2.height := by
  obtain ⟨h1, h2, h3⟩ := hn.asked e he
  exact hn.height_of_hashAt hfree hb (Nat.zero_lt_of_lt h1) h2 (h3.trans hkey)

theorem eq_of_hashAt_eq (hn : n.Accounted known) (hfree : CollisionFree known) {i j : Nat} (hi : 0 < i) (hj : 0 < j)
    (hi' : i ≤ n.ledger.headerHeight) (hj' : j ≤ n.ledger.headerHeight)
    (h : n.ledger.hashAt i = n.ledger.hashAt j) : i = j := by
  obtain ⟨x, hx⟩ := hn.ledger.header_of_le hj'
  obtain ⟨k, rfl⟩ : ∃ k, j = k + 1 := ⟨j - 1, by omega⟩
  have hxi := hn.height_of_hashAt hfree (hn.known k x hx) hi hi' (by rw [h, hn.ledger.hashAt_of_header hx])
  rw [← hxi]
  exact hn.ledger.index _ x hj hx

/-- Each height of a batch has its request: no other height would replace it under the same hash. -/
theorem exists_request (hn : n.Accounted known) (hfree : CollisionFree known) (now : Instant) (peer : PeerId)
    {top h : Nat} (hmem : (h, n.ledger.hashAt h) ∈ n.missingBlocks top) :
    ∃ e ∈ issue now peer (n.missingBlocks top), e.2.height = h := by
  obtain ⟨h1, h2, -⟩ := of_mem_missingBlocks hmem
  obtain ⟨e, he, hkey⟩ := exists_mem_issue now peer hmem
  obtain ⟨x, hx, rfl⟩ := of_mem_issue he
  obtain ⟨h3, h4, -, -, h5⟩ := of_mem_missingBlocks hx
  refine ⟨_, he, hn.eq_of_hashAt_eq hfree (Nat.zero_lt_of_lt h3) (Nat.zero_lt_of_lt h1) h4 h2 ?_⟩
  exact h5.symm.trans hkey

theorem height_ne (hn : n.Accounted known) {e : Hash × Request} (he : e ∈ n.sync.blocks) {f : CachedBlock}
    (hf : f ∈ n.sync.cache.entries) : f.height ≠ e.2.height := by
  intro heq
  have hfree := hn.apart e he
  rw [← heq, BlockCache.contains_of_mem hf] at hfree
  cases hfree

theorem pruned_eq (hn : n.Accounted known) : n.pruned = n.sync.cache :=
  BlockCache.pruneThrough_of_above hn.above

/-! ## What keeps the account -/

theorem setPool (hn : n.Accounted known) (pool : Pool) : (n.setPool pool).Accounted known :=
  ⟨hn.ledger, hn.known, hn.room, hn.asked, hn.above, hn.apart⟩

theorem setHeader (hn : n.Accounted known) (r : Option Request) : (n.setHeader r).Accounted known :=
  ⟨hn.ledger, hn.known, hn.room, hn.asked, hn.above, hn.apart⟩

theorem narrow (hn : n.Accounted known) {blocks : List (Hash × Request)} (h : Narrows n.sync.blocks blocks) :
    (n.setBlocks blocks).Accounted known := by
  constructor
  case ledger => exact hn.ledger
  case known => exact hn.known
  case room => exact Nat.le_trans (Nat.add_le_add_right h.length_le _) hn.room
  case asked =>
    intro e he
    obtain ⟨e', he', h1, h2⟩ := h.mem he
    rw [← h1, ← h2]
    exact hn.asked e' he'
  case above => exact hn.above
  case apart =>
    intro e he
    obtain ⟨e', he', -, h2⟩ := h.mem he
    rw [← h2]
    exact hn.apart e' he'

theorem issue (hn : n.Accounted known) (now : Instant) (peer : PeerId) (top : Nat) :
    (n.setBlocks (Node.issue now peer (n.missingBlocks top))).Accounted known := by
  constructor
  case ledger => exact hn.ledger
  case known => exact hn.known
  case room =>
    have h1 := length_issue_le now peer (n.missingBlocks top)
    have h2 := length_missingBlocks_le top n
    have h3 : n.batchLimit ≤ n.sync.cache.capacity - n.sync.cache.size :=
      Nat.le_trans (Nat.min_le_left _ _) (Nat.min_le_left _ _)
    have h4 := hn.room
    show (Node.issue now peer (n.missingBlocks top)).length + n.sync.cache.size ≤ n.sync.cache.capacity
    omega
  case asked =>
    intro e he
    obtain ⟨x, hx, rfl⟩ := of_mem_issue he
    obtain ⟨h1, h2, -, -, h3⟩ := of_mem_missingBlocks hx
    exact ⟨h1, h2, h3.symm⟩
  case above => exact hn.above
  case apart =>
    intro e he
    obtain ⟨x, hx, rfl⟩ := of_mem_issue he
    exact (of_mem_missingBlocks hx).2.2.2.1

theorem addHeaders (hn : n.Accounted known) {hs : List Header} (hknown : ∀ h ∈ hs, h ∈ known) :
    ({ n with ledger := (n.ledger.addHeaders hs).1 } : Node).Accounted known := by
  have hext := Ledger.extends_addHeaders hs n.ledger
  have hbase := Ledger.blockHeight_addHeaders hs n.ledger
  constructor
  case ledger => exact hn.ledger.addHeaders hs
  case known =>
    refine Ledger.addHeaders_preserves
      (P := fun l => ∀ i h, l.headers[i + 1]? = some h → h ∈ known) hs n.ledger ?_ hn.known
    intro l h hh _ hl i x hx
    rcases Ledger.get?_of_push hx with ⟨-, rfl⟩ | hx
    · exact hknown x hh
    · exact hl i x hx
  case room => exact hn.room
  case asked =>
    intro e he
    obtain ⟨h1, h2, h3⟩ := hn.asked e he
    refine ⟨hbase ▸ h1, Nat.le_trans h2 hext.headerHeight_le, ?_⟩
    rw [← h3]
    exact hn.ledger.hashAt_of_extends hext h2
  case above =>
    intro e he
    exact hbase ▸ hn.above e he
  case apart => exact hn.apart

/-- A block that was asked for is of the height it was asked for, and neither the capacity nor another
block of this height is in its way. -/
theorem slot_of_requested (hn : n.Accounted known) (hfree : CollisionFree known) {b : Block} {r : Request}
    (hb : b.header ∈ known) (hr : n.blockRequest? b.hash = some r) :
    b.height = r.height ∧ n.sync.cache.size < n.sync.cache.capacity ∧ n.sync.cache.contains b.height = false := by
  have hmem := Assoc.mem_of_get? hr
  have hheight : b.height = r.height := hn.height_of_asked hfree hb hmem rfl
  have hroom := hn.room
  have hpos := List.length_pos_of_mem hmem
  refine ⟨hheight, by omega, ?_⟩
  rw [hheight]
  exact hn.apart _ hmem

theorem receiveBlock_eq (hn : n.Accounted known) (hfree : CollisionFree known) {b : Block} {r : Request}
    (hb : b.header ∈ known) (hr : n.blockRequest? b.hash = some r) (now : Instant) (peer : PeerId) (raw : Bytes) :
    n.receiveBlock now peer b raw =
      (noteSpeed now peer raw.length r (n.setBlocks (Assoc.erase b.hash n.sync.blocks))).setCache
        { n.sync.cache with entries := BlockCache.place ⟨b, raw, peer⟩ n.sync.cache.entries } := by
  obtain ⟨hheight, hsize, hslot⟩ := hn.slot_of_requested hfree hb hr
  obtain ⟨h1, h2, -⟩ := hn.asked _ (Assoc.mem_of_get? hr)
  have hins := BlockCache.insert_of_free (e := ⟨b, raw, peer⟩) hsize hslot
  have hnear : ¬n.ledger.headerHeight + 1 < b.height := by dsimp only at h2; omega
  have habove : ¬b.height ≤ n.ledger.blockHeight := by dsimp only at h1; omega
  rw [receiveBlock_of_requested hr]
  dsimp only
  rw [ledger_noteSpeed, sync_noteSpeed, if_neg (by simp [setBlocks, hnear, habove])]
  show setCache (n.sync.cache.insert ⟨b, raw, peer⟩).1 _ = _
  rw [hins]

theorem receive (hn : n.Accounted known) (hfree : CollisionFree known) (peer : PeerId) {b : Block} (raw : Bytes)
    {r : Request} (hb : b.header ∈ known) (hr : n.blockRequest? b.hash = some r)
    (hheight : n.ledger.blockHeight < b.height) :
    ((n.setBlocks (Assoc.erase b.hash n.sync.blocks)).setCache
      (n.sync.cache.insert ⟨b, raw, peer⟩).1).Accounted known := by
  have hn' := hn.narrow (narrows_erase b.hash n.sync.blocks)
  obtain ⟨hb', -, -⟩ := hn.slot_of_requested hfree hb hr
  constructor
  case ledger => exact hn.ledger
  case known => exact hn.known
  case room =>
    have h1 := Assoc.length_erase_lt hr
    have h2 := BlockCache.size_insert_le ⟨b, raw, peer⟩ n.sync.cache
    have h3 := hn.room
    show (Assoc.erase b.hash n.sync.blocks).length + (n.sync.cache.insert ⟨b, raw, peer⟩).1.size ≤
      (n.sync.cache.insert ⟨b, raw, peer⟩).1.capacity
    rw [BlockCache.capacity_insert]
    omega
  case asked => exact hn'.asked
  case above =>
    intro e he
    rcases BlockCache.of_mem_insert he with rfl | he
    · exact hheight
    · exact hn.above e he
  case apart =>
    intro e he
    obtain ⟨he, hne⟩ := Assoc.mem_erase.1 he
    refine Bool.eq_false_iff.2 fun hcon => ?_
    obtain ⟨f, hf, hfe⟩ := BlockCache.contains_iff.1 hcon
    rcases BlockCache.of_mem_insert hf with rfl | hf
    · -- a second request for the height of `b` would have the hash of `b`
      have hbe : b.height = e.2.height := hfe
      obtain ⟨-, -, h3⟩ := hn.asked e he
      obtain ⟨-, -, h4⟩ := hn.asked _ (Assoc.mem_of_get? hr)
      exact hne (by rw [← h3, ← hbe, hb', h4])
    · exact hn.height_ne he hf hfe

theorem shrink (hn : n.Accounted known) {c : BlockCache} (hcap : c.capacity = n.sync.cache.capacity)
    (hsub : c.entries.Sublist n.sync.cache.entries) : (n.setCache c).Accounted known := by
  constructor
  case ledger => exact hn.ledger
  case known => exact hn.known
  case room =>
    have h1 : c.size ≤ n.sync.cache.size := hsub.length_le
    have h2 := hn.room
    show n.sync.blocks.length + c.size ≤ c.capacity
    omega
  case asked => exact hn.asked
  case above => exact fun e he => hn.above e (hsub.subset he)
  case apart => exact fun e he => BlockCache.contains_of_sublist hsub (hn.apart e he)

theorem unload (hn : n.Accounted known) : n.unloaded.Accounted known :=
  hn.shrink rfl ((BlockCache.take_sublist _ _).trans (BlockCache.pruneThrough_sublist _ _))

theorem ready_mem (hn : n.Accounted known) {e : CachedBlock} (h : n.ready? = some e) :
    e ∈ n.sync.cache.entries ∧ e.height = n.ledger.blockHeight + 1 := by
  unfold ready? at h
  rw [hn.pruned_eq] at h
  exact BlockCache.mem_of_get? h

theorem size_unloaded_lt (hn : n.Accounted known) {e : CachedBlock} (h : n.ready? = some e) :
    n.unloaded.sync.cache.size < n.sync.cache.size := by
  have := BlockCache.size_take_lt (c := n.pruned) h
  rw [hn.pruned_eq] at this
  show ((n.pruned.take _).1).size < _
  rwa [hn.pruned_eq]

theorem store (hn : n.Accounted known) {e : CachedBlock} {b : Block} (he : n.ready? = some e) (hb : n.ledger.Fits b) :
    (n.stored b).Accounted known := by
  have hbase := hn.ledger.blockHeight_pushBlock b
  have hu := hn.unload
  obtain ⟨hmem, hheight⟩ := hn.ready_mem he
  constructor
  case ledger => exact hn.ledger.pushBlock hb
  case known => exact hn.known
  case room => exact hu.room
  case asked =>
    intro f hf
    obtain ⟨h1, h2, h3⟩ := hn.asked f hf
    refine ⟨?_, h2, h3⟩
    -- the height just stored was cached, so nothing is asked for there
    have hne := hn.height_ne hf hmem
    show (n.ledger.pushBlock b).blockHeight < f.2.height
    omega
  case above =>
    intro f hf
    have h1 := hu.above f hf
    have h2 : f.height ≠ n.ledger.blockHeight + 1 := (BlockCache.mem_take.1 hf).2
    show (n.ledger.pushBlock b).blockHeight < f.height
    have h3 : n.ledger.blockHeight < f.height := h1
    omega
  case apart => exact hu.apart

theorem move (hfree : CollisionFree known) {drains : Prop} {n n' : Node} (hn : n.Accounted known)
    (h : Move known drains n n') : n'.Accounted known := by
  cases h with
  | pool pool => exact hn.setPool pool
  | header header h => exact hn.setHeader header
  | askHeaders now peer hnone hahead => exact hn.setHeader _
  | narrow blocks h => exact hn.narrow h
  | askBlocks now peer top hnone hheader hlimit htop => exact hn.issue now peer top
  | headers hs r first hknown hr hfirst hheight hnew => exact (hn.addHeaders hknown).setHeader none
  | block peer b raw r hknown hr hheight => exact hn.receive hfree peer raw hknown hr hheight
  | prune hd => exact hn.shrink rfl (BlockCache.pruneThrough_sublist _ _)
  | store e b he hraw hb hd => exact hn.store he hb
  | drop e he hd => exact hn.unload

theorem moves (hfree : CollisionFree known) {drains : Prop} {n n' : Node} (hn : n.Accounted known)
    (h : Moves known drains n n') : n'.Accounted known :=
  h.preserve (fun hm hn => hn.move hfree hm) hn

end Node.Accounted

theorem Node.capacity_move {known : List Header} {drains : Prop} {n n' : Node} (h : Move known drains n n') :
    n'.sync.cache.capacity = n.sync.cache.capacity := by
  cases h with
  | block peer b raw r hknown hr hheight => exact BlockCache.capacity_insert _ _
  | _ => rfl

theorem Node.config_move {known : List Header} {drains : Prop} {n n' : Node} (h : Move known drains n n') :
    n'.sync.config = n.sync.config := by
  cases h <;> rfl

/-! ## Runs -/

theorem World.config_run (w : World) (actions : List Action) :
    (w.run actions).node.sync.config = w.node.sync.config ∧
      (w.run actions).node.sync.cache.capacity = w.node.sync.cache.capacity := by
  have hmoves : Node.Moves (deliveredHeaders actions) True w.node (w.run actions).node :=
    World.moves_run actions w (fun _ h => h) fun _ _ _ => trivial
  exact hmoves.preserve
    (P := fun n => n.sync.config = w.node.sync.config ∧ n.sync.cache.capacity = w.node.sync.cache.capacity)
    (fun hm hn => ⟨(Node.config_move hm).trans hn.1, (Node.capacity_move hm).trans hn.2⟩) ⟨rfl, rfl⟩

section
variable {w : World} {g : Block} {config : SyncConfig} (hw : w.IsFresh g config)
include hw

theorem World.IsFresh.capacity_run (actions : List Action) :
    (w.run actions).node.sync.cache.capacity = config.cacheCapacity := by
  rw [(w.config_run actions).2, hw.2]
  rfl

theorem World.IsFresh.accounted_run {known : List Header} (hfree : CollisionFree known) (actions : List Action)
    (hknown : ∀ h ∈ deliveredHeaders actions, h ∈ known) : (w.run actions).node.Accounted known := by
  have hmoves : Node.Moves known True w.node (w.run actions).node :=
    World.moves_run actions w hknown fun _ _ _ => trivial
  exact (hw.accounted known).moves hfree hmoves

end

/-- Behind every run requests and cached blocks fit into the cache, at different heights; a request is
keyed by the hash stored for its height, above the last block; and each delivery of a block that is
asked for during the run goes into the cache. -/
theorem World.room_in_run {w : World} {g : Block} {config : SyncConfig} (hw : w.IsFresh g config)
    (actions : List Action) (hfree : CollisionFree (deliveredHeaders actions)) :
    (let n := (w.run actions).node
     n.sync.blocks.length + n.sync.cache.size ≤ config.cacheCapacity ∧
     (∀ e ∈ n.sync.blocks, n.sync.cache.contains e.2.height = false) ∧
     ∀ e ∈ n.sync.blocks, n.ledger.hashAt e.2.height = e.1 ∧ n.ledger.blockHeight < e.2.height) ∧
    ∀ earlier later peer b raw r, actions = earlier ++ .block peer b raw :: later →
      (w.run earlier).node.blockRequest? b.hash = some r →
      let held := (w.run earlier).node.sync.cache.insert ⟨b, raw, peer⟩
      held.2 = true ∧ (w.run (earlier ++ [.block peer b raw])).node.sync.cache = held.1 := by
  constructor
  · have hn := hw.accounted_run hfree actions fun _ h => h
    refine ⟨?_, hn.apart, fun e he => ?_⟩
    · rw [← hw.capacity_run actions]
      exact hn.room
    · obtain ⟨h1, -, h3⟩ := hn.asked e he
      exact ⟨h3, h1⟩
  · intro earlier later peer b raw r hactions hr
    have hearlier : ∀ h ∈ deliveredHeaders earlier, h ∈ deliveredHeaders actions := by
      intro h hh
      rw [hactions, deliveredHeaders_append]
      exact List.mem_append_left _ hh
    have hb : b.header ∈ deliveredHeaders actions :=
      List.mem_flatMap.2 ⟨.block peer b raw, by simp [hactions], List.mem_singleton.2 rfl⟩
    have hn := hw.accounted_run hfree earlier hearlier
    obtain ⟨-, hsize, hslot⟩ := hn.slot_of_requested hfree hb hr
    rw [BlockCache.insert_of_free (e := ⟨b, raw, peer⟩) hsize hslot, run_append]
    refine ⟨rfl, ?_⟩
    show (Node.receiveBlock _ peer b raw (w.run earlier).node).sync.cache = _
    rw [hn.receiveBlock_eq hfree hb hr]
    rfl

end

theorem Scripted.firstDelivery_fills : firstBlock.hash ≠ Hash.zero ∧
    (smallWorld.run firstDelivery).node.sync.cache.isFull = true := by
  decide +kernel

/-- The first block of a chain is asked for, and fills a cache of one slot. -/
theorem World.room_in_run_first :
    let w : World := Scripted.smallWorld
    let n := (w.run Scripted.firstDelivery).node
    CollisionFree (deliveredHeaders Scripted.firstDelivery) ∧ n.sync.cache.isFull = true ∧
      n.sync.blocks.length + n.sync.cache.size ≤ 1 := by
  have hfree : CollisionFree (deliveredHeaders Scripted.firstDelivery) := by
    simp [CollisionFree, deliveredHeaders, Scripted.firstDelivery, Action.delivered]
  have hroom := World.room_in_run (w := Scripted.smallWorld) ⟨rfl, rfl⟩ Scripted.firstDelivery hfree
  exact ⟨hfree, Scripted.firstDelivery_fills.2, hroom.1.1⟩

end ChainSync
