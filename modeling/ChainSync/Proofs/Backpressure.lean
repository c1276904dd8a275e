import ChainSync.Proofs.Room

/-!
# A full cache can be worked off

No request is issued while the cache is full, so the sync would stall if the
cache filled up without the next height. It cannot: as long as that height is
neither asked for nor cached, a slot is left for it (`NextHasPlace`). Every
batch is led by the next height, and what frees the place of one block never
takes the slot of another.
-/

namespace ChainSync

section
variable [Digest]

def Node.NextHasPlace (n : Node) : Prop :=
  (∃ e ∈ n.sync.blocks, e.2.height = n.ledger.blockHeight + 1) ∨
    n.sync.cache.contains (n.ledger.blockHeight + 1) = true ∨
      n.sync.blocks.length + n.sync.cache.size < n.sync.cache.capacity

theorem World.IsFresh.nextHasPlace {w : World} {g : Block} {config : SyncConfig} (h : w.IsFresh g config)
    (hcap : 1 ≤ config.cacheCapacity) : w.node.NextHasPlace := by
  refine Or.inr (Or.inr ?_)
  rw [h.2]
  exact hcap

namespace Node.NextHasPlace

variable {known : List Header} {n : Node}

omit [Digest] in
theorem narrow (h : n.NextHasPlace) {blocks : List (Hash × Request)} (hb : Narrows n.sync.blocks blocks)
    (hroom : n.sync.blocks.length + n.sync.cache.size ≤ n.sync.cache.capacity) :
    (n.setBlocks blocks).NextHasPlace := by
  rcases h with ⟨e, he, hnext⟩ | h | h
  · rcases hb.keeps_or_shrinks he with ⟨e', he', heq⟩ | hlt
    · exact Or.inl ⟨e', he', heq.trans hnext⟩
    · refine Or.inr (Or.inr ?_)
      show blocks.length + n.sync.cache.size < n.sync.cache.capacity
      omega
  · exact Or.inr (Or.inl h)
  · refine Or.inr (Or.inr ?_)
    have := hb.length_le
    show blocks.length + n.sync.cache.size < n.sync.cache.capacity
    omega

theorem issue (hn : n.Accounted known) (hfree : CollisionFree known) (hzero : ∀ h ∈ known, h.hash ≠ Hash.zero)
    {now : Instant} {peer : PeerId} {top : Nat} (hheader : n.ledger.blockHeight < n.ledger.headerHeight)
    (hlimit : 0 < n.batchLimit) (htop : n.ledger.blockHeight + 1 ≤ top) :
    (n.setBlocks (Node.issue now peer (n.missingBlocks top))).NextHasPlace := by
  by_cases hcached : n.sync.cache.contains (n.ledger.blockHeight + 1) = true
  · exact Or.inr (Or.inl hcached)
  · have hhash : (n.ledger.hashAt (n.ledger.blockHeight + 1)).isZero = false := by
      obtain ⟨x, hx⟩ := hn.ledger.header_of_le hheader
      rw [hn.ledger.hashAt_of_header hx]
      exact beq_false_of_ne (hzero x (hn.known _ x hx))
    have hlead := next_mem_missingBlocks hlimit hheader htop (by simpa using hcached) hhash
    exact Or.inl (hn.exists_request hfree now peer hlead)

theorem addHeaders (h : n.NextHasPlace) (hs : List Header) :
    ({ n with ledger := (n.ledger.addHeaders hs).1 } : Node).NextHasPlace := by
  unfold NextHasPlace
  dsimp only
  rw [Ledger.blockHeight_addHeaders]
  exact h

/-- The block of the next height moves from the requests to the cache; any other leaves its place to it. -/
theorem receive (h : n.NextHasPlace) (hn : n.Accounted known) (hfree : CollisionFree known) (peer : PeerId) {b : Block}
    (raw : Bytes) {r : Request} (hb : b.header ∈ known) (hr : n.blockRequest? b.hash = some r) :
    ((n.setBlocks (Assoc.erase b.hash n.sync.blocks)).setCache
      (n.sync.cache.insert ⟨b, raw, peer⟩).1).NextHasPlace := by
  obtain ⟨hheight, hsize, hslot⟩ := hn.slot_of_requested hfree hb hr
  have hins := BlockCache.insert_of_free (e := ⟨b, raw, peer⟩) hsize hslot
  rcases h with ⟨e, he, hnext⟩ | h | h
  · by_cases hkey : e.1 = b.hash
    · -- the request answered is the one for the next height
      have heq : b.height = e.2.height := hn.height_of_asked hfree hb he hkey
      refine Or.inr (Or.inl ?_)
      rw [hins]
      exact BlockCache.contains_place.2 (Or.inl (heq.trans hnext).symm)
    · exact Or.inl ⟨e, Assoc.mem_erase.2 ⟨he, hkey⟩, hnext⟩
  · refine Or.inr (Or.inl ?_)
    rw [hins]
    exact BlockCache.contains_place.2 (Or.inr h)
  · refine Or.inr (Or.inr ?_)
    have h1 := Assoc.length_erase_lt hr
    have h2 := BlockCache.size_insert_le ⟨b, raw, peer⟩ n.sync.cache
    show (Assoc.erase b.hash n.sync.blocks).length + (n.sync.cache.insert ⟨b, raw, peer⟩).1.size <
      (n.sync.cache.insert ⟨b, raw, peer⟩).1.capacity
    rw [BlockCache.capacity_insert]
    omega

theorem unload (hn : n.Accounted known) {e : CachedBlock} (he : n.ready? = some e) :
    n.sync.blocks.length + n.unloaded.sync.cache.size < n.sync.cache.capacity := by
  have h1 := hn.size_unloaded_lt he
  have h2 := hn.room
  omega

theorem move (hfree : CollisionFree known) (hzero : ∀ h ∈ known, h.hash ≠ Hash.zero) {drains : Prop} {n n' : Node}
    (hm : Move known drains n n') (hn : n.Accounted known) (h : n.NextHasPlace) : n'.NextHasPlace := by
  cases hm with
  | pool pool => exact h
  | header header hr => exact h
  | askHeaders now peer hnone hahead => exact h
  | narrow blocks hb => exact h.narrow hb hn.room
  | askBlocks now peer top hnone hheader hlimit htop => exact issue hn hfree hzero hheader hlimit htop
  | headers hs r first hknown hr hfirst hheight hnew => exact h.addHeaders hs
  | block peer b raw r hknown hr hheight => exact h.receive hn hfree peer raw hknown hr
  | prune hd =>
    rw [hn.pruned_eq]
    exact h
  | store e b he hraw hb hd => exact Or.inr (Or.inr (unload hn he))
  | drop e he hd => exact Or.inr (Or.inr (unload hn he))

theorem contains_of_full (h : n.NextHasPlace) (hn : n.Accounted known) (hfull : n.sync.cache.isFull = true) :
    n.sync.cache.contains (n.ledger.blockHeight + 1) = true := by
  have hsize := BlockCache.isFull_iff.1 hfull
  have hroom := hn.room
  rcases h with ⟨e, he, -⟩ | h | h
  · have := List.length_pos_of_mem he
    omega
  · exact h
  · omega

end Node.NextHasPlace

/-! ## The size of the cache -/

theorem Node.size_le_move {known : List Header} {n n' : Node} (h : Move known False n n') :
    n.sync.cache.size ≤ n'.sync.cache.size := by
  cases h with
  | block peer b raw r hknown hr hheight => exact BlockCache.size_le_insert _ _
  | prune hd => exact hd.elim
  | store e b he hraw hb hd => exact hd.elim
  | drop e he hd => exact hd.elim
  | _ => exact Nat.le_refl _

theorem Node.size_persist_le (n : Node) : n.persist.1.sync.cache.size ≤ n.sync.cache.size := by
  have hpruned := fun m : Node => BlockCache.size_pruneThrough_le m.ledger.blockHeight m.sync.cache
  have hunloaded : ∀ m : Node, m.unloaded.sync.cache.size ≤ m.sync.cache.size := fun m =>
    Nat.le_trans (List.Sublist.length_le (BlockCache.take_sublist _ _)) (hpruned m)
  refine persist_preserves (P := fun m => m.sync.cache.size ≤ n.sync.cache.size)
    (Q := fun m => m.sync.cache.size ≤ n.sync.cache.size) ?_ ?_ ?_ n (Nat.le_refl _)
  · intro m hm _
    exact Nat.le_trans (hpruned m) hm
  · intro m e b hm _ _ _
    exact Nat.le_trans (hunloaded m) hm
  · intro m e err pool hm _ _
    exact Nat.le_trans (hunloaded m) hm

/-- A pass that finds the next block takes it out, stored or not. -/
theorem Node.Accounted.size_persist_lt {known : List Header} {n : Node} (hn : n.Accounted known)
    (h : n.sync.cache.contains (n.ledger.blockHeight + 1) = true) :
    n.persist.1.sync.cache.size < n.sync.cache.size := by
  obtain ⟨e, he⟩ : ∃ e, n.ready? = some e := by
    unfold Node.ready?
    rw [hn.pruned_eq]
    exact Option.isSome_iff_exists.1 h
  have hlt := hn.size_unloaded_lt he
  cases hadd : n.ledger.addBlock e.raw with
  | error err =>
    rw [Node.persist_of_rejected he hadd]
    exact hlt
  | ok r =>
    obtain ⟨hraw, hb, -⟩ := Ledger.addBlock_eq_ok_iff.1 hadd
    rw [Node.persist_of_fits he hraw hb]
    exact Nat.lt_of_le_of_lt (Node.size_persist_le _) hlt

/-! ## Runs -/

theorem World.IsFresh.nextHasPlace_run {w : World} {g : Block} {config : SyncConfig} (hw : w.IsFresh g config)
    (hcap : 1 ≤ config.cacheCapacity) {known : List Header} (hfree : CollisionFree known)
    (hzero : ∀ h ∈ known, h.hash ≠ Hash.zero) (actions : List Action)
    (hknown : ∀ h ∈ deliveredHeaders actions, h ∈ known) : (w.run actions).node.NextHasPlace := by
  have hmoves : Node.Moves known True w.node (w.run actions).node :=
    World.moves_run actions w hknown fun _ _ _ => trivial
  have hboth := hmoves.preserve (P := fun n => n.Accounted known ∧ n.NextHasPlace)
    (fun hm hn => ⟨hn.1.move hfree hm, Node.NextHasPlace.move hfree hzero hm hn.1 hn.2⟩)
    ⟨hw.accounted known, hw.nextHasPlace hcap⟩
  exact hboth.2

/-- Behind every run a full cache holds the next block. Until the next pass of persisting it stays full,
and that pass makes it smaller. -/
theorem World.full_cache_is_worked_off {w : World} {g : Block} {config : SyncConfig} (hw : w.IsFresh g config)
    (hcap : 1 ≤ config.cacheCapacity) (actions : List Action) (hfree : CollisionFree (deliveredHeaders actions))
    (hzero : ∀ h ∈ deliveredHeaders actions, h.hash ≠ Hash.zero) :
    (let n := (w.run actions).node
     n.sync.cache.isFull = true → n.sync.cache.contains (n.ledger.blockHeight + 1) = true) ∧
    ∀ earlier later, actions = earlier ++ later ++ [.persist] → (∀ a ∈ later, a ≠ .persist) →
      (w.run earlier).node.sync.cache.isFull = true →
      (w.run (earlier ++ later)).node.sync.cache.isFull = true ∧
        (w.run actions).node.sync.cache.size < (w.run earlier).node.sync.cache.size := by
  constructor
  · intro n hfull
    have hn := hw.accounted_run hfree actions fun _ h => h
    exact (hw.nextHasPlace_run hcap hfree hzero actions fun _ h => h).contains_of_full hn hfull
  · intro earlier later hactions hlater hfull
    have hmid : ∀ h ∈ deliveredHeaders (earlier ++ later), h ∈ deliveredHeaders actions := by
      intro h hh
      rw [hactions, deliveredHeaders_append]
      exact List.mem_append_left _ hh
    have hn := hw.accounted_run hfree (earlier ++ later) hmid
    have hkept : (w.run earlier).node.sync.cache.size ≤ (w.run (earlier ++ later)).node.sync.cache.size := by
      have hmoves : Node.Moves (deliveredHeaders later) False (w.run earlier).node (w.run (earlier ++ later)).node := by
        rw [run_append]
        exact World.moves_run later (w.run earlier) (fun _ h => h) hlater
      exact hmoves.preserve (P := fun n => (w.run earlier).node.sync.cache.size ≤ n.sync.cache.size)
        (fun hm h => Nat.le_trans h (Node.size_le_move hm)) (Nat.le_refl _)
    have hcap' := hw.capacity_run (earlier ++ later)
    have hstill : (w.run (earlier ++ later)).node.sync.cache.isFull = true := by
      rw [BlockCache.isFull_iff, hcap', ← hw.capacity_run earlier]
      exact Nat.le_trans (BlockCache.isFull_iff.1 hfull) hkept
    have hnext := (hw.nextHasPlace_run hcap hfree hzero (earlier ++ later) hmid).contains_of_full hn hstill
    have hlt := hn.size_persist_lt hnext
    have hroom := hn.room
    have hfull' := BlockCache.isFull_iff.1 hfull
    rw [hw.capacity_run earlier] at hfull'
    have hrun : (w.run actions).node = (w.run (earlier ++ later)).node.persist.1 := by
      rw [hactions, run_append]
      rfl
    refine ⟨hstill, ?_⟩
    rw [hrun]
    omega

end

/-- A cache of one slot is full with the first block of a chain, until that is persisted. -/
theorem World.full_cache_is_worked_off_first :
    let w : World := Scripted.smallWorld
    let actions := Scripted.firstDelivery ++ [.wait 1] ++ [.persist]
    CollisionFree (deliveredHeaders actions) ∧ (∀ h ∈ deliveredHeaders actions, h.hash ≠ Hash.zero) ∧
      (w.run Scripted.firstDelivery).node.sync.cache.isFull = true ∧
        (w.run actions).node.sync.cache.size < (w.run Scripted.firstDelivery).node.sync.cache.size := by
  have hdelivered : ∀ h ∈ deliveredHeaders (Scripted.firstDelivery ++ [.wait 1] ++ [.persist]),
      h = Scripted.firstBlock.header := by
    simp [deliveredHeaders, Scripted.firstDelivery, Action.delivered]
  have hfree : CollisionFree (deliveredHeaders (Scripted.firstDelivery ++ [.wait 1] ++ [.persist])) := by
    intro a ha b hb _
    rw [hdelivered a ha, hdelivered b hb]
  have hzero : ∀ h ∈ deliveredHeaders (Scripted.firstDelivery ++ [.wait 1] ++ [.persist]), h.hash ≠ Hash.zero := by
    intro h hh
    rw [hdelivered h hh]
    exact Scripted.firstDelivery_fills.1
  have hfull := Scripted.firstDelivery_fills.2
  have h := World.full_cache_is_worked_off (w := Scripted.smallWorld) ⟨rfl, rfl⟩ (by decide) _ hfree hzero
  exact ⟨hfree, hzero, hfull, (h.2 Scripted.firstDelivery [.wait 1] rfl (by simp) hfull).2⟩

end ChainSync
