import ChainSync.Proofs.Codec
import ChainSync.Proofs.Room

/-!
# Why the ledger rejects a cached block

A cached block has its header in the ledger, at the height where the next
pass looks for it, and is kept with bytes that it was read from. So when the
ledger rejects the block that is next, its transactions are to blame: they do
not match the Merkle root. Deliveries may come between any two rounds of a
pass.
-/

namespace ChainSync

/-! ## The cache of a node that acts -/

namespace Node

section
variable (now : Instant) (n : Node)

theorem cache_checkHeaders : (n.checkHeaders now).sync.cache = n.sync.cache := by
  obtain ⟨pool, header, h, -⟩ := checkHeaders_eq now n
  rw [h]
  rfl

theorem cache_checkBlocks : (n.checkBlocks now).sync.cache = n.sync.cache := by
  obtain ⟨pool, blocks, h, -⟩ := checkBlocks_eq now n
  rw [h]
  rfl

theorem cache_syncHeaders : (n.syncHeaders now).sync.cache = n.sync.cache := by
  obtain ⟨pool, h⟩ | ⟨-, -, p, pool, -, h⟩ := syncHeaders_cases now n
  · rw [h]
    rfl
  · rw [h]
    rfl

theorem cache_syncBlocks : (n.syncBlocks now).sync.cache = n.sync.cache := by
  obtain ⟨pool, h⟩ | ⟨-, -, -, p, pool, -, h⟩ := syncBlocks_cases now n
  · rw [h]
    rfl
  · rw [h]
    rfl

theorem cache_tick : (n.tick now).sync.cache = n.sync.cache := by
  rw [tick, cache_syncBlocks, cache_syncHeaders, cache_checkBlocks, cache_checkHeaders]

end

variable [Digest]

theorem cache_receiveHeaders (peer : PeerId) (hs : List Header) (n : Node) :
    (n.receiveHeaders peer hs).sync.cache = n.sync.cache := by
  obtain h | ⟨r, first, pool, -, -, -, -, h⟩ := receiveHeaders_cases peer hs n
  · rw [h]
  · rw [h]
    rfl

theorem of_mem_receiveBlock {now : Instant} {peer : PeerId} {b : Block} {raw : Bytes} {n : Node} {e : CachedBlock}
    (he : e ∈ (n.receiveBlock now peer b raw).sync.cache.entries) :
    e = ⟨b, raw, peer⟩ ∨ e ∈ n.sync.cache.entries := by
  obtain ⟨-, h⟩ | ⟨r, pool, -, ⟨-, h⟩ | ⟨-, h⟩⟩ := receiveBlock_cases now peer b raw n
  · rw [h] at he
    exact Or.inr he
  · rw [h] at he
    exact Or.inr he
  · rw [h] at he
    exact BlockCache.of_mem_insert he

omit [Digest] in
theorem entries_pruned_subset (n : Node) : n.pruned.entries ⊆ n.sync.cache.entries :=
  (BlockCache.pruneThrough_sublist n.ledger.blockHeight n.sync.cache).subset

omit [Digest] in
theorem entries_unloaded_subset (n : Node) : n.unloaded.sync.cache.entries ⊆ n.sync.cache.entries :=
  List.Subset.trans (BlockCache.take_sublist _ _).subset n.entries_pruned_subset

theorem entries_persist_subset (n : Node) : n.persist.1.sync.cache.entries ⊆ n.sync.cache.entries := by
  apply persist_preserves (P := fun m => m.sync.cache.entries ⊆ n.sync.cache.entries)
    (Q := fun m => m.sync.cache.entries ⊆ n.sync.cache.entries)
  · intro m hm _
    exact List.Subset.trans m.entries_pruned_subset hm
  · intro m _ _ hm _ _ _
    exact List.Subset.trans m.entries_unloaded_subset hm
  · intro m _ _ _ hm _ _
    exact List.Subset.trans m.entries_unloaded_subset hm
  · exact List.Subset.refl _

end Node

section
variable [Digest]

theorem Action.of_mem_cache {a : Action} {now : Instant} {n : Node} {e : CachedBlock}
    (he : e ∈ (a.act now n).sync.cache.entries) :
    e ∈ n.sync.cache.entries ∨ a = .block e.peer e.block e.raw := by
  cases a with
  | checkHeaders => exact Or.inl (n.cache_checkHeaders now ▸ he)
  | checkBlocks => exact Or.inl (n.cache_checkBlocks now ▸ he)
  | syncHeaders => exact Or.inl (n.cache_syncHeaders now ▸ he)
  | syncBlocks => exact Or.inl (n.cache_syncBlocks now ▸ he)
  | tick => exact Or.inl (n.cache_tick now ▸ he)
  | headers peer hs => exact Or.inl (n.cache_receiveHeaders peer hs ▸ he)
  | block peer b raw =>
    rcases Node.of_mem_receiveBlock he with rfl | he
    · exact Or.inr rfl
    · exact Or.inl he
  | persist => exact Or.inl (n.entries_persist_subset he)
  | churn | relay | event | wait => exact Or.inl he

/-! ## Rounds of a pass -/

/-- What can come next: an action, or a round of a pass that stores a block. -/
inductive Node.Next (actions : List Action) : Node → Node → Prop
  | act {n : Node} (a : Action) (now : Instant) (ha : a ∈ actions) : Next actions n (a.act now n)
  | round {n : Node} (e : CachedBlock) (b : Block) (he : n.ready? = some e)
      (hraw : Codec.ofBytes Block e.raw = .ok b) (hb : n.ledger.Fits b) : Next actions n (n.stored b)

/-- Deliveries and passes in any order, with anything between the rounds of a pass. -/
abbrev Node.Reaches (actions : List Action) : Node → Node → Prop :=
  Relation.ReflTransGen (Next actions)

theorem World.reaches_run (actions : List Action) (w : World) : w.node.Reaches actions (w.run actions).node :=
  run_preserves (P := w.node.Reaches actions) (fun a ha now _ h => h.tail (.act a now ha)) .refl

/-- A pass goes from round to round until nothing is ready, or what is ready is rejected. -/
theorem Node.reaches_persist (actions : List Action) (n : Node) :
    ∃ m, n.Reaches actions m ∧
      (m.ready? = none ∧ n.persist.1 = m.setCache m.pruned ∨
        ∃ e err pool, m.ready? = some e ∧ m.ledger.addBlock e.raw = .error err ∧
          n.persist.1 = m.unloaded.setPool pool) := by
  apply persist_preserves (P := n.Reaches actions) (Q := fun n' => ∃ m, n.Reaches actions m ∧
    (m.ready? = none ∧ n' = m.setCache m.pruned ∨ ∃ e err pool, m.ready? = some e ∧
      m.ledger.addBlock e.raw = .error err ∧ n' = m.unloaded.setPool pool))
  · intro m hm hnone
    exact ⟨m, hm, Or.inl ⟨hnone, rfl⟩⟩
  · intro m e b hm he hraw hb
    exact hm.tail (.round e b he hraw hb)
  · intro m e err pool hm he herr
    exact ⟨m, hm, Or.inr ⟨e, err, pool, he, herr, rfl⟩⟩
  · exact .refl

section
variable {actions : List Action} {n n' : Node}

theorem Node.Next.moves (h : n.Next actions n') : Moves (deliveredHeaders actions) True n n' := by
  cases h with
  | act a now ha => exact a.moves now n (fun x hx => List.mem_flatMap.2 ⟨a, ha, hx⟩) fun _ => trivial
  | round e b he hraw hb => exact .single (.store e b he hraw hb trivial)

theorem Node.Reaches.moves (h : n.Reaches actions n') : Moves (deliveredHeaders actions) True n n' := by
  induction h with
  | refl => exact .refl
  | tail _ hnext ih => exact ih.trans hnext.moves

variable {P : CachedBlock → Prop} (hP : ∀ e, .block e.peer e.block e.raw ∈ actions → P e)
include hP

theorem Node.Next.cached (h : n.Next actions n') (hn : ∀ e ∈ n.sync.cache.entries, P e) :
    ∀ e ∈ n'.sync.cache.entries, P e := by
  intro e he
  cases h with
  | act a now ha =>
    rcases Action.of_mem_cache he with he | rfl
    · exact hn e he
    · exact hP e ha
  | round => exact hn e (n.entries_unloaded_subset he)

/-- What holds of every block that is delivered holds of every block that is cached. -/
theorem Node.Reaches.cached (h : n.Reaches actions n') (hn : ∀ e ∈ n.sync.cache.entries, P e) :
    ∀ e ∈ n'.sync.cache.entries, P e := by
  induction h with
  | refl => exact hn
  | tail _ hnext ih => exact hnext.cached hP ih

end

/-! ## Headers of cached blocks -/

omit [Digest] in
theorem Ledger.Extends.hashes_get? {l l' : Ledger} (h : l.Extends l') {i : Nat} {x : Hash}
    (hx : l.hashes[i]? = some x) : l'.hashes[i]? = some x := by
  obtain ⟨more, hmore⟩ := h.hashes
  rw [← Array.getElem?_toList] at hx ⊢
  rw [← hmore, List.getElem?_append_left (List.getElem?_eq_some_iff.1 hx).1, hx]

def Node.Headed (n : Node) : Prop :=
  ∀ e ∈ n.sync.cache.entries, n.ledger.hashes[e.height]? = some e.block.hash

namespace Node.Headed

variable {known : List Header} {drains : Prop} {n n' : Node}

theorem move (hfree : CollisionFree known) (hn : n.Accounted known) (hh : n.Headed)
    (h : Move known drains n n') : n'.Headed := by
  cases h with
  | pool | header | askHeaders | narrow | askBlocks => exact hh
  | headers hs => exact fun e he => (Ledger.extends_addHeaders hs n.ledger).hashes_get? (hh e he)
  | block peer b raw r hknown hr hheight =>
    intro e he
    rcases BlockCache.of_mem_insert he with rfl | he
    · -- the request that the block answers is keyed by the hash of this height
      obtain ⟨hasked, -, -⟩ := hn.slot_of_requested hfree hknown hr
      obtain ⟨-, hle, hhash⟩ := hn.asked _ (Assoc.mem_of_get? hr)
      have hstored := hn.ledger.hashes_of_le hle
      rw [hhash] at hstored
      show n.ledger.hashes[b.height]? = some b.hash
      rw [hasked]
      exact hstored
    · exact hh e he
  | prune => exact fun e he => hh e (n.entries_pruned_subset he)
  | store | drop => exact fun e he => hh e (n.entries_unloaded_subset he)

theorem moves (hfree : CollisionFree known) (hn : n.Accounted known) (hh : n.Headed)
    (h : Moves known drains n n') : n'.Headed :=
  (h.preserve (P := fun m => m.Accounted known ∧ m.Headed)
    (fun hm hP => ⟨hP.1.move hfree hm, hP.2.move hfree hP.1 hm⟩) ⟨hn, hh⟩).2

end Node.Headed

/-! ## The verdict -/

theorem Ledger.addBlock_of_header {l : Ledger} {raw : Bytes} {b : Block} (hraw : Codec.ofBytes Block raw = .ok b)
    (hheight : b.height = l.blockHeight + 1) (hheader : l.hashes[b.height]? = some b.hash) :
    l.addBlock raw =
      if Block.merkleRoot b.transactions = b.header.merkleRoot then .ok (l.pushBlock b, b)
      else .error (.merkleMismatch (l.blockHeight + 1)) := by
  by_cases hroot : Block.merkleRoot b.transactions = b.header.merkleRoot
  · rw [if_pos hroot]
    exact addBlock_eq_ok_iff.2 ⟨hraw, ⟨hheight, hheader, hroot⟩, rfl⟩
  · rw [hheight] at hheader
    rw [if_neg hroot, addBlock, hraw]
    simp [Except.mapError, bind, Except.bind, reject?, hheight, hheader, hroot]

/-- Whatever was delivered, in whatever order, and between whichever rounds: if the ledger rejects the block that
a pass hands to it, then for transactions that do not match the header. -/
theorem World.rejects_for_transactions_only {w : World} {g : Block} {config : SyncConfig} (hw : w.IsFresh g config)
    {actions : List Action} (hfree : CollisionFree (deliveredHeaders actions))
    (hraw : ∀ peer b raw, .block peer b raw ∈ actions → Codec.ofBytes Block raw = .ok b) {n : Node}
    (hn : w.node.Reaches actions n) {e : CachedBlock} (he : n.ready? = some e) {err : LedgerError}
    (herr : n.ledger.addBlock e.raw = .error err) : err = .merkleMismatch (n.ledger.blockHeight + 1) := by
  have hempty : w.node.sync.cache.entries = [] := by
    rw [hw.2]
    rfl
  have haccounted : n.Accounted _ := (hw.accounted _).moves hfree hn.moves
  have hheaded : n.Headed := Node.Headed.moves hfree (hw.accounted _) (by simp [Node.Headed, hempty]) hn.moves
  have hread : ∀ f ∈ n.sync.cache.entries, Codec.ofBytes Block f.raw = .ok f.block :=
    hn.cached (fun f hf => hraw f.peer f.block f.raw hf) (by simp [hempty])
  obtain ⟨hmem, hheight⟩ := haccounted.ready_mem he
  rw [Ledger.addBlock_of_header (hread e hmem) hheight (hheaded e hmem)] at herr
  split at herr
  · cases herr
  · cases herr
    rfl

end

namespace Scripted

def strippedBlock : Block :=
  { firstBlock with transactions := [] }

def strippedDelivery : List Action :=
  [.churn (.arrive (address 1) false (version 1 10333 1)), .tick, .headers 1 [firstBlock.header], .tick,
    .block 1 strippedBlock (Codec.encode strippedBlock)]

theorem strippedDelivery_ready :
    let n := (smallWorld.run strippedDelivery).node
    n.ready? = some ⟨strippedBlock, Codec.encode strippedBlock, 1⟩ ∧ n.ledger.blockHeight = 0 ∧
      (n.ledger.addBlock (Codec.encode strippedBlock)).isOk = false := by
  decide +kernel

end Scripted

theorem World.rejects_for_transactions_only_first :
    let n := (Scripted.smallWorld.run Scripted.strippedDelivery).node
    ∃ e, n.ready? = some e ∧ n.ledger.addBlock e.raw = .error (.merkleMismatch 1) := by
  intro n
  obtain ⟨hready, hheight, hrejected⟩ := Scripted.strippedDelivery_ready
  have hfree : CollisionFree (deliveredHeaders Scripted.strippedDelivery) := by
    simp [CollisionFree, deliveredHeaders, Scripted.strippedDelivery, Action.delivered, Scripted.strippedBlock]
  have hlimits : Scripted.strippedBlock.WithinLimits := by decide +kernel
  have hraw : ∀ peer b raw, .block peer b raw ∈ Scripted.strippedDelivery → Codec.ofBytes Block raw = .ok b := by
    intro peer b raw hmem
    simp only [Scripted.strippedDelivery, List.mem_cons, reduceCtorEq, Action.block.injEq, List.not_mem_nil,
      false_or, or_false] at hmem
    obtain ⟨-, rfl, rfl⟩ := hmem
    exact hlimits.faithful.ofBytes_encode
  cases herr : n.ledger.addBlock (Codec.encode Scripted.strippedBlock) with
  | ok stored =>
    have hok : (n.ledger.addBlock (Codec.encode Scripted.strippedBlock)).isOk = true := by
      rw [herr]
      rfl
    exact absurd (hok.symm.trans hrejected) (by decide)
  | error err =>
    have hmerkle := World.rejects_for_transactions_only (w := Scripted.smallWorld) ⟨rfl, rfl⟩ hfree hraw
      (World.reaches_run _ _) hready herr
    rw [hheight] at hmerkle
    exact ⟨_, hready, hmerkle ▸ herr⟩

end ChainSync
