import ChainSync.Proofs.Delivery
import ChainSync.Proofs.LateHeaders
import ChainSync.Proofs.Rounds
import Mathlib.Order.Bounds.Defs

/-!
# Blocks in any order

A batch of blocks is asked for, and some of them arrive: in any order, from
anyone, more than once, with passes of persisting in between. At any moment
what has arrived is what was stored since and what is cached (`Filled`), and
behind a pass the next block is not cached. That leaves one ledger and one
cache, whatever the order was.
-/

namespace ChainSync

section
variable [Digest]

/-- What the passes of persisting in a run say that they stored, added up. -/
def World.storedBy (w : World) : List Action → Nat
  | [] => 0
  | .persist :: actions => w.node.persist.2 + (Action.persist.step w).storedBy actions
  | a :: actions => (a.step w).storedBy actions

/-- The blocks of a chain at these heights arrive, each at least once; nothing else but passes of persisting
comes in between. -/
structure Brings (chain : List Block) (heights : List Nat) (actions : List Action) : Prop where
  only : ∀ a ∈ actions, a = .persist ∨ (∃ d, a = .wait d) ∨
    ∃ peer, ∃ b ∈ chain, ∃ raw, a = .block peer b raw ∧ Codec.ofBytes Block raw = .ok b ∧ b.height ∈ heights
  all : ∀ h ∈ heights, ∃ peer b raw, .block peer b raw ∈ actions ∧ b.height = h

/-! ## Passes of persisting -/

theorem Node.blockHeight_persist (n : Node) (w : n.ledger.WellFormed) :
    n.persist.1.ledger.blockHeight = n.ledger.blockHeight + n.persist.2 := by
  fun_induction Node.persist n with
  | case1 n base pruned h => rfl
  | case2 n base pruned e h n' l b hadd n'' count hrest ih =>
    obtain ⟨-, hb, rfl⟩ := Ledger.addBlock_eq_ok_iff.1 hadd
    rw [hrest] at ih
    have hpushed := ih (w.pushBlock hb)
    have hheight := w.blockHeight_pushBlock b
    dsimp only at hpushed ⊢
    omega
  | case3 n base pruned e h n' err hadd => rfl

namespace Ledger

def advance (chain : List Block) (k : Nat) (l : Ledger) : Ledger :=
  ((chain.drop (l.blockHeight + 1)).take k).foldl pushBlock l

theorem advance_succ {chain : List Block} {k : Nat} {l : Ledger} {b : Block}
    (hb : chain[l.blockHeight + 1 + k]? = some b) : l.advance chain (k + 1) = (l.advance chain k).pushBlock b := by
  have hnext : (chain.drop (l.blockHeight + 1))[k]? = some b := by rw [List.getElem?_drop, hb]
  unfold advance
  rw [List.take_add_one, hnext, Option.toList_some, List.foldl_append, List.foldl_cons, List.foldl_nil]

end Ledger

namespace Node

omit [Digest] in
theorem ledger_syncBlocks (now : Instant) (n : Node) :
    (n.syncBlocks now).ledger = n.ledger ∧ (n.syncBlocks now).sync.cache = n.sync.cache := by
  obtain ⟨pool, h⟩ | ⟨-, -, -, p, pool, -, h⟩ := syncBlocks_cases now n <;> rw [h] <;> exact ⟨rfl, rfl⟩

def asks (n : Node) (h : Nat) : Prop :=
  ∃ e ∈ n.sync.blocks, e.2.height = h

/-- Of a batch of heights that was asked for on top of the ledger `base`, `seen` have arrived: they were stored
since, or are cached. -/
structure Filled (chain : List Block) (base : Ledger) (batch : Nat → Prop) (seen : List Nat) (n : Node) : Prop where
  follows : n.ledger.Follows chain
  accounted : n.Accounted (chain.map Block.header)
  cached : ∀ e ∈ n.sync.cache.entries, e.block ∈ chain ∧ Codec.ofBytes Block e.raw = .ok e.block ∧
    e.height ≤ n.ledger.headerHeight
  grown : ∃ k, n.ledger.blockHeight = base.blockHeight + k ∧ n.ledger = base.advance chain k
  missing : ∀ h, batch h → h ∉ seen → n.asks h
  arrived : ∀ h, h ∈ seen ↔
    base.blockHeight < h ∧ h ≤ n.ledger.blockHeight ∨ n.sync.cache.contains h = true

namespace Filled

variable {chain : List Block} {base : Ledger} {batch : Nat → Prop} {seen : List Nat} {n : Node}

/-! ## Deliveries -/

theorem receiveBlock (f : n.Filled chain base batch seen) (v : ValidChain chain) (now : Instant) (peer : PeerId)
    {b : Block} {raw : Bytes} (hb : b ∈ chain) (hraw : Codec.ofBytes Block raw = .ok b) (hasked : batch b.height) :
    (n.receiveBlock now peer b raw).Filled chain base batch (seen ++ [b.height]) := by
  have hknown : b.header ∈ chain.map Block.header := List.mem_map_of_mem hb
  cases hr : n.blockRequest? b.hash with
  | none =>
    -- nothing waits for this block any more, so it arrived before
    have hseen : b.height ∈ seen := by
      by_contra hnew
      obtain ⟨e, he, hheight⟩ := f.missing _ hasked hnew
      obtain ⟨-, hle, hhash⟩ := f.accounted.asked e he
      rw [f.follows.hashAt_eq hle (hheight ▸ v.get?_height hb)] at hhash
      exact Assoc.get?_eq_none_iff.1 hr e he hhash.symm
    have hsame : ∀ h, h ∈ seen ++ [b.height] ↔ h ∈ seen := by
      intro h
      rw [List.mem_append, List.mem_singleton]
      exact ⟨fun hh => hh.elim id fun heq => heq ▸ hseen, Or.inl⟩
    rw [receiveBlock_of_none now peer raw hr]
    refine { f with missing := fun h hh hnew => ?_, arrived := fun h => ?_ }
    · exact f.missing h hh (mt (hsame h).2 hnew)
    · rw [hsame, f.arrived]
  | some r =>
    obtain ⟨hheight, -, -⟩ := f.accounted.slot_of_requested v.collisionFree hknown hr
    obtain ⟨-, hle, -⟩ := f.accounted.asked _ (Assoc.mem_of_get? hr)
    obtain ⟨pool, -, heq, haccounted⟩ := f.accounted.receiveBlock_placed v.collisionFree hknown hr now peer raw
    rw [heq] at haccounted ⊢
    have hplaced : ∀ e, e ∈ BlockCache.place ⟨b, raw, peer⟩ n.sync.cache.entries ↔
        e = ⟨b, raw, peer⟩ ∨ e ∈ n.sync.cache.entries := fun e => BlockCache.mem_place
    constructor
    case follows => exact f.follows
    case accounted => exact haccounted
    case cached =>
      intro e he
      rcases (hplaced e).1 he with rfl | he
      · exact ⟨hb, hraw, hheight.trans_le hle⟩
      · exact f.cached e he
    case grown => exact f.grown
    case missing =>
      intro h hh hnew
      rw [List.mem_append, List.mem_singleton, not_or] at hnew
      obtain ⟨e, he, rfl⟩ := f.missing h hh hnew.1
      refine ⟨e, Assoc.mem_erase.2 ⟨he, fun hkey => ?_⟩, rfl⟩
      exact hnew.2 (f.accounted.height_of_asked v.collisionFree hknown he hkey).symm
    case arrived =>
      intro h
      have hcached := BlockCache.contains_place (e := ⟨b, raw, peer⟩) (c := n.sync.cache) (h := h)
      rw [List.mem_append, List.mem_singleton, f.arrived, or_assoc, or_comm (b := h = b.height)]
      exact or_congr_right hcached.symm

/-! ## Persisting -/

theorem of_ready (f : n.Filled chain base batch seen) (v : ValidChain chain) {e : CachedBlock} (he : n.ready? = some e) :
    chain[n.ledger.blockHeight + 1]? = some e.block ∧ n.ledger.blockHeight + 1 ≤ n.ledger.headerHeight ∧
      Codec.ofBytes Block e.raw = .ok e.block := by
  obtain ⟨hmem, hheight⟩ := f.accounted.ready_mem he
  obtain ⟨hblock, hraw, hle⟩ := f.cached e hmem
  have hget := v.get?_height hblock
  have hheight' : e.block.height = n.ledger.blockHeight + 1 := hheight
  rw [hheight'] at hget
  exact ⟨hget, hheight ▸ hle, hraw⟩

theorem store (f : n.Filled chain base batch seen) (v : ValidChain chain) {e : CachedBlock} (he : n.ready? = some e) :
    (n.stored e.block).Filled chain base batch seen := by
  obtain ⟨hget, hle, -⟩ := f.of_ready v he
  obtain ⟨hmem, hheight⟩ := f.accounted.ready_mem he
  have hfits := f.follows.fits v hget hle
  have hbase : (n.stored e.block).ledger.blockHeight = n.ledger.blockHeight + 1 :=
    f.follows.wellFormed.blockHeight_pushBlock e.block
  have hkept : ∀ x ∈ (n.stored e.block).sync.cache.entries, x ∈ n.sync.cache.entries := fun x hx =>
    ((BlockCache.take_sublist _ _).trans (BlockCache.pruneThrough_sublist _ _)).subset hx
  constructor
  case follows => exact f.follows.pushBlock v hget hle
  case accounted => exact f.accounted.store he hfits
  case cached => exact fun x hx => f.cached x (hkept x hx)
  case grown =>
    obtain ⟨k, hk, hledger⟩ := f.grown
    refine ⟨k + 1, by omega, ?_⟩
    have hnext : chain[base.blockHeight + 1 + k]? = some e.block := by
      rw [← hget, hk]
      congr 1
      omega
    show n.ledger.pushBlock e.block = _
    rw [Ledger.advance_succ hnext, ← hledger]
  case missing => exact f.missing
  case arrived =>
    intro h
    have hcached : (n.stored e.block).sync.cache.contains h = true ↔
        n.sync.cache.contains h = true ∧ h ≠ n.ledger.blockHeight + 1 := by
      show (n.pruned.take (n.ledger.blockHeight + 1)).1.contains h = true ↔ _
      rw [f.accounted.pruned_eq, BlockCache.contains_take]
    have hnext : n.sync.cache.contains (n.ledger.blockHeight + 1) = true := hheight ▸ BlockCache.contains_of_mem hmem
    obtain ⟨k, hk, -⟩ := f.grown
    rw [f.arrived, hcached, hbase]
    by_cases hh : h = n.ledger.blockHeight + 1
    · subst hh
      exact iff_of_true (Or.inr hnext) (Or.inl ⟨by omega, Nat.le_refl _⟩)
    · have hle' : h ≤ n.ledger.blockHeight + 1 ↔ h ≤ n.ledger.blockHeight := by omega
      rw [hle', and_iff_left hh]

theorem persist (f : n.Filled chain base batch seen) (v : ValidChain chain) :
    n.persist.1.Filled chain base batch seen ∧ n.persist.1.ledger.blockHeight + 1 ∉ seen := by
  refine persist_preserves (P := fun m => m.Filled chain base batch seen)
    (Q := fun m => m.Filled chain base batch seen ∧ m.ledger.blockHeight + 1 ∉ seen) ?_ ?_ ?_ n f
  · intro m hm hnone
    unfold ready? at hnone
    rw [hm.accounted.pruned_eq] at hnone ⊢
    have hfree := BlockCache.get?_eq_none_iff.1 hnone
    refine ⟨hm, fun hseen => ?_⟩
    rcases (hm.arrived _).1 hseen with ⟨-, hle⟩ | hcached
    · exact absurd hle (Nat.not_succ_le_self _)
    · exact Bool.false_ne_true (hfree.symm.trans hcached)
  · intro m e b hm he hraw hb
    obtain ⟨-, -, hblock⟩ := hm.of_ready v he
    obtain rfl : e.block = b := Except.ok.inj (hblock.symm.trans hraw)
    exact hm.store v he
  · intro m e err pool hm he herr
    obtain ⟨hget, hle, hblock⟩ := hm.of_ready v he
    have hfits := hm.follows.fits v hget hle
    rw [Ledger.addBlock_eq_ok_iff.2 ⟨hblock, hfits, rfl⟩] at herr
    cases herr

end Filled

end Node

/-! ## Runs -/

theorem Ledger.Follows.accounted {chain : List Block} {n : Node} (f : n.ledger.Follows chain)
    (hcache : n.sync.cache.entries = []) (hnil : n.sync.blocks = []) : n.Accounted (chain.map Block.header) := by
  constructor
  case ledger => exact f.wellFormed
  case known => exact fun i h hh => List.mem_of_getElem? (f.header _ h hh)
  case room =>
    rw [hnil, BlockCache.size, hcache]
    exact Nat.zero_le _
  case asked => exact fun e he => absurd he (hnil ▸ List.not_mem_nil)
  case above => exact fun e he => absurd he (hcache ▸ List.not_mem_nil)
  case apart => exact fun e he => absurd he (hnil ▸ List.not_mem_nil)

namespace World

section
variable {chain : List Block} (v : ValidChain chain)
include v

theorem filled_run {base : Ledger} {batch : Nat → Prop} : ∀ {actions : List Action} {w : World} {seen : List Nat},
    (∀ a ∈ actions, a = .persist ∨ (∃ d, a = .wait d) ∨
      ∃ peer, ∃ b ∈ chain, ∃ raw, a = .block peer b raw ∧ Codec.ofBytes Block raw = .ok b ∧ batch b.height) →
    w.node.Filled chain base batch seen →
    (w.run actions).node.Filled chain base batch (seen ++ (deliveredHeaders actions).map Header.height) ∧
      w.node.ledger.blockHeight + w.storedBy actions = (w.run actions).node.ledger.blockHeight
  | [], _, seen, _, f => ⟨(List.append_nil seen).symm ▸ f, rfl⟩
  | a :: actions, w, seen, hactions, f => by
    have hrest := fun x hx => hactions x (List.mem_cons_of_mem a hx)
    rcases hactions a (List.mem_cons_self ..) with rfl | ⟨d, rfl⟩ | ⟨peer, b, hb, raw, rfl, hraw, hasked⟩
    · have hcount := w.node.blockHeight_persist f.follows.wellFormed
      obtain ⟨hf, hstored⟩ := filled_run (w := Action.persist.step w) hrest (f.persist v).1
      refine ⟨hf, ?_⟩
      rw [show (w.run (.persist :: actions)) = (Action.persist.step w).run actions from rfl, ← hstored]
      show _ = w.node.persist.1.ledger.blockHeight + _
      rw [hcount, storedBy, Nat.add_assoc]
    · exact filled_run (w := (Action.wait d).step w) hrest f
    · have hsame : (w.node.receiveBlock w.now peer b raw).ledger = w.node.ledger := by
        obtain ⟨-, h⟩ | ⟨r, pool, -, ⟨-, h⟩ | ⟨-, h⟩⟩ := Node.receiveBlock_cases w.now peer b raw w.node <;> rw [h] <;> rfl
      have hheight : ((Action.block peer b raw).step w).node.ledger.blockHeight = w.node.ledger.blockHeight :=
        congrArg Ledger.blockHeight hsame
      obtain ⟨hf, hstored⟩ := filled_run (w := (Action.block peer b raw).step w) hrest
        (f.receiveBlock v w.now peer hb hraw hasked)
      rw [List.append_assoc] at hf
      exact ⟨hf, hheight ▸ hstored⟩

variable {w : World}

theorem filled_syncBlocks (hfollows : w.node.ledger.Follows chain) (hcache : w.node.sync.cache.entries = [])
    (hnil : w.node.sync.blocks = []) :
    (w.run [.syncBlocks]).node.Filled chain w.node.ledger (w.run [.syncBlocks]).node.asks [] := by
  have hmoves : Node.Moves (chain.map Block.header) True w.node (w.node.syncBlocks w.now) := Node.moves_syncBlocks w.now
  have haccounted := (hfollows.accounted hcache hnil).moves v.collisionFree hmoves
  obtain ⟨hledger, hsame⟩ := Node.ledger_syncBlocks w.now w.node
  show (w.node.syncBlocks w.now).Filled chain w.node.ledger (w.node.syncBlocks w.now).asks []
  constructor
  case follows => exact hledger ▸ hfollows
  case accounted => exact haccounted
  case cached =>
    rw [hsame, hcache]
    exact fun e he => absurd he List.not_mem_nil
  case grown => exact ⟨0, by rw [hledger]; rfl, hledger⟩
  case missing => exact fun h hh _ => hh
  case arrived =>
    intro h
    rw [hledger, hsame]
    refine iff_of_false List.not_mem_nil ?_
    rintro (⟨hlow, hhigh⟩ | hcached)
    · exact Nat.not_lt.2 hhigh hlow
    · obtain ⟨e, he, -⟩ := BlockCache.contains_iff.1 hcached
      rw [hcache] at he
      cases he

/-- Whatever blocks of a batch arrive, in whatever order, and whenever passes of persisting come in between:
behind the last pass the ledger has grown by the blocks that follow it without a gap, the others are cached,
and the passes have counted what they stored. -/
theorem arrivals_in_any_order (hfollows : w.node.ledger.Follows chain) (hcache : w.node.sync.cache.entries = [])
    (hnil : w.node.sync.blocks = []) {heights : List Nat} (hbatch : ∀ h ∈ heights, (w.run [.syncBlocks]).node.asks h)
    {arrivals : List Action} (hb : Brings chain heights arrivals) :
    let base := w.node.ledger
    let asked := w.run [.syncBlocks]
    let n := (asked.run (arrivals ++ [.persist])).node
    ∃ k, IsGreatest {k | ∀ h, base.blockHeight < h → h ≤ base.blockHeight + k → h ∈ heights} k ∧
      n.ledger = base.advance chain k ∧ n.ledger.blockHeight = base.blockHeight + k ∧
      (∀ (i : Nat) b, n.ledger.blocks[i]? = some b → chain[i]? = some b) ∧
      (∀ h, n.sync.cache.contains h = true ↔ h ∈ heights ∧ base.blockHeight + k < h) ∧
      asked.storedBy (arrivals ++ [.persist]) = k := by
  intro base asked n
  have hstart := filled_syncBlocks v hfollows hcache hnil
  have honly : ∀ a ∈ arrivals, a = .persist ∨ (∃ d, a = .wait d) ∨ ∃ peer, ∃ b ∈ chain, ∃ raw,
      a = .block peer b raw ∧ Codec.ofBytes Block raw = .ok b ∧ asked.node.asks b.height := by
    intro a ha
    rcases hb.only a ha with h | h | ⟨peer, b, hmem, raw, h, hraw, hheight⟩
    · exact Or.inl h
    · exact Or.inr (Or.inl h)
    · exact Or.inr (Or.inr ⟨peer, b, hmem, raw, h, hraw, hbatch _ hheight⟩)
  have hends : ∀ a ∈ arrivals ++ [.persist], a = .persist ∨ _ := fun a ha =>
    (List.mem_append.1 ha).elim (honly a) fun h => Or.inl (List.mem_singleton.1 h)
  have hseen : ∀ h, h ∈ (deliveredHeaders arrivals).map Header.height ↔ h ∈ heights := by
    intro h
    simp only [deliveredHeaders, List.mem_map, List.mem_flatMap]
    constructor
    · rintro ⟨x, ⟨a, ha, hx⟩, rfl⟩
      rcases hb.only a ha with rfl | ⟨d, rfl⟩ | ⟨peer, b, -, raw, rfl, -, hheight⟩
      · cases hx
      · cases hx
      · exact List.mem_singleton.1 hx ▸ hheight
    · intro hh
      obtain ⟨peer, b, raw, ha, rfl⟩ := hb.all h hh
      exact ⟨b.header, ⟨_, ha, List.mem_singleton.2 rfl⟩, rfl⟩
  obtain ⟨hbefore, -⟩ := filled_run v honly hstart
  obtain ⟨hend, hcount⟩ := filled_run v hends hstart
  rw [deliveredHeaders_append, show deliveredHeaders [.persist] = [] from rfl, List.append_nil, List.nil_append] at hend
  have hnext : n.ledger.blockHeight + 1 ∉ heights := by
    have hrun : n = (asked.run arrivals).node.persist.1 := congrArg World.node (run_append asked arrivals [.persist])
    rw [hrun, ← hseen]
    exact (hbefore.persist v).2
  obtain ⟨k, hgrown, hledger⟩ := hend.grown
  have hheight : n.ledger.blockHeight = base.blockHeight + k := hgrown
  have harrived : ∀ h, h ∈ heights ↔ base.blockHeight < h ∧ h ≤ base.blockHeight + k ∨ n.sync.cache.contains h = true := by
    intro h
    rw [← hseen, hend.arrived, hgrown]
  have habove : ∀ h, n.sync.cache.contains h = true → base.blockHeight + k < h := by
    intro h hcached
    obtain ⟨e, he, rfl⟩ := BlockCache.contains_iff.1 hcached
    exact hheight ▸ hend.accounted.above e he
  refine ⟨k, ⟨?greatest, ?bound⟩, hledger, hheight, hend.follows.block, ?cached, ?counted⟩
  case greatest => exact fun h hlow hhigh => (harrived h).2 (Or.inl ⟨hlow, hhigh⟩)
  case bound =>
    intro j hj
    by_contra hlt
    have hin : n.ledger.blockHeight + 1 ∈ heights := hj _ (by omega) (by omega)
    exact hnext hin
  case cached =>
    intro h
    rw [harrived]
    constructor
    · exact fun hcached => ⟨Or.inr hcached, habove h hcached⟩
    · rintro ⟨⟨-, hle⟩ | hcached, hlt⟩
      · exact absurd hle (Nat.not_le.2 hlt)
      · exact hcached
  case counted =>
    have hasked : asked.node.ledger.blockHeight = base.blockHeight :=
      congrArg Ledger.blockHeight (Node.ledger_syncBlocks w.now w.node).1
    have hsum : asked.node.ledger.blockHeight + asked.storedBy (arrivals ++ [.persist]) = n.ledger.blockHeight := hcount
    omega

end

end World

end

/-! ## The second block first -/

namespace Scripted

theorem valid_secondChain : ValidChain [genesisBlock, firstBlock, secondBlock] := by
  have hlast : (secondBlock.height = 2 ∧ secondBlock.header.prevHash = firstBlock.hash ∧
      Block.merkleRoot secondBlock.transactions = secondBlock.header.merkleRoot ∧ secondBlock.WithinLimits) ∧
        secondBlock.hash ∉ [genesisBlock.hash, firstBlock.hash] ∧ secondBlock.hash ≠ .zero := by
    decide +kernel
  obtain ⟨⟨hheight, hprev, hmerkle, hlimits⟩, hnew, hnonzero⟩ := hlast
  have hends : [genesisBlock, firstBlock].getLast? = some firstBlock := rfl
  exact valid_firstChain.concat hends (by decide) hheight hprev hmerkle hlimits hnew hnonzero

def twoHeaders : Ledger :=
  ((Ledger.ofGenesis genesisBlock).pushHeader firstBlock.header).pushHeader secondBlock.header

def joinedBy (l : Ledger) (c : Churn) : World :=
  (World.mk 0 (.fresh l .default 0 .default)).run [.churn c]

theorem start_joinedBy (l : Ledger) (c : Churn) :
    (joinedBy l c).node.ledger = l ∧ (joinedBy l c).node.sync = .fresh .default :=
  ⟨rfl, rfl⟩

def twoBehind : World :=
  joinedBy twoHeaders (.arrive (address 1) false (version 1 10333 2))

def secondFirst : List Action :=
  [.block 1 secondBlock (Codec.encode secondBlock), .persist, .block 2 firstBlock (Codec.encode firstBlock),
    .block 2 secondBlock (Codec.encode secondBlock)]

theorem brings_secondFirst : Brings [genesisBlock, firstBlock, secondBlock] [1, 2] secondFirst := by
  obtain ⟨-, hfirst, hsecond⟩ : genesisBlock.WithinLimits ∧ firstBlock.WithinLimits ∧ secondBlock.WithinLimits := by
    simpa using valid_secondChain.limits
  have hheight₁ : firstBlock.height = 1 := valid_secondChain.index 1 _ rfl
  have hheight₂ : secondBlock.height = 2 := valid_secondChain.index 2 _ rfl
  have hone : firstBlock ∈ [genesisBlock, firstBlock, secondBlock] ∧ firstBlock.height ∈ [1, 2] := by
    simp [hheight₁]
  have htwo : secondBlock ∈ [genesisBlock, firstBlock, secondBlock] ∧ secondBlock.height ∈ [1, 2] := by
    simp [hheight₂]
  constructor
  case only =>
    intro a ha
    simp only [secondFirst, List.mem_cons, List.not_mem_nil, or_false] at ha
    rcases ha with rfl | rfl | rfl | rfl
    · exact Or.inr (Or.inr ⟨1, secondBlock, htwo.1, _, rfl, hsecond.faithful.ofBytes_encode, htwo.2⟩)
    · exact Or.inl rfl
    · exact Or.inr (Or.inr ⟨2, firstBlock, hone.1, _, rfl, hfirst.faithful.ofBytes_encode, hone.2⟩)
    · exact Or.inr (Or.inr ⟨2, secondBlock, htwo.1, _, rfl, hsecond.faithful.ofBytes_encode, htwo.2⟩)
  case all =>
    intro h hh
    simp only [List.mem_cons, List.not_mem_nil, or_false] at hh
    rcases hh with rfl | rfl
    · exact ⟨2, firstBlock, Codec.encode firstBlock, by simp [secondFirst], hheight₁⟩
    · exact ⟨1, secondBlock, Codec.encode secondBlock, by simp [secondFirst], hheight₂⟩

theorem follows_twoHeaders : twoHeaders.Follows [genesisBlock, firstBlock, secondBlock] := by
  have hroot : (Ledger.ofGenesis genesisBlock).Follows [genesisBlock, firstBlock, secondBlock] :=
    Ledger.follows_ofGenesis rfl
  exact (hroot.pushHeader valid_secondChain rfl).pushHeader valid_secondChain rfl

theorem start_twoBehind : twoBehind.node.ledger = twoHeaders ∧ twoBehind.node.sync = .fresh .default := by
  unfold twoBehind
  exact start_joinedBy twoHeaders _

theorem asks_twoBehind : ∀ h ∈ [1, 2], (twoBehind.run [.syncBlocks]).node.asks h := by
  unfold Node.asks
  decide +kernel

theorem eq_two_of_isGreatest {k : Nat} (hk : IsGreatest {k | ∀ h, 0 < h → h ≤ k → h ∈ [1, 2]} k) : k = 2 := by
  obtain ⟨hin, hmost⟩ := hk
  have htwo : 2 ≤ k := hmost fun h h0 h2 => by
    simp only [List.mem_cons, List.not_mem_nil, or_false]
    omega
  by_contra hne
  have hthree : 3 ∈ [1, 2] := hin 3 (by omega) (by omega)
  exact absurd hthree (by decide)

theorem contains_eq_false {c : BlockCache} (hc : ∀ h, c.contains h = true ↔ h ∈ [1, 2] ∧ 2 < h) (h : Nat) :
    c.contains h = false := by
  refine eq_false_of_ne_true fun hcached => ?_
  obtain ⟨hmem, hlt⟩ := (hc h).1 hcached
  have hle : ∀ x ∈ [1, 2], x ≤ 2 := by decide
  exact Nat.not_lt.2 (hle h hmem) hlt

end Scripted

/-- The second of two blocks comes first, and comes twice; both are stored. -/
theorem World.arrivals_in_any_order_first :
    let chain := [genesisBlock, Scripted.firstBlock, Scripted.secondBlock]
    let w : World := Scripted.twoBehind
    let arrivals : List Action := Scripted.secondFirst
    ValidChain chain ∧ w.node.ledger.Follows chain ∧ (∀ h ∈ [1, 2], (w.run [.syncBlocks]).node.asks h) ∧
      Brings chain [1, 2] arrivals ∧
        ((w.run [.syncBlocks]).run (arrivals ++ [Action.persist])).node.ledger.blockHeight = 2 ∧
        (∀ h, ((w.run [.syncBlocks]).run (arrivals ++ [Action.persist])).node.sync.cache.contains h = false) ∧
          (w.run [.syncBlocks]).storedBy (arrivals ++ [Action.persist]) = 2 := by
  intro chain w arrivals
  obtain ⟨hledger, hsync⟩ := Scripted.start_twoBehind
  have hfollows : w.node.ledger.Follows chain := hledger ▸ Scripted.follows_twoHeaders
  have hcache : w.node.sync.cache.entries = [] := congrArg (·.cache.entries) hsync
  have hblocks : w.node.sync.blocks = [] := congrArg (·.blocks) hsync
  have hbase : w.node.ledger.blockHeight = 0 := by
    rw [hledger]
    rfl
  obtain ⟨k, hgreatest, -, hheight, -, hcached, hcount⟩ := World.arrivals_in_any_order Scripted.valid_secondChain
    hfollows hcache hblocks Scripted.asks_twoBehind Scripted.brings_secondFirst
  simp only [hbase, Nat.zero_add] at hgreatest hheight hcached
  obtain rfl : k = 2 := Scripted.eq_two_of_isGreatest hgreatest
  exact ⟨Scripted.valid_secondChain, hfollows, Scripted.asks_twoBehind, Scripted.brings_secondFirst, hheight,
    Scripted.contains_eq_false hcached, hcount⟩

end ChainSync
