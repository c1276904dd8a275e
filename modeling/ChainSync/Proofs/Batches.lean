import ChainSync.Proofs.Charges
import ChainSync.Proofs.Messages
import ChainSync.Proofs.Overdue
import ChainSync.Proofs.Rejections
import Mathlib.Order.Bounds.Basic

/-!
# What a request for blocks names

A batch is gathered from the heights behind the stored blocks, or from those
that are overdue. Either way it names headers by ascending height, none of
them cached and all within reach of the peer that is asked, and not more than
one message may hold. So whoever is asked can read the message.
-/

namespace ChainSync

/-! ## Messages of a round -/

namespace Pool

variable {pool pool' pool'' : Pool} {P : PeerId → Message → Prop}

def TellsOnly (P : PeerId → Message → Prop) (pool pool' : Pool) : Prop :=
  ∃ told : PeerId → List Message, (∀ id, pool'.outboxOf id = pool.outboxOf id ++ told id) ∧
    ∀ id, ∀ m ∈ told id, P id m

theorem Deals.tellsOnly {told : PeerId → List Message} {charged : PeerId → Nat} (d : pool.Deals told charged pool')
    (h : ∀ id, ∀ m ∈ told id, P id m) : pool.TellsOnly P pool' :=
  ⟨told, d.outbox, h⟩

theorem TellsOnly.refl (pool : Pool) : pool.TellsOnly P pool :=
  (Deals.refl pool).tellsOnly nofun

theorem TellsOnly.trans (h : pool.TellsOnly P pool') (h' : pool'.TellsOnly P pool'') : pool.TellsOnly P pool'' := by
  obtain ⟨told, hbox, htold⟩ := h
  obtain ⟨told', hbox', htold'⟩ := h'
  refine ⟨fun id => told id ++ told' id, fun id => by rw [hbox', hbox, List.append_assoc], fun id m hm => ?_⟩
  exact (List.mem_append.1 hm).elim (htold id m) (htold' id m)

theorem tellsOnly_onlyTo {m : Message} {id : PeerId} {charged : PeerId → Nat}
    (d : pool.Deals (m.onlyTo id) charged pool') (h : P id m) : pool.TellsOnly P pool' := by
  refine d.tellsOnly fun k m' hm' => ?_
  unfold Message.onlyTo at hm'
  split at hm'
  · rename_i hk
    rw [hk, List.mem_singleton.1 hm']
    exact h
  · cases hm'

theorem tellsOnly_charge {ids : List PeerId} (hd : ids.Nodup) (pool : Pool) : pool.TellsOnly P (pool.charge ids) :=
  (deals_charge hd pool).tellsOnly nofun

theorem Reaches.mono {height height' : Nat} {p : Peer} (h : pool.Reaches height p) (hle : height' ≤ height) :
    pool.Reaches height' p :=
  ⟨h.1, h.2.1, hle.trans h.2.2⟩

theorem Dwindles.reaches {height : Nat} {q : Peer} (d : pool.Dwindles pool') (h : pool'.Reaches height q) :
    ∃ p, p.id = q.id ∧ pool.Reaches height p := by
  obtain ⟨hpooled, hactive, hheight⟩ := h
  obtain ⟨hq, hpooled⟩ := List.mem_filter.1 hpooled
  obtain ⟨p, hp, hid, hbest, hstate, hstays⟩ := d q hq
  have hactive : q.state = .active := by simpa [Peer.isActive] using hactive
  refine ⟨p, hid, List.mem_filter.2 ⟨hp, (hstays hpooled).1⟩, ?_, hbest ▸ hheight⟩
  simp [Peer.isActive, hstate hactive]

end Pool

section
variable [Digest] {w : World} {a : Action} {id : PeerId} {m : Message} {P : PeerId → Message → Prop}

theorem Action.outboxOf_act (ha : a.isRound = true) (h : w.node.Regular) (id : PeerId) :
    (a.act w.now w.node).pool.outboxOf id = w.node.pool.outboxOf id ++ a.asks id w := by
  obtain ⟨charged, hpool⟩ := (Action.turns_act ha h).pool
  exact hpool.outbox id

theorem Pool.TellsOnly.asks (h : w.node.pool.TellsOnly P (a.act w.now w.node).pool) (hm : m ∈ a.asks id w) : P id m := by
  obtain ⟨told, hbox, htold⟩ := h
  unfold Action.asks at hm
  split at hm
  · rw [hbox, List.drop_left] at hm
    exact htold id m hm
  · cases hm

theorem Action.asks_tick (h : w.node.Regular) (id : PeerId) :
    (Action.tick.asks id w).map (w.now, ·) = w.asked id Action.parts := by
  let w₁ := checkHeaders.step w
  let w₂ := checkBlocks.step w₁
  let w₃ := syncHeaders.step w₂
  have h₁ : w₁.node.Regular := h.act w.now .checkHeaders
  have h₂ : w₂.node.Regular := h₁.act w.now .checkBlocks
  have h₃ : w₃.node.Regular := h₂.act w.now .syncHeaders
  have hparts : (tick.act w.now w.node).pool.outboxOf id = w.node.pool.outboxOf id ++
      (checkHeaders.asks id w ++ (checkBlocks.asks id w₁ ++ (syncHeaders.asks id w₂ ++ syncBlocks.asks id w₃))) := by
    have q₁ := outboxOf_act (w := w) (a := checkHeaders) rfl h id
    have q₂ := outboxOf_act (a := checkBlocks) rfl h₁ id
    have q₃ := outboxOf_act (a := syncHeaders) rfl h₂ id
    have q₄ := outboxOf_act (a := syncBlocks) rfl h₃ id
    simp only [← List.append_assoc]
    rw [← q₁]
    exact q₄.trans (congrArg (· ++ _) (q₃.trans (congrArg (· ++ _) q₂)))
  have hasks := List.append_cancel_left ((outboxOf_act (a := tick) rfl h id).symm.trans hparts)
  rw [hasks]
  simp only [List.map_append, World.asked, parts, List.append_nil]
  rfl

end

namespace Node

variable {n : Node}

section
variable (now : Instant) (hk : n.pool.Keyed)
include hk

theorem tellsOnly_withPeer {P : PeerId → Message → Prop} {f : Peer → Peer × Except NetError Unit} {m : Message}
    {p : Peer} (hf : ∀ q, f q = (q.noteRequest now).send m) (hp : p ∈ n.pool.peers) (h : P p.id m) :
    n.pool.TellsOnly P (n.withPeer p.id f).1.pool := by
  obtain ⟨pool, e, heq, hkept⟩ | ⟨pool, heq, hqueued⟩ := withPeer_request hf hk hp
  · rw [heq]
    exact hkept.tellsOnly nofun
  · rw [heq]
    exact Pool.tellsOnly_onlyTo hqueued h

/-! ## Requests for headers -/

theorem tellsOnly_retryHeaders (r : Request) (late : Flight) :
    n.pool.TellsOnly (fun _ m => ∃ l, m = .getheaders l) (n.retryHeaders now r late).pool := by
  have hcharge : n.pool.TellsOnly (fun _ m => ∃ l, m = .getheaders l) (n.pool.charge [late.peer]) :=
    Pool.tellsOnly_charge (List.nodup_singleton late.peer) n.pool
  have hk' : (n.setPool (n.pool.charge [late.peer])).pool.Keyed :=
    (Pool.deals_charge (List.nodup_singleton late.peer) n.pool).keyed hk
  obtain heq | ⟨p, hp, heq⟩ := pool_retryHeaders now n r late
  · rw [heq]
    exact hcharge
  · rw [heq]
    exact hcharge.trans (tellsOnly_withPeer now hk' (fun _ => rfl) hp ⟨_, rfl⟩)

theorem tellsOnly_checkHeaders : n.pool.TellsOnly (fun _ m => ∃ l, m = .getheaders l) (n.checkHeaders now).pool := by
  obtain heq | ⟨r, f, heq⟩ := pool_checkHeaders now n
  · rw [heq]
    exact .refl n.pool
  · rw [heq]
    exact tellsOnly_retryHeaders now hk r f

theorem tellsOnly_syncHeaders : n.pool.TellsOnly (fun _ m => ∃ l, m = .getheaders l) (n.syncHeaders now).pool := by
  obtain heq | ⟨p, hp, heq⟩ := pool_syncHeaders now n
  · rw [heq]
    exact .refl n.pool
  · rw [heq]
    exact tellsOnly_withPeer now hk (fun _ => rfl) hp ⟨_, rfl⟩

/-! ## Requests for blocks -/

theorem tellsOnly_syncBlocks : n.pool.TellsOnly (fun id m => ∃ p, p.id = id ∧
      n.pool.nextPeer? now (n.ledger.blockHeight + 1) = some p ∧ n.missingBlocks p.bestHeight ≠ [] ∧
      m = .getdata ⟨.block, (n.missingBlocks p.bestHeight).map (·.2)⟩) (n.syncBlocks now).pool := by
  obtain heq | ⟨p, hp, hbatch, heq⟩ := pool_syncBlocks now n
  · rw [heq]
    exact .refl n.pool
  · have hne : (n.missingBlocks p.bestHeight).map (·.2) ≠ [] := by simpa using hbatch
    have hmem := (Pool.of_nextPeer? hp).1
    rw [heq]
    exact tellsOnly_withPeer now hk (Pool.getData_block hne now) hmem ⟨p, rfl, hp, hbatch, rfl⟩

theorem tellsOnly_checkBlocks : n.pool.TellsOnly (fun id m => ∃ top p,
      ((n.lateInOrder now).take maxInventory).getLast? = some top ∧ p.id = id ∧ n.pool.Reaches top.2.height p ∧
      m = .getdata ⟨.block, ((n.lateInOrder now).take maxInventory).map (·.1)⟩) (n.checkBlocks now).pool := by
  have hoffenders := n.nodup_offenders now
  have hcharge := Pool.dwindles_charge hoffenders hk.distinct
  obtain ⟨-, heq⟩ | ⟨top, htop, ⟨p, pool, hp, -, hdeals, -, heq⟩ | ⟨pool, -, hdeals, -, heq⟩⟩ := checkBlocks_cases hk now
  · rw [heq]
    exact Pool.tellsOnly_charge hoffenders n.pool
  · obtain ⟨q, hid, hreaches⟩ := hcharge.reaches (Pool.of_retryPeer? hp).1
    rw [keys_retryBatch] at hdeals
    rw [heq]
    exact (Pool.tellsOnly_charge hoffenders n.pool).trans
      (Pool.tellsOnly_onlyTo hdeals ⟨top, q, htop, hid, hreaches, rfl⟩)
  · rw [heq]
    exact (Pool.tellsOnly_charge hoffenders n.pool).trans (hdeals.tellsOnly nofun)

end

/-! ## What they name -/

/-- Hashes of stored headers by ascending height, to ask one peer for: no block of them is here yet, the peer has
them all, and they fit into one message. -/
structure Names (n : Node) (p : Peer) (heights : List Nat) (hashes : List Hash) : Prop where
  some : heights ≠ []
  few : heights.length ≤ maxInventory
  ascending : heights.Pairwise (· < ·)
  named : hashes = heights.map n.ledger.hashAt
  distinct : hashes.Nodup
  missing : ∀ h ∈ heights, n.ledger.blockHeight < h ∧ h ≤ n.ledger.headerHeight ∧ n.sync.cache.contains h = false
  reached : ∀ h ∈ heights, n.pool.Reaches h p

theorem Names.decode_toPacket {p : Peer} {heights : List Nat} {hashes : List Hash} (h : n.Names p heights hashes) :
    Message.decode (Message.getdata ⟨.block, hashes⟩).toPacket = .ok (.getdata ⟨.block, hashes⟩) := by
  refine Message.WithinLimits.decode_toPacket ?_
  show hashes.length ≤ maxInventory
  rw [h.named, List.length_map]
  exact h.few

theorem heights_missingBlocks (top : Nat) (n : Node) :
    (n.missingBlocks top).map (·.1) <+: (List.range' (n.ledger.blockHeight + 1)
      (min n.ledger.headerHeight top - n.ledger.blockHeight)).filter fun h => !n.sync.cache.contains h := by
  unfold missingBlocks
  refine ((List.takeWhile_prefix _).map _).trans ?_
  rw [List.map_map]
  show List.map id _ <+: _
  rw [List.map_id]
  exact List.take_prefix _ _

theorem ascending_missingBlocks (top : Nat) (n : Node) : ((n.missingBlocks top).map (·.1)).Pairwise (· < ·) := by
  have hrange : (List.range' (n.ledger.blockHeight + 1)
      (min n.ledger.headerHeight top - n.ledger.blockHeight)).Pairwise (· < ·) := List.pairwise_lt_range'
  exact (hrange.filter _).sublist (n.heights_missingBlocks top).sublist

/-- The batch starts where a block is missing first. -/
theorem least_missingBlocks {top first : Nat} (h : first ∈ ((n.missingBlocks top).map (·.1)).head?) :
    IsLeast {h | n.ledger.blockHeight < h ∧ n.sync.cache.contains h = false} first := by
  obtain ⟨rest, hrest⟩ := List.head?_eq_some_iff.1 h
  obtain ⟨behind, hbehind⟩ := n.heights_missingBlocks top
  rw [hrest, List.cons_append] at hbehind
  have hmem : ∀ {k}, k ∈ first :: (rest ++ behind) ↔ (n.ledger.blockHeight < k ∧ k ≤ min n.ledger.headerHeight top) ∧
      n.sync.cache.contains k = false := by
    intro k
    rw [hbehind, List.mem_filter, List.mem_range'_1]
    simp only [Bool.not_eq_true']
    refine and_congr_left fun _ => ?_
    omega
  have hascending : (first :: (rest ++ behind)).Pairwise (· < ·) := by
    rw [hbehind]
    exact List.Pairwise.filter _ List.pairwise_lt_range'
  obtain ⟨⟨hlow, hhigh⟩, hfirst⟩ := hmem.1 (List.mem_cons_self ..)
  refine ⟨⟨hlow, hfirst⟩, fun k hk => ?_⟩
  obtain ⟨hk, hcached⟩ := hk
  by_cases hreach : k ≤ min n.ledger.headerHeight top
  · rcases List.mem_cons.1 (hmem.2 ⟨⟨hk, hreach⟩, hcached⟩) with rfl | hlater
    · exact Nat.le_refl _
    · exact Nat.le_of_lt (List.rel_of_pairwise_cons hascending hlater)
  · exact hhigh.trans (Nat.le_of_not_le hreach)

section
variable [Digest] {known : List Header} (hn : n.Accounted known)
include hn

theorem names_missingBlocks (hfree : CollisionFree known) {p : Peer} {now : Instant} {height : Nat}
    (hp : n.pool.nextPeer? now height = some p) (hne : n.missingBlocks p.bestHeight ≠ []) :
    n.Names p ((n.missingBlocks p.bestHeight).map (·.1)) ((n.missingBlocks p.bestHeight).map (·.2)) := by
  obtain ⟨hmem, hpooled, hactive, -⟩ := Pool.of_nextPeer? hp
  have hnamed : (n.missingBlocks p.bestHeight).map (·.2) =
      ((n.missingBlocks p.bestHeight).map (·.1)).map n.ledger.hashAt := by
    rw [List.map_map]
    exact List.map_congr_left fun e he => (of_mem_missingBlocks he).2.2.2.2
  have hascending := n.ascending_missingBlocks p.bestHeight
  have hmissing : ∀ h ∈ (n.missingBlocks p.bestHeight).map (·.1), n.ledger.blockHeight < h ∧
      h ≤ n.ledger.headerHeight ∧ h ≤ p.bestHeight ∧ n.sync.cache.contains h = false := by
    intro h hh
    obtain ⟨e, he, rfl⟩ := List.mem_map.1 hh
    obtain ⟨hlow, hhigh, hreach, hfresh, -⟩ := of_mem_missingBlocks he
    exact ⟨hlow, hhigh, hreach, hfresh⟩
  constructor
  case some => simpa using hne
  case few =>
    rw [List.length_map]
    exact (length_missingBlocks_le _ n).trans (Nat.min_le_right _ _)
  case ascending => exact hascending
  case named => exact hnamed
  case distinct =>
    rw [hnamed]
    refine List.Nodup.map_on (fun i hi j hj hhash => ?_) (hascending.imp Nat.ne_of_lt)
    obtain ⟨hi, hi', -⟩ := hmissing i hi
    obtain ⟨hj, hj', -⟩ := hmissing j hj
    exact hn.eq_of_hashAt_eq hfree (Nat.zero_lt_of_lt hi) (Nat.zero_lt_of_lt hj) hi' hj' hhash
  case missing =>
    intro h hh
    obtain ⟨hlow, hhigh, -, hfresh⟩ := hmissing h hh
    exact ⟨hlow, hhigh, hfresh⟩
  case reached =>
    intro h hh
    exact ⟨List.mem_filter.2 ⟨hmem, hpooled⟩, by simp [Peer.isActive, hactive], (hmissing h hh).2.2.1⟩

theorem names_retryBatch (hd : (Assoc.keys n.sync.blocks).Nodup) {now : Instant} {top : Hash × Request} {p : Peer}
    (htop : ((n.lateInOrder now).take maxInventory).getLast? = some top) (hp : n.pool.Reaches top.2.height p) :
    n.Names p (((n.lateInOrder now).take maxInventory).map (·.2.height))
      (((n.lateInOrder now).take maxInventory).map (·.1)) := by
  have hbatch : ∀ e ∈ (n.lateInOrder now).take maxInventory, e ∈ n.sync.blocks := fun e he =>
    (mem_lateInOrder.1 (List.mem_of_mem_take he)).1
  have hascending : ((n.lateInOrder now).take maxInventory).Pairwise fun e e' => e.2.height < e'.2.height :=
    (pairwise_lateInOrder hd (fun e he => (hn.asked e he).2) now).sublist (List.take_sublist _ _)
  obtain ⟨front, hfront⟩ := List.getLast?_eq_some_iff.1 htop
  constructor
  case some => simp [hfront]
  case few =>
    rw [List.length_map]
    exact List.length_take_le _ _
  case ascending => exact List.pairwise_map.2 hascending
  case named =>
    rw [List.map_map]
    exact List.map_congr_left fun e he => (hn.asked e (hbatch e he)).2.2.symm
  case distinct => exact (nodup_lateInOrder hd now).sublist ((List.take_sublist _ _).map _)
  case missing =>
    intro h hh
    obtain ⟨e, he, rfl⟩ := List.mem_map.1 hh
    obtain ⟨hlow, hhigh, -⟩ := hn.asked e (hbatch e he)
    exact ⟨hlow, hhigh, hn.apart e (hbatch e he)⟩
  case reached =>
    intro h hh
    obtain ⟨e, he, rfl⟩ := List.mem_map.1 hh
    refine hp.mono ?_
    -- the last one stands highest
    rw [hfront] at he hascending
    rcases List.mem_append.1 he with he | he
    · exact Nat.le_of_lt ((List.pairwise_append.1 hascending).2.2 e he top (List.mem_singleton_self top))
    · rw [List.mem_singleton.1 he]

end

section
variable [Digest] {actions : List Action} {n n' : Node}

theorem Reaches.arises (h : n.Reaches actions n') (hn : n.Arises) : n'.Arises := by
  induction h with
  | refl => exact hn
  | tail _ hnext ih =>
    obtain ⟨g, pool, nonce, config, hgoes⟩ := ih
    refine ⟨g, pool, nonce, config, hgoes.tail ?_⟩
    cases hnext with
    | act a now ha => exact .act a now
    | round e b he hraw hb => exact .round e b he hraw hb

/-- However the requests for blocks came about, the message for each batch fits what its receiver accepts. The parts of
a round are actions too, so a round may ask for a batch after any other part. -/
theorem block_requests_fit (g : Block) (pool : PoolConfig) (nonce : UInt32) (config : SyncConfig)
    {actions : List Action} (hfree : CollisionFree (deliveredHeaders actions)) {n : Node}
    (hn : (fresh (.ofGenesis g) pool nonce config).Reaches actions n) (now : Instant) (id : PeerId) :
    (∀ a ∈ Action.parts, ∀ hashes, .getdata ⟨.block, hashes⟩ ∈ a.asks id ⟨now, n⟩ →
      ∃ p heights, p.id = id ∧ n.Names p heights hashes ∧
        (a = .syncBlocks → heights.length ≤ min n.sync.cache.remaining n.sync.config.requestLimit ∧
          ∃ first ∈ heights.head?, IsLeast {h | n.ledger.blockHeight < h ∧ n.sync.cache.contains h = false} first) ∧
        Message.decode (Message.getdata ⟨.block, hashes⟩).toPacket = .ok (.getdata ⟨.block, hashes⟩)) ∧
    (Action.tick.asks id ⟨now, n⟩).map (now, ·) = World.asked id ⟨now, n⟩ Action.parts := by
  obtain ⟨⟨hk, hd⟩, -⟩ := (hn.arises ⟨g, pool, nonce, config, .refl⟩).orderly
  have hfresh : (World.mk now (fresh (.ofGenesis g) pool nonce config)).IsFresh g config := ⟨rfl, rfl⟩
  have haccounted : n.Accounted _ := (hfresh.accounted _).moves hfree hn.moves
  refine ⟨fun a ha hashes hm => ?_, Action.asks_tick (w := ⟨now, n⟩) ⟨hk, hd⟩ id⟩
  simp only [Action.parts, List.mem_cons, List.not_mem_nil, or_false] at ha
  rcases ha with rfl | rfl | rfl | rfl
  · obtain ⟨l, hl⟩ := (tellsOnly_checkHeaders now hk).asks (w := ⟨now, n⟩) (a := .checkHeaders) hm
    cases hl
  · obtain ⟨top, p, htop, hid, hreaches, heq⟩ := (tellsOnly_checkBlocks now hk).asks (w := ⟨now, n⟩) (a := .checkBlocks) hm
    cases heq
    have hnames := names_retryBatch haccounted hd htop hreaches
    refine ⟨p, _, hid, hnames, fun h => ?_, hnames.decode_toPacket⟩
    cases h
  · obtain ⟨l, hl⟩ := (tellsOnly_syncHeaders now hk).asks (w := ⟨now, n⟩) (a := .syncHeaders) hm
    cases hl
  · obtain ⟨p, hid, hp, hbatch, heq⟩ := (tellsOnly_syncBlocks now hk).asks (w := ⟨now, n⟩) (a := .syncBlocks) hm
    cases heq
    have hnames := names_missingBlocks haccounted hfree hp hbatch
    refine ⟨p, _, hid, hnames, fun _ => ⟨?_, ?_⟩, hnames.decode_toPacket⟩
    · rw [List.length_map]
      exact (length_missingBlocks_le _ n).trans (Nat.min_le_left _ _)
    · obtain ⟨first, hfirst⟩ := Option.ne_none_iff_exists'.1 (mt List.head?_eq_none_iff.1 hnames.some)
      exact ⟨first, hfirst, least_missingBlocks hfirst⟩

end

end Node

namespace Scripted

theorem asks_bothWanted :
    .getdata ⟨.block, [firstBlock.hash, secondBlock.hash]⟩ ∈
      Action.checkBlocks.asks 2 ⟨5000000, (roomyWorld.run bothWanted).node⟩ := by
  have horderly := orderly_bothWanted
  have hlate : (roomyWorld.run bothWanted).node.lateInOrder 5000000 = bothRequests :=
    eq_bothRequests (Node.pairwise_lateInOrder horderly.regular.distinct horderly.asked 5000000)
      fun h r => horderly.late_iff
  obtain ⟨p, hp, hid, hsent⟩ :=
    exists_chosen (Node.totalFailures ((roomyWorld.run bothWanted).node.retryBatch 5000000))
      (by rw [Node.retryBatch, hlate]; decide) (by rw [Node.retryBatch, hlate]; decide)
  generalize (roomyWorld.run bothWanted).node = n at horderly hlate hp
  have htop : ((n.lateInOrder 5000000).take maxInventory).getLast? = some (secondBlock.hash, .start 0 1 2) := by
    rw [hlate]
    rfl
  have htold := Node.outboxOf_checkBlocks_of_sent horderly.regular.keyed htop hp (by rw [hlate]; exact hsent) 2
  have hasks := Action.outboxOf_act (w := ⟨5000000, n⟩) (a := .checkBlocks) rfl horderly.regular 2
  rw [List.append_cancel_left (hasks.symm.trans htold), hlate, hid]
  exact List.mem_singleton_self _

end Scripted

open Scripted in
/-- Two blocks are asked for in one message, and again in one message once both are late. -/
theorem Node.block_requests_fit_first :
    let asking := (roomyWorld.run bothHeaders).node
    let late := (roomyWorld.run bothWanted).node
    let hashes := [firstBlock.hash, secondBlock.hash]
    (∃ p heights, p.id = 1 ∧ asking.Names p heights hashes ∧ ∃ first ∈ heights.head?,
      IsLeast {h | asking.ledger.blockHeight < h ∧ asking.sync.cache.contains h = false} first) ∧
      (∃ p heights, p.id = 2 ∧ late.Names p heights hashes) ∧
      Message.decode (Message.getdata ⟨.block, hashes⟩).toPacket = .ok (.getdata ⟨.block, hashes⟩) := by
  intro asking late hashes
  obtain ⟨hasked, hblocks, -⟩ := bothWanted_waits
  have hheaders : CollisionFree [firstBlock.header, secondBlock.header] := by
    -- their hashes are the keys of the requests
    have hkeys := orderly_bothWanted.regular.distinct
    rw [hblocks] at hkeys
    exact collisionFree_of_nodup hkeys
  obtain ⟨hfirst, -⟩ := Node.block_requests_fit genesisBlock .default 0 .default
    (show CollisionFree (deliveredHeaders bothHeaders) from hheaders) (World.reaches_run bothHeaders roomyWorld) 0 1
  obtain ⟨hagain, -⟩ := Node.block_requests_fit genesisBlock .default 0 .default
    (show CollisionFree (deliveredHeaders bothWanted) from hheaders) (World.reaches_run bothWanted roomyWorld) 5000000 2
  obtain ⟨p, heights, hid, hnames, hleast, hdecode⟩ := hfirst .syncBlocks (by simp [Action.parts]) _ hasked
  obtain ⟨q, heights', hid', hnames', -, -⟩ := hagain .checkBlocks (by simp [Action.parts]) _ asks_bothWanted
  exact ⟨⟨p, heights, hid, hnames, (hleast rfl).2⟩, ⟨q, heights', hid', hnames'⟩, hdecode⟩

end ChainSync
