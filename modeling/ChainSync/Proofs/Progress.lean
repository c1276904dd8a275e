import ChainSync.Proofs.Delivery

/-!
# Progress with honest peers

With peers that serve a valid chain every round stores a header or a block,
and costs no peer anything. Between rounds nothing is outstanding or cached
(`Settled`): a tick asks for all that it can use, the answers arrive, and a
pass of persisting stores every block of the batch.
-/

namespace ChainSync

section
variable [Digest]

namespace Node

/-! ## Persisting a whole batch -/

namespace Awaits

variable {chain : List Block} {aim top : Nat} {n : Node}

theorem of_ready (h : n.Awaits chain [] aim top) (v : ValidChain chain) {e : CachedBlock} (he : n.ready? = some e) :
    chain[n.ledger.blockHeight + 1]? = some e.block ∧ n.ledger.blockHeight + 1 ≤ top ∧
      Codec.ofBytes Block e.raw = .ok e.block := by
  obtain ⟨hmem, hheight⟩ := h.accounted.ready_mem he
  obtain ⟨hblock, hraw⟩ := h.cached e hmem
  have hget := v.get?_height hblock
  have hheight' : e.block.height = n.ledger.blockHeight + 1 := hheight
  rw [hheight'] at hget
  refine ⟨hget, hheight ▸ h.held e hmem, ?_⟩
  rw [hraw]
  exact (v.limits _ hblock).faithful.ofBytes_encode

theorem store (h : n.Awaits chain [] aim top) (v : ValidChain chain) {e : CachedBlock} (he : n.ready? = some e) :
    (n.stored e.block).Awaits chain [] aim top := by
  obtain ⟨hget, hle, -⟩ := h.of_ready v he
  have hheader := Nat.le_trans hle h.top_le
  have hfits := h.follows.fits v hget hheader
  have hkept : ∀ x ∈ (n.stored e.block).sync.cache.entries, x ∈ n.sync.cache.entries := fun x hx =>
    ((BlockCache.take_sublist _ _).trans (BlockCache.pruneThrough_sublist _ _)).subset hx
  constructor
  case toOnChain =>
    exact ⟨h.follows.pushBlock v hget hheader, h.accounted.store he hfits, fun x hx => h.cached x (hkept x hx)⟩
  case honest => exact h.honest
  case header => exact h.header
  case aimed => exact h.aimed
  case asked => exact h.asked
  case held => exact fun x hx => h.held x (hkept x hx)
  case covered =>
    intro i hi htop
    have hbase : (n.stored e.block).ledger.blockHeight = n.ledger.blockHeight + 1 :=
      h.follows.wellFormed.blockHeight_pushBlock e.block
    rw [hbase] at hi
    refine (h.covered i (by omega) htop).imp_right fun hcached => ?_
    show (n.pruned.take (n.ledger.blockHeight + 1)).1.contains i = true
    rw [h.accounted.pruned_eq]
    exact BlockCache.contains_take.2 ⟨hcached, by omega⟩
  case top_le => exact h.top_le

/-- A pass stores every block up to the top of the batch. -/
theorem persist (h : n.Awaits chain [] aim top) (v : ValidChain chain) (hle : n.ledger.blockHeight ≤ top) :
    n.persist.1.Awaits chain [] aim top ∧ n.persist.1.ledger.blockHeight = top ∧
      n.persist.1.sync.cache.entries = [] ∧ n.persist.1.pool.peers = n.pool.peers := by
  refine persist_preserves
    (P := fun m => m.Awaits chain [] aim top ∧ m.ledger.blockHeight ≤ top ∧ m.pool.peers = n.pool.peers)
    (Q := fun m => m.Awaits chain [] aim top ∧ m.ledger.blockHeight = top ∧ m.sync.cache.entries = [] ∧
      m.pool.peers = n.pool.peers) ?_ ?_ ?_ n ⟨h, hle, rfl⟩
  · rintro m ⟨hm, hbase, hpeers⟩ hnone
    unfold ready? at hnone
    rw [hm.accounted.pruned_eq] at hnone ⊢
    have htop : m.ledger.blockHeight = top := by
      refine Nat.le_antisymm hbase (Nat.not_lt.1 fun hlt => ?_)
      rcases hm.covered _ (Nat.lt_succ_self _) hlt with ⟨e, he, -⟩ | hcached
      · rw [hm.blocks_eq_nil] at he
        cases he
      · rw [BlockCache.get?_eq_none_iff.1 hnone] at hcached
        cases hcached
    refine ⟨hm, htop, List.eq_nil_iff_forall_not_mem.2 fun e he => ?_, hpeers⟩
    have h1 := hm.accounted.above e he
    have h2 := hm.held e he
    omega
  · rintro m e b ⟨hm, hbase, hpeers⟩ he hraw -
    obtain ⟨-, hnext, hblock⟩ := hm.of_ready v he
    obtain rfl : e.block = b := Except.ok.inj (hblock.symm.trans hraw)
    refine ⟨hm.store v he, ?_, hpeers⟩
    show (m.ledger.pushBlock e.block).blockHeight ≤ top
    rw [hm.follows.wellFormed.blockHeight_pushBlock]
    exact hnext
  · rintro m e err pool ⟨hm, -, -⟩ he herr
    obtain ⟨hget, hnext, hblock⟩ := hm.of_ready v he
    have hfits := hm.follows.fits v hget (Nat.le_trans hnext hm.top_le)
    rw [Ledger.addBlock_eq_ok_iff.2 ⟨hblock, hfits, rfl⟩] at herr
    cases herr

end Awaits

section
variable {chain : List Block} {N : Nat} {n : Node}

/-! ## Asking for headers -/

/-- A request for headers waits with a peer, if more headers are of use and there are more. -/
structure AsksHeaders (N : Nat) (n : Node) (header : Option Request) (pool : Pool) : Prop where
  roster : pool.roster = n.pool.roster
  light : ∀ q ∈ pool.peers, q.outbox.length ≤ 1
  idle : header = none → pool.queued = [] ∧
    (n.sync.config.lookAhead ≤ n.ledger.headerHeight - n.ledger.blockHeight ∨ N ≤ n.ledger.headerHeight)
  asked : ∀ r, header = some r → r.height = n.ledger.headerHeight + 1 ∧ n.ledger.headerHeight < N ∧
    ∃ id, ∀ x, x ∈ pool.queued ↔ x = (id, .getheaders (.behind (n.ledger.hashAt n.ledger.headerHeight)))

omit [Digest] in
theorem asksHeaders_of_idle (hbox : ∀ q ∈ n.pool.peers, q.outbox.length ≤ 0) (hidle : n.pool.queued = [])
    (h : n.sync.config.lookAhead ≤ n.ledger.headerHeight - n.ledger.blockHeight ∨ N ≤ n.ledger.headerHeight) :
    AsksHeaders N n none n.pool where
  roster := rfl
  light := fun q hq => Nat.le_succ_of_le (hbox q hq)
  idle := fun _ => ⟨hidle, h⟩
  asked := fun _ hr => by cases hr

omit [Digest] in
theorem syncHeaders_of_serving (hnone : n.sync.header = none) (s : n.pool.Serves N) (hidle : n.pool.queued = [])
    (now : Instant) : ∃ pool header, n.syncHeaders now = (n.setPool pool).setHeader header ∧
      AsksHeaders N n header pool := by
  have hbox := Pool.length_outbox_of_idle hidle
  by_cases hahead : n.sync.config.lookAhead ≤ n.ledger.headerHeight - n.ledger.blockHeight
  · refine ⟨n.pool, none, ?_, asksHeaders_of_idle hbox hidle (Or.inl hahead)⟩
    rw [syncHeaders_of_idle (Or.inl hahead), ← hnone]
    rfl
  by_cases hend : N ≤ n.ledger.headerHeight
  · refine ⟨n.pool, none, ?_, asksHeaders_of_idle hbox hidle (Or.inr hend)⟩
    rw [syncHeaders_of_idle (Or.inr (s.nextPeer?_eq_none now (Nat.lt_succ_of_le hend))), ← hnone]
    rfl
  obtain ⟨p, hp⟩ := s.exists_nextPeer? now (Nat.not_le.1 hend)
  obtain ⟨hmem, hpooled, hstate, -⟩ := Pool.of_nextPeer? hp
  have hroom : p.outbox.length < outboxCapacity := Nat.lt_of_le_of_lt (hbox p hmem) (by decide)
  have hsent := s.withPeer_ask hmem hpooled hstate hroom now
    (.getheaders (.behind (n.ledger.hashAt n.ledger.headerHeight)))
  refine ⟨_, _, syncHeaders_of_sent hnone (Nat.not_le.1 hahead) hp hsent, ?_⟩
  constructor
  case roster => exact Pool.roster_asked _ _ _ _
  case light => exact Pool.length_outbox_asked hbox _ _ _
  case idle => intro h; cases h
  case asked =>
    intro r hr
    cases hr
    refine ⟨rfl, Nat.not_le.1 hend, p.id, fun x => ?_⟩
    rw [Pool.mem_queued_asked hmem, hidle]
    simp

omit [Digest] in
/-- The height that the node is sure to reach with its headers. -/
theorem AsksHeaders.exists_aim {header : Option Request} {pool : Pool} (h : AsksHeaders N n header pool) :
    ∃ aim, n.ledger.headerHeight ≤ aim ∧
      (aim ≤ n.ledger.headerHeight ∨ aim = n.ledger.headerHeight + 1 ∧ header ≠ none) ∧
      (n.ledger.headerHeight < N → n.ledger.headerHeight - n.ledger.blockHeight < n.sync.config.lookAhead →
        aim = n.ledger.headerHeight + 1) := by
  cases header with
  | none =>
    have hidle := (h.idle rfl).2
    exact ⟨_, Nat.le_refl _, Or.inl (Nat.le_refl _), by omega⟩
  | some r => exact ⟨_, Nat.le_succ _, Or.inr ⟨rfl, nofun⟩, fun _ _ => rfl⟩

/-! ## Asking for blocks -/

structure AsksBlocks (n : Node) (blocks : List (Hash × Request)) (top : Nat) (pool : Pool) : Prop where
  roster : pool.roster = n.pool.roster
  base_le : n.ledger.blockHeight ≤ top
  top_le : top ≤ n.ledger.headerHeight
  more : n.ledger.blockHeight < n.ledger.headerHeight → n.ledger.blockHeight < top
  covered : ∀ h, n.ledger.blockHeight < h → h ≤ top → ∃ e ∈ blocks, e.2.height = h
  kept : ∀ x ∈ n.pool.queued, x ∈ pool.queued
  new : ∀ x ∈ pool.queued, x ∈ n.pool.queued ∨ ∃ i, x.2 = .getdata i
  asked : ∀ e ∈ blocks, e.2.height ≤ top ∧
    ∃ id hashes, (id, .getdata ⟨.block, hashes⟩) ∈ pool.queued ∧ e.1 ∈ hashes

omit [Digest] in
theorem batchLimit_pos (hcache : n.sync.cache.entries = []) (hcapacity : 1 ≤ n.sync.cache.capacity)
    (hlimit : 1 ≤ n.sync.config.requestLimit) : 0 < n.batchLimit := by
  have hsize : n.sync.cache.size = 0 := congrArg List.length hcache
  refine Nat.lt_min.2 ⟨Nat.lt_min.2 ⟨?_, hlimit⟩, by decide⟩
  unfold BlockCache.remaining
  omega

namespace OnChain

variable (o : n.OnChain chain) (v : ValidChain chain)
include o v

theorem isZero_hashAt {h : Nat} (hle : h ≤ n.ledger.headerHeight) : (n.ledger.hashAt h).isZero = false := by
  obtain ⟨b, hb, -⟩ := o.follows.headers_get? hle
  rw [o.follows.hashAt_eq hle hb]
  exact beq_false_of_ne (v.nonzero b (List.mem_of_getElem? hb))

theorem asksBlocks_issue (hcache : n.sync.cache.entries = []) (hlimit : 0 < n.batchLimit)
    (hend : n.ledger.headerHeight ≤ N) {p : Peer} (hp : p ∈ n.pool.peers) (now : Instant) :
    n.AsksBlocks (issue now p.id (n.missingBlocks N))
      (n.ledger.blockHeight + min n.batchLimit (n.ledger.headerHeight - n.ledger.blockHeight))
      (n.pool.modify p.id (Peer.asked now (.getdata ⟨.block, (n.missingBlocks N).map (·.2)⟩))) := by
  have hbatch : ∀ x, x ∈ n.missingBlocks N ↔ _ := fun x =>
    mem_missingBlocks_of_empty hcache fun h _ hle => o.isZero_hashAt v hle
  rw [Nat.min_eq_left hend] at hbatch
  have hbase := o.follows.wellFormed.blockHeight_le
  constructor
  case roster => exact Pool.roster_asked _ _ _ _
  case base_le => exact Nat.le_add_right _ _
  case top_le => omega
  case more => omega
  case covered =>
    intro h hh hle
    exact o.accounted.exists_request v.collisionFree now p.id ((hbatch (h, _)).2 ⟨hh, hle, rfl⟩)
  case kept => exact fun x hx => (Pool.mem_queued_asked hp now _).2 (Or.inl hx)
  case new =>
    intro x hx
    rcases (Pool.mem_queued_asked hp now _).1 hx with hx | rfl
    · exact Or.inl hx
    · exact Or.inr ⟨_, rfl⟩
  case asked =>
    intro e he
    obtain ⟨x, hx, rfl⟩ := of_mem_issue he
    exact ⟨((hbatch x).1 hx).2.1, p.id, _, (Pool.mem_queued_asked hp now _).2 (Or.inr rfl), List.mem_map_of_mem hx⟩

theorem syncBlocks (hlength : chain.length = N + 1) (hnil : n.sync.blocks = []) (hcache : n.sync.cache.entries = [])
    (hcapacity : 1 ≤ n.sync.cache.capacity) (hlimit : 1 ≤ n.sync.config.requestLimit) (s : n.pool.Serves N)
    (hbox : ∀ q ∈ n.pool.peers, q.outbox.length ≤ 1) (now : Instant) :
    ∃ pool blocks top, n.syncBlocks now = (n.setPool pool).setBlocks blocks ∧ n.AsksBlocks blocks top pool := by
  have hend := o.follows.headerHeight_lt
  rw [hlength] at hend
  by_cases hheader : n.ledger.headerHeight ≤ n.ledger.blockHeight
  · have hbase := o.follows.wellFormed.blockHeight_le
    refine ⟨n.pool, [], n.ledger.blockHeight, ?_, rfl, Nat.le_refl _, hbase, by omega, by omega,
      fun _ h => h, fun _ h => Or.inl h, fun e he => by cases he⟩
    rw [syncBlocks_of_complete now hheader, ← hnil]
    rfl
  have hheader := Nat.not_le.1 hheader
  have hnext : n.ledger.blockHeight + 1 ≤ N := by omega
  obtain ⟨p, hp⟩ := s.exists_nextPeer? now hnext
  obtain ⟨hmem, hpooled, hstate, -⟩ := Pool.of_nextPeer? hp
  have hpos := batchLimit_pos hcache hcapacity hlimit
  have hasks := o.asksBlocks_issue v hcache hpos (N := N) (by omega) hmem now
  have hne : n.missingBlocks N ≠ [] := by
    intro hempty
    obtain ⟨e, he, -⟩ := hasks.covered _ (Nat.lt_succ_self _) (hasks.more hheader)
    rw [hempty] at he
    cases he
  have hhashes : (n.missingBlocks N).map (·.2) ≠ [] := fun h => hne (List.map_eq_nil_iff.1 h)
  have hroom : p.outbox.length < outboxCapacity := Nat.lt_of_le_of_lt (hbox p hmem) (by decide)
  have hsent := s.withPeer_ask hmem hpooled hstate hroom now
    (.getdata ⟨.block, (n.missingBlocks N).map (·.2)⟩)
  simp only [← Pool.getData_block hhashes] at hsent
  obtain rfl := (s.active p hmem hpooled hstate).1
  exact ⟨_, _, _, syncBlocks_of_sent hnil hheader hpos hp hne hsent, hasks⟩

/-! ## What is answered -/

/-- The answer to a request for the headers behind the last one is a batch that follows it. -/
theorem exists_headers (hend : n.ledger.headerHeight + 1 < chain.length) {span : Nat} (hspan : 1 ≤ span)
    (peer : PeerId) : ∃ hs,
      (Message.getheaders (.behind (n.ledger.hashAt n.ledger.headerHeight))).answers chain span peer =
        [.headers peer hs] ∧
      hs ≠ [] ∧ hs <+: (chain.map Block.header).drop (n.ledger.headerHeight + 1) := by
  obtain ⟨b, hb, -⟩ := o.follows.headers_get? (Nat.le_refl _)
  rw [o.follows.hashAt_eq (Nat.le_refl _) hb]
  refine ⟨_, answers_behind span peer v.distinct hb, ?_, List.take_prefix _ _⟩
  rw [← List.length_pos_iff, List.length_take, List.length_drop, List.length_map]
  omega

omit v in
/-- The answer to a request for blocks brings each one that a header is stored for. -/
theorem exists_block (span : Nat) (peer : PeerId) {hashes : List Hash} {i : Nat} (hi : i ≤ n.ledger.headerHeight)
    (hmem : n.ledger.hashAt i ∈ hashes) : ∃ b raw, .block peer b raw ∈
      (Message.getdata ⟨.block, hashes⟩).answers chain span peer ∧ b.hash = n.ledger.hashAt i := by
  obtain ⟨b, hb, -⟩ := o.follows.headers_get? hi
  have hhash := o.follows.hashAt_eq hi hb
  rw [hhash] at hmem ⊢
  obtain ⟨c, hc, hanswer⟩ := exists_answer span peer (List.mem_of_getElem? hb) hmem
  exact ⟨c, _, hanswer, hc⟩

end OnChain

/-! ## A tick between rounds -/

structure Settled (chain : List Block) (config : SyncConfig) (n : Node) : Prop extends n.OnChain chain where
  header : n.sync.header = none
  blocks : n.sync.blocks = []
  cache : n.sync.cache.entries = []
  configured : n.sync.config = config
  capacity : n.sync.cache.capacity = config.cacheCapacity

namespace Settled

variable {config : SyncConfig} (s : n.Settled chain config) (v : ValidChain chain) (hlength : chain.length = N + 1)
  {span : Nat} (hspan : 1 ≤ span)
include s v hlength hspan

theorem awaits {pool pool' : Pool} {header : Option Request} {blocks : List (Hash × Request)} {aim top : Nat}
    (hheader : AsksHeaders N n header pool)
    (hblocks : AsksBlocks ((n.setPool pool).setHeader header) blocks top pool')
    (haccounted : ((((n.setPool pool).setHeader header).setPool pool').setBlocks blocks).Accounted
      (chain.map Block.header))
    (haimed : aim ≤ n.ledger.headerHeight ∨ aim = n.ledger.headerHeight + 1 ∧ header ≠ none) :
    ((((n.setPool pool).setHeader header).setPool pool').setBlocks blocks).Awaits chain (pool'.answers chain span)
      aim top := by
  constructor
  case toOnChain => exact ⟨s.follows, haccounted, s.cached⟩
  case honest =>
    intro a ha
    obtain ⟨x, -, hx⟩ := List.mem_flatMap.1 ha
    rcases of_mem_answers hx with ⟨l, hs, -, rfl⟩ | ⟨b, hb, rfl⟩
    · exact Or.inr (Or.inl ⟨x.1, hs, rfl⟩)
    · exact Or.inr (Or.inr ⟨x.1, b, hb, rfl⟩)
  case header =>
    intro r hr
    obtain ⟨hheight, hend, id, hqueued⟩ := hheader.asked r hr
    obtain ⟨hs, hanswer, hne, hfollow⟩ := s.toOnChain.exists_headers v (by omega) hspan id
    have hsent : .headers id hs ∈ (Message.getheaders _).answers chain span id := hanswer ▸ List.mem_singleton.2 rfl
    refine ⟨hheight, ⟨id, hs, List.mem_flatMap.2 ⟨_, hblocks.kept _ ((hqueued _).2 rfl), hsent⟩⟩, ?_⟩
    -- no other message that waits is answered by headers
    intro peer hs' hmem
    obtain ⟨x, hx, hxa⟩ := List.mem_flatMap.1 hmem
    rcases hblocks.new x hx with hold | ⟨i, hi⟩
    · obtain rfl := (hqueued x).1 hold
      rw [hanswer, List.mem_singleton] at hxa
      obtain ⟨-, rfl⟩ := Action.headers.inj hxa
      exact ⟨hne, hfollow⟩
    · rcases of_mem_answers hxa with ⟨l, _, hl, -⟩ | ⟨_, _, hb⟩
      · rw [hl] at hi
        cases hi
      · cases hb
  case aimed => exact haimed
  case asked =>
    intro e he
    obtain ⟨hle, id, hashes, hqueued, hmem⟩ := hblocks.asked e he
    obtain ⟨-, hheight, hhash⟩ := haccounted.asked e he
    obtain ⟨b, raw, hanswer, hb⟩ := s.toOnChain.exists_block span id hheight (hhash ▸ hmem)
    exact ⟨hle, id, b, raw, List.mem_flatMap.2 ⟨_, hqueued, hanswer⟩, hb.trans hhash⟩
  case held =>
    intro e he
    have hempty : e ∈ n.sync.cache.entries := he
    rw [s.cache] at hempty
    cases hempty
  case covered => exact fun i hi hle => Or.inl (hblocks.covered i hi hle)
  case top_le => exact hblocks.top_le

/-- A tick asks for as much as it can use: some header or some block, as long as blocks are missing. -/
theorem tick (hahead : 1 ≤ config.lookAhead) (hcapacity : 1 ≤ config.cacheCapacity) (hlimit : 1 ≤ config.requestLimit)
    (hpool : n.pool.Serves N) (hidle : n.pool.queued = []) (now : Instant) :
    ∃ aim top, (n.tick now).Awaits chain ((n.tick now).pool.answers chain span) aim top ∧
      (n.tick now).pool.roster = n.pool.roster ∧ (n.tick now).ledger = n.ledger ∧
        n.ledger.headerHeight ≤ aim ∧ n.ledger.blockHeight ≤ top ∧
          (n.ledger.blockHeight < N → n.ledger.headerHeight + n.ledger.blockHeight < aim + top) := by
  have hmoves : Moves (chain.map Block.header) True n (n.tick now) := moves_tick now
  have haccounted := s.accounted.moves v.collisionFree hmoves
  obtain ⟨pool, header, h₁, hheader⟩ := syncHeaders_of_serving s.header hpool hidle now
  have o : ((n.setPool pool).setHeader header).OnChain chain :=
    ⟨s.follows, (s.accounted.setPool pool).setHeader header, s.cached⟩
  obtain ⟨pool', blocks, top, h₂, hblocks⟩ :=
    o.syncBlocks v hlength s.blocks s.cache (s.capacity ▸ hcapacity) (s.configured ▸ hlimit)
      (hpool.of_roster_eq hheader.roster) hheader.light now
  have htick : n.tick now = (((n.setPool pool).setHeader header).setPool pool').setBlocks blocks := by
    unfold Node.tick
    rw [checkHeaders_of_none now s.header, checkBlocks_of_nil now s.blocks, h₁, h₂]
  rw [htick] at haccounted ⊢
  obtain ⟨aim, haim, haimed, hasks⟩ := hheader.exists_aim
  have hbase : n.ledger.blockHeight ≤ top := hblocks.base_le
  have hmore : n.ledger.blockHeight < n.ledger.headerHeight → n.ledger.blockHeight < top := hblocks.more
  refine ⟨aim, top, s.awaits v hlength hspan hheader hblocks haccounted haimed, hblocks.roster.trans hheader.roster,
    rfl, haim, hbase, fun hlt => ?_⟩
  rw [s.configured] at hasks
  -- when no more headers are asked for, the node holds some without their blocks
  by_cases hheaders : n.ledger.headerHeight < N ∧ n.ledger.headerHeight - n.ledger.blockHeight < config.lookAhead
  · have := hasks hheaders.1 hheaders.2
    omega
  · omega

end Settled

end

end Node

end

end ChainSync
