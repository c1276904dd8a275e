import ChainSync.Proofs.Answers
import ChainSync.Proofs.Room

/-!
# Deliveries by honest peers

While answers of a round are on their way, each outstanding request has its
answer among them, and what is asked for or cached are all heights behind the
last block up to some height (`Awaits`). Each delivery keeps this, in any
order, so that nothing is outstanding once everything has arrived.
-/

namespace ChainSync

variable [Digest]

theorem ValidChain.collisionFree {chain : List Block} (v : ValidChain chain) :
    CollisionFree (chain.map Block.header) := by
  intro x hx y hy h
  obtain ⟨a, ha, rfl⟩ := List.mem_map.1 hx
  obtain ⟨b, hb, rfl⟩ := List.mem_map.1 hy
  rw [v.eq_of_hash_eq ha hb h]

theorem ValidChain.get?_height {chain : List Block} (v : ValidChain chain) {b : Block} (hb : b ∈ chain) :
    chain[b.height]? = some b := by
  obtain ⟨i, hi⟩ := List.mem_iff_getElem?.1 hb
  rwa [v.index i b hi]

namespace Node

omit [Digest] in
theorem noteSpeed_eq (now : Instant) (peer : PeerId) (size : Nat) (r : Request) (n : Node) :
    ∃ pool, pool.roster = n.pool.roster ∧ noteSpeed now peer size r n = n.setPool pool := by
  rcases noteSpeed_cases now peer size r n with h | ⟨speed, h⟩
  · exact ⟨n.pool, rfl, h⟩
  · exact ⟨_, Pool.roster_modify peer (f := (·.addSpeed speed)) (fun _ => rfl) n.pool, h⟩

theorem Accounted.receiveBlock_placed {known : List Header} {n : Node} (hn : n.Accounted known)
    (hfree : CollisionFree known) {b : Block} {r : Request} (hb : b.header ∈ known)
    (hr : n.blockRequest? b.hash = some r) (now : Instant) (peer : PeerId) (raw : Bytes) :
    ∃ pool, pool.roster = n.pool.roster ∧
      n.receiveBlock now peer b raw = ((n.setBlocks (Assoc.erase b.hash n.sync.blocks)).setPool pool).setCache
        { n.sync.cache with entries := BlockCache.place ⟨b, raw, peer⟩ n.sync.cache.entries } ∧
      (n.receiveBlock now peer b raw).Accounted known := by
  obtain ⟨pool, hroster, hnoted⟩ := noteSpeed_eq now peer raw.length r (n.setBlocks (Assoc.erase b.hash n.sync.blocks))
  have hmoves : Moves known True n (n.receiveBlock now peer b raw) := moves_receiveBlock now peer raw hb
  refine ⟨pool, hroster, ?_, hn.moves hfree hmoves⟩
  rw [hn.receiveBlock_eq hfree hb hr, hnoted]

structure OnChain (chain : List Block) (n : Node) : Prop where
  follows : n.ledger.Follows chain
  accounted : n.Accounted (chain.map Block.header)
  cached : ∀ e ∈ n.sync.cache.entries, e.block ∈ chain ∧ e.raw = Codec.encode e.block

/-- The answers in `todo` are all that the node waits for: headers that take it to `aim` at least, and
blocks up to `top`. -/
structure Awaits (chain : List Block) (todo : List Action) (aim top : Nat) (n : Node) : Prop extends
    n.OnChain chain where
  honest : ∀ a ∈ todo, (∃ d, a = .wait d) ∨ (∃ peer hs, a = .headers peer hs) ∨
    ∃ peer, ∃ b ∈ chain, a = .block peer b (Codec.encode b)
  header : ∀ r, n.sync.header = some r → r.height = n.ledger.headerHeight + 1 ∧
    (∃ peer hs, .headers peer hs ∈ todo) ∧ ∀ peer hs, .headers peer hs ∈ todo →
      hs ≠ [] ∧ hs <+: (chain.map Block.header).drop (n.ledger.headerHeight + 1)
  aimed : aim ≤ n.ledger.headerHeight ∨ aim = n.ledger.headerHeight + 1 ∧ n.sync.header ≠ none
  asked : ∀ e ∈ n.sync.blocks, e.2.height ≤ top ∧ ∃ peer b raw, .block peer b raw ∈ todo ∧ b.hash = e.1
  held : ∀ e ∈ n.sync.cache.entries, e.height ≤ top
  covered : ∀ h, n.ledger.blockHeight < h → h ≤ top →
    (∃ e ∈ n.sync.blocks, e.2.height = h) ∨ n.sync.cache.contains h = true
  top_le : top ≤ n.ledger.headerHeight

namespace Awaits

variable {chain : List Block} {todo : List Action} {aim top : Nat} {n : Node}

theorem drop {a : Action} (h : n.Awaits chain (a :: todo) aim top)
    (hheaders : ∀ peer hs, a = .headers peer hs → n.sync.header = none)
    (hblock : ∀ peer b raw, a = .block peer b raw → ∀ e ∈ n.sync.blocks, e.1 ≠ b.hash) :
    n.Awaits chain todo aim top := by
  refine { h with honest := fun a ha => h.honest a (List.mem_cons_of_mem _ ha), header := ?_, asked := ?_ }
  · intro r hr
    obtain ⟨h1, ⟨peer, hs, hmem⟩, h3⟩ := h.header r hr
    refine ⟨h1, ⟨peer, hs, ?_⟩, fun peer hs hmem => h3 peer hs (List.mem_cons_of_mem _ hmem)⟩
    rcases List.mem_cons.1 hmem with rfl | hmem
    · rw [hheaders peer hs rfl] at hr
      cases hr
    · exact hmem
  · intro e he
    obtain ⟨h1, peer, b, raw, hmem, h2⟩ := h.asked e he
    refine ⟨h1, peer, b, raw, ?_, h2⟩
    rcases List.mem_cons.1 hmem with rfl | hmem
    · exact absurd h2.symm (hblock peer b raw rfl e he)
    · exact hmem

/-- Answers to a request for headers are stored all of them; headers that were not asked for change nothing. -/
theorem receiveHeaders (h : n.Awaits chain todo aim top) (v : ValidChain chain) {peer : PeerId} {hs : List Header}
    (hmem : .headers peer hs ∈ todo) :
    (n.receiveHeaders peer hs).Awaits chain todo aim top ∧ (n.receiveHeaders peer hs).sync.header = none ∧
      (n.receiveHeaders peer hs).pool = n.pool ∧
        (n.receiveHeaders peer hs).ledger.blockHeight = n.ledger.blockHeight := by
  cases hr : n.sync.header with
  | none =>
    rw [receiveHeaders_of_none peer hs hr]
    exact ⟨h, hr, rfl, rfl⟩
  | some r =>
    obtain ⟨hheight, -, hall⟩ := h.header r hr
    obtain ⟨hne, hfollow⟩ := hall peer hs hmem
    obtain ⟨haccepted, hfollows, hgrown⟩ := h.follows.addHeaders v hfollow
    obtain ⟨first, hfirst⟩ : ∃ first, hs.head? = some first := by
      cases hs with
      | nil => exact absurd rfl hne
      | cons first rest => exact ⟨first, rfl⟩
    have hindex := v.height_of_follow hfollow hfirst
    have hbase := Ledger.blockHeight_addHeaders hs n.ledger
    have hpos : 0 < hs.length := List.length_pos_of_ne_nil hne
    rw [receiveHeaders_of_linked peer hr hfirst (hindex.trans hheight.symm) (by omega) haccepted]
    refine ⟨?_, rfl, rfl, hbase⟩
    constructor
    case toOnChain =>
      have hknown : ∀ x ∈ hs, x ∈ chain.map Block.header := fun x hx =>
        List.mem_of_mem_drop (hfollow.subset hx)
      exact ⟨hfollows, (h.accounted.addHeaders hknown).setHeader none, h.cached⟩
    case honest => exact h.honest
    case header => intro r hr; cases hr
    case aimed =>
      refine Or.inl ?_
      show aim ≤ (n.ledger.addHeaders hs).1.headerHeight
      rcases h.aimed with haim | ⟨haim, -⟩ <;> omega
    case asked => exact h.asked
    case held => exact h.held
    case covered => exact fun i hi => h.covered i (hbase ▸ hi)
    case top_le =>
      have := h.top_le
      show top ≤ (n.ledger.addHeaders hs).1.headerHeight
      omega

/-- A block moves from the requests to the cache if it is still asked for, and changes nothing if not. -/
theorem receiveBlock (h : n.Awaits chain todo aim top) (v : ValidChain chain) (now : Instant) (peer : PeerId)
    {b : Block} (hb : b ∈ chain) :
    (n.receiveBlock now peer b (Codec.encode b)).Awaits chain todo aim top ∧
      (∀ e ∈ (n.receiveBlock now peer b (Codec.encode b)).sync.blocks, e.1 ≠ b.hash) ∧
        (n.receiveBlock now peer b (Codec.encode b)).pool.roster = n.pool.roster ∧
          (n.receiveBlock now peer b (Codec.encode b)).ledger = n.ledger := by
  cases hr : n.blockRequest? b.hash with
  | none =>
    rw [receiveBlock_of_none now peer _ hr]
    exact ⟨h, Assoc.get?_eq_none_iff.1 hr, rfl, rfl⟩
  | some r =>
    have hknown : b.header ∈ chain.map Block.header := List.mem_map_of_mem hb
    obtain ⟨hheight, -, -⟩ := h.accounted.slot_of_requested v.collisionFree hknown hr
    obtain ⟨pool, hroster, heq, haccounted⟩ := h.accounted.receiveBlock_placed v.collisionFree hknown hr now peer
      (Codec.encode b)
    rw [heq] at haccounted ⊢
    refine ⟨?_, fun e he => (Assoc.mem_erase.1 he).2, hroster, rfl⟩
    have hmem := Assoc.mem_of_get? hr
    have hplaced : ∀ e, e ∈ BlockCache.place ⟨b, Codec.encode b, peer⟩ n.sync.cache.entries ↔
        e = ⟨b, Codec.encode b, peer⟩ ∨ e ∈ n.sync.cache.entries := fun e => BlockCache.mem_place
    constructor
    case toOnChain =>
      refine ⟨h.follows, haccounted, fun e he => ?_⟩
      rcases (hplaced e).1 he with rfl | he
      · exact ⟨hb, rfl⟩
      · exact h.cached e he
    case honest => exact h.honest
    case header => exact h.header
    case aimed => exact h.aimed
    case asked => exact fun e he => h.asked e (Assoc.mem_erase.1 he).1
    case held =>
      intro e he
      rcases (hplaced e).1 he with rfl | he
      · exact Nat.le_trans (Nat.le_of_eq hheight) (h.asked _ hmem).1
      · exact h.held e he
    case covered =>
      intro i hi htop
      rcases h.covered i hi htop with ⟨e, he, rfl⟩ | hcached
      · by_cases hkey : e.1 = b.hash
        · have hsame := h.accounted.height_of_asked v.collisionFree hknown he hkey
          exact Or.inr (BlockCache.contains_place.2 (Or.inl hsame.symm))
        · exact Or.inl ⟨e, Assoc.mem_erase.2 ⟨he, hkey⟩, rfl⟩
      · exact Or.inr (BlockCache.contains_place.2 (Or.inr hcached))
    case top_le => exact h.top_le

theorem arrive {a : Action} (h : n.Awaits chain (a :: todo) aim top) (v : ValidChain chain) (now : Instant) :
    (a.act now n).Awaits chain todo aim top ∧ (a.act now n).pool.roster = n.pool.roster ∧
      (a.act now n).ledger.blockHeight = n.ledger.blockHeight := by
  have hhead : a ∈ a :: todo := List.mem_cons_self ..
  rcases h.honest a hhead with ⟨d, rfl⟩ | ⟨peer, hs, rfl⟩ | ⟨peer, b, hb, rfl⟩
  · exact ⟨h.drop (fun _ _ h => by cases h) (fun _ _ _ h => by cases h), rfl, rfl⟩
  · obtain ⟨h1, h2, h3, h4⟩ := h.receiveHeaders v hhead
    exact ⟨h1.drop (fun _ _ _ => h2) (fun _ _ _ h => by cases h), congrArg Pool.roster h3, h4⟩
  · obtain ⟨h1, h2, h3, h4⟩ := h.receiveBlock v now peer hb
    refine ⟨h1.drop (fun _ _ h => by cases h) ?_, h3, congrArg Ledger.blockHeight h4⟩
    intro _ _ _ heq
    cases heq
    exact h2

theorem run (v : ValidChain chain) : ∀ {todo : List Action} {w : World}, w.node.Awaits chain todo aim top →
    (w.run todo).node.Awaits chain [] aim top ∧ w.Steady todo ∧
      (w.run todo).node.ledger.blockHeight = w.node.ledger.blockHeight
  | [], _, h => ⟨h, trivial, rfl⟩
  | a :: todo, w, h => by
    obtain ⟨h1, h2, h3⟩ := h.arrive v w.now
    obtain ⟨h4, h5, h6⟩ := run v (w := a.step w) h1
    exact ⟨h4, ⟨h2, h5⟩, h6.trans h3⟩

theorem header_eq_none (h : n.Awaits chain [] aim top) : n.sync.header = none := by
  cases hr : n.sync.header with
  | none => rfl
  | some r =>
    obtain ⟨-, ⟨peer, hs, hmem⟩, -⟩ := h.header r hr
    cases hmem

theorem blocks_eq_nil (h : n.Awaits chain [] aim top) : n.sync.blocks = [] := by
  refine List.eq_nil_iff_forall_not_mem.2 fun e he => ?_
  obtain ⟨-, peer, b, raw, hmem, -⟩ := h.asked e he
  cases hmem

end Awaits

end Node

end ChainSync
