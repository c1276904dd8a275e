import ChainSync.Proofs.Progress

/-!
# Catching up in rounds

One honest round leads from a settled node to a settled node that holds more.
By induction on the rounds the node holds the whole chain after two for each
height, and no peer was ever charged with anything.
-/

namespace ChainSync

section
variable [Digest]

namespace Node.Awaits

variable {chain : List Block} {aim top : Nat} {n : Node}

theorem of_arrivals {due arrivals : List Action} (h : n.Awaits chain due aim top) (hall : ∀ a ∈ due, a ∈ arrivals)
    (honly : ∀ a ∈ arrivals, (∃ d, a = .wait d) ∨ a ∈ due) : n.Awaits chain arrivals aim top := by
  refine { h with honest := ?_, header := ?_, asked := ?_ }
  · intro a ha
    rcases honly a ha with hwait | hdue
    · exact Or.inl hwait
    · exact h.honest a hdue
  · intro r hr
    obtain ⟨h1, ⟨peer, hs, hmem⟩, h3⟩ := h.header r hr
    refine ⟨h1, ⟨peer, hs, hall _ hmem⟩, fun peer hs hmem => ?_⟩
    rcases honly _ hmem with ⟨d, hd⟩ | hdue
    · cases hd
    · exact h3 peer hs hdue
  · intro e he
    obtain ⟨h1, peer, b, raw, hmem, h2⟩ := h.asked e he
    exact ⟨h1, peer, b, raw, hall _ hmem, h2⟩

theorem setPool (h : n.Awaits chain [] aim top) (pool : Pool) : (n.setPool pool).Awaits chain [] aim top :=
  { h with follows := h.follows, accounted := h.accounted.setPool pool, cached := h.cached }

end Node.Awaits

namespace World

theorem run_flushes : ∀ (ids : List PeerId) (w : World),
    (w.run (flushes ids)).node = w.node.setPool (w.node.pool.flushEach ids) ∧ w.Steady (flushes ids)
  | [], _ => ⟨rfl, trivial⟩
  | id :: ids, w => by
    obtain ⟨h1, h2⟩ := run_flushes ids (Action.step w (.churn (.flush id)))
    exact ⟨h1, Pool.roster_flush id w.node.pool, h2⟩

/-- Between rounds: peers of a height serve a node that waits for nothing. -/
structure Between (chain : List Block) (config : SyncConfig) (N : Nat) (w : World) : Prop where
  settled : w.node.Settled chain config
  serves : w.node.pool.Serves N
  idle : w.node.pool.queued = []

variable {chain : List Block} {config : SyncConfig} {N : Nat} {w : World}

theorem IsFresh.between {g : Block} (hw : w.IsFresh g config) (hg : chain.head? = some g)
    (hserves : w.node.pool.Serves N) (hidle : w.node.pool.queued = []) : w.Between chain config N := by
  refine ⟨?_, hserves, hidle⟩
  have haccounted := hw.accounted (chain.map Block.header)
  obtain ⟨hledger, hsync⟩ := hw
  have hcache : w.node.sync.cache.entries = [] := by rw [hsync]; rfl
  constructor
  case toOnChain =>
    refine ⟨hledger ▸ Ledger.follows_ofGenesis hg, haccounted, fun e he => ?_⟩
    rw [hcache] at he
    cases he
  case header => rw [hsync]; rfl
  case blocks => rw [hsync]; rfl
  case cache => exact hcache
  case configured => rw [hsync]; rfl
  case capacity => rw [hsync]; rfl

section
variable (v : ValidChain chain) (hlength : chain.length = N + 1) (hahead : 1 ≤ config.lookAhead)
  (hcapacity : 1 ≤ config.cacheCapacity) (hlimit : 1 ≤ config.requestLimit)
include v hlength hahead hcapacity hlimit

theorem Between.awaits (hw : w.Between chain config N) {r : Round} (hr : r.Honest chain w) :
    ∃ aim top, (w.run [.wait r.pause, .tick]).node.Awaits chain r.arrivals aim top ∧
      w.Steady [.wait r.pause, .tick] ∧ (w.run [.wait r.pause, .tick]).node.ledger = w.node.ledger ∧
        w.node.ledger.headerHeight ≤ aim ∧ w.node.ledger.blockHeight ≤ top ∧
          (w.node.ledger.blockHeight < N → w.node.ledger.headerHeight + w.node.ledger.blockHeight < aim + top) := by
  obtain ⟨aim, top, hawaits, hroster, hledger, hbounds⟩ := hw.settled.tick v hlength hr.span.1 hahead hcapacity
    hlimit hw.serves hw.idle (w.now + r.pause)
  refine ⟨aim, top, ?_, ⟨rfl, hroster, trivial⟩, hledger, hbounds⟩
  have hdue : ∀ a, a ∈ (w.run [.wait r.pause, .tick]).node.pool.answers chain r.span ↔
      a ∈ r.arrivals ∧ a.isWait = false := by
    intro a
    rw [← hr.arrivals.mem_iff, List.mem_filter, Bool.not_eq_true']
  refine Node.Awaits.of_arrivals hawaits (fun a ha => ((hdue a).1 ha).1) fun a ha => ?_
  cases a with
  | wait d => exact Or.inl ⟨d, rfl⟩
  | _ => exact Or.inr ((hdue _).2 ⟨ha, rfl⟩)

omit v hlength hahead hcapacity hlimit

theorem idle_run_flushes {ids : List PeerId} (h : w.node.pool.peers.map Peer.id = ids) :
    (w.run (flushes ids)).node.pool.queued = [] := by
  rw [(run_flushes ids w).1]
  exact Pool.queued_flushEach fun p hp => h ▸ List.mem_map_of_mem hp

include v

theorem between_run_persist {aim top : Nat} (h : w.node.Awaits chain [] aim top) (hle : w.node.ledger.blockHeight ≤ top)
    (hserves : w.node.pool.Serves N) (hidle : w.node.pool.queued = []) (hconfigured : w.node.sync.config = config)
    (hcapacity : w.node.sync.cache.capacity = config.cacheCapacity) :
    (w.run [.persist]).Between chain config N ∧ w.Steady [.persist] ∧
      aim ≤ (w.run [.persist]).node.ledger.headerHeight ∧ (w.run [.persist]).node.ledger.blockHeight = top := by
  obtain ⟨hpersisted, hbase, hcache, hpeers⟩ := h.persist v hle
  obtain ⟨hconfig, hcap⟩ := w.config_run [.persist]
  have hroster : (w.run [.persist]).node.pool.roster = w.node.pool.roster := congrArg (List.map Peer.profile) hpeers
  have hidle' : (w.run [.persist]).node.pool.queued = [] := by
    unfold Pool.queued at hidle ⊢
    rwa [← hpeers] at hidle
  have haim : aim ≤ (w.run [.persist]).node.ledger.headerHeight := by
    rcases hpersisted.aimed with haim | ⟨-, hheader⟩
    · exact haim
    · exact absurd hpersisted.header_eq_none hheader
  refine ⟨⟨?_, hserves.of_roster_eq hroster, hidle'⟩, ⟨hroster, trivial⟩, haim, hbase⟩
  constructor
  case toOnChain => exact hpersisted.toOnChain
  case header => exact hpersisted.header_eq_none
  case blocks => exact hpersisted.blocks_eq_nil
  case cache => exact hcache
  case configured => exact hconfig.trans hconfigured
  case capacity => exact hcap.trans hcapacity

include hlength hahead hcapacity hlimit

/-- An honest round stores something new, as long as there is something, and charges nobody. -/
theorem Between.round (hw : w.Between chain config N) {r : Round} (hr : r.Honest chain w) :
    (w.run (r.actions w)).Between chain config N ∧ w.Steady (r.actions w) ∧
      w.node.ledger.headerHeight ≤ (w.run (r.actions w)).node.ledger.headerHeight ∧
      w.node.ledger.blockHeight ≤ (w.run (r.actions w)).node.ledger.blockHeight ∧
      (w.node.ledger.blockHeight < N → w.node.ledger.headerHeight + w.node.ledger.blockHeight <
        (w.run (r.actions w)).node.ledger.headerHeight + (w.run (r.actions w)).node.ledger.blockHeight) := by
  obtain ⟨aim, top, hawaits, hsteady₁, hledger, haim, htop, hmore⟩ :=
    hw.awaits v hlength hahead hcapacity hlimit hr
  obtain ⟨harrived, hsteady₂, hbase⟩ := hawaits.run v
  have hroster₂ := (hsteady₂.roster_eq (List.prefix_refl _)).trans (hsteady₁.roster_eq (List.prefix_refl _))
  obtain ⟨hflushed, hsteady₃⟩ := run_flushes (w.node.pool.peers.map Peer.id)
    ((w.run [.wait r.pause, .tick]).run r.arrivals)
  have hroster₃ := (hsteady₃.roster_eq (List.prefix_refl _)).trans hroster₂
  have hidle := idle_run_flushes (Pool.ids_of_roster_eq hroster₂)
  have hconfig := w.config_run ([.wait r.pause, .tick] ++ r.arrivals ++ flushes (w.node.pool.peers.map Peer.id))
  simp only [run_append] at hconfig
  have harrived₃ := hflushed ▸ harrived.setPool _
  have hbase₃ : _ ≤ top := Nat.le_trans (Nat.le_of_eq (hbase.trans (congrArg Ledger.blockHeight hledger))) htop
  obtain ⟨hbetween, hsteady₄, haim', htop'⟩ := between_run_persist v harrived₃ (hflushed ▸ hbase₃)
    (hw.serves.of_roster_eq hroster₃) hidle (hconfig.1.trans hw.settled.configured)
    (hconfig.2.trans hw.settled.capacity)
  simp only [Round.actions, run_append, steady_append]
  refine ⟨hbetween, ⟨⟨⟨hsteady₁, hsteady₂⟩, hsteady₃⟩, hsteady₄⟩, Nat.le_trans haim haim', ?_, fun hlt => ?_⟩
  · rw [htop']
    exact htop
  · rw [htop']
    have := hmore hlt
    omega

/-- Honest rounds add up: twice the height of the chain is reached after as many of them. -/
theorem Between.script (hw : w.Between chain config N) {rounds : List Round} (hr : w.Answered chain rounds) :
    (w.run (w.script rounds)).Between chain config N ∧ w.Steady (w.script rounds) ∧
      min (2 * N) (w.node.ledger.headerHeight + w.node.ledger.blockHeight + rounds.length) ≤
        (w.run (w.script rounds)).node.ledger.headerHeight + (w.run (w.script rounds)).node.ledger.blockHeight := by
  induction rounds generalizing w with
  | nil => exact ⟨hw, trivial, Nat.min_le_right _ _⟩
  | cons r rounds ih =>
    obtain ⟨hround, hrounds⟩ := hr
    obtain ⟨hw₁, hsteady, hheaders, hblocks, hmore⟩ := hw.round v hlength hahead hcapacity hlimit hround
    obtain ⟨hw₂, hsteady', hsum⟩ := ih hw₁ hrounds
    simp only [World.script, run_append, steady_append]
    refine ⟨hw₂, ⟨hsteady, hsteady'⟩, Nat.le_trans ?_ hsum⟩
    have hle := hw.settled.follows.wellFormed.blockHeight_le
    rw [List.length_cons]
    by_cases hlt : w.node.ledger.blockHeight < N
    · have := hmore hlt
      omega
    · omega

end

/-- A fresh node whose peers serve a valid chain, and answer in any order and at any speed what it asks them,
stores a header or a block in each round until it holds the chain, after two rounds for each height at the
latest; and no peer is ever charged with an error or a timeout. -/
theorem honest_rounds_complete (v : ValidChain chain) (hlength : chain.length = N + 1) {g : Block}
    (hg : chain.head? = some g) (hw : w.IsFresh g config) (hserves : w.node.pool.Serves N)
    (hidle : w.node.pool.queued = []) (hahead : 1 ≤ config.lookAhead) (hcapacity : 1 ≤ config.cacheCapacity)
    (hlimit : 1 ≤ config.requestLimit) (rounds : List Round) (hr : w.Answered chain rounds) :
    (∀ earlier r later, rounds = earlier ++ r :: later →
      let l := (w.run (w.script earlier)).node.ledger
      let l' := (w.run (w.script (earlier ++ [r]))).node.ledger
      l.blockHeight < N → l.headerHeight + l.blockHeight < l'.headerHeight + l'.blockHeight) ∧
    (∀ actions, actions <+: w.script rounds → (w.run actions).node.pool.counters = w.node.pool.counters) ∧
    (2 * N ≤ rounds.length → (w.run (w.script rounds)).node.ledger.blocks.toList = chain) := by
  have hbetween := hw.between hg hserves hidle
  obtain ⟨hend, hsteady, hsum⟩ := hbetween.script v hlength hahead hcapacity hlimit hr
  refine ⟨?_, fun actions hpre => Pool.counters_of_roster_eq (hsteady.roster_eq hpre), fun hlong => ?_⟩
  · intro earlier r later hrounds
    rw [hrounds, answered_append] at hr
    obtain ⟨hearlier, hround, -⟩ := hr
    have hstart := (hbetween.script v hlength hahead hcapacity hlimit hearlier).1
    obtain ⟨-, -, -, -, hmore⟩ := hstart.round v hlength hahead hcapacity hlimit hround
    rw [script_append, run_append]
    simpa only [World.script, List.append_nil] using hmore
  · have hheaders := hend.settled.follows.headerHeight_lt
    have hblocks := hend.settled.follows.wellFormed.blockHeight_le
    exact hend.settled.follows.blocks_eq (by omega)

end World

end

namespace Scripted

theorem valid_firstChain : ValidChain [genesisBlock, firstBlock] := by
  have hplaces : genesisBlock.height = 0 ∧ firstBlock.height = 1 := by
    decide +kernel
  have hlinked : firstBlock.header.prevHash = genesisBlock.hash ∧
      Block.merkleRoot firstBlock.transactions = firstBlock.header.merkleRoot := by
    decide +kernel
  have hlimits : genesisBlock.WithinLimits ∧ firstBlock.WithinLimits := by
    decide +kernel
  have hhashes : [genesisBlock.hash, firstBlock.hash].Nodup ∧ genesisBlock.hash ≠ .zero ∧ firstBlock.hash ≠ .zero := by
    decide +kernel
  constructor
  case bounded => simp [maxWord]
  case index =>
    intro i b hb
    rcases i with _ | _ | i
    · exact Option.some.inj hb ▸ hplaces.1
    · exact Option.some.inj hb ▸ hplaces.2
    · cases hb
  case linked =>
    intro i a b ha hb
    rcases i with _ | i
    · exact Option.some.inj ha ▸ Option.some.inj hb ▸ hlinked.1
    · cases hb
  case merkle =>
    intro i b hb
    rcases i with _ | i
    · exact Option.some.inj hb ▸ hlinked.2
    · cases hb
  case limits => simpa using hlimits
  case distinct => exact hhashes.1
  case nonzero => simpa using hhashes.2

theorem serves_firstPeer : (smallWorld.run (firstDelivery.take 1)).node.pool.Serves 1 := by
  constructor
  case distinct => decide
  case someone => exact ⟨_, List.mem_cons_self, rfl, rfl⟩
  case active =>
    intro p hp _ _
    obtain rfl := List.mem_singleton.1 hp
    exact ⟨rfl, rfl⟩

end Scripted

/-- Behind genesis one block is missing, and a peer that holds it leads there in two rounds. -/
theorem World.honest_rounds_complete_first :
    let chain := [genesisBlock, Scripted.firstBlock]
    let w : World := Scripted.smallWorld.run (Scripted.firstDelivery.take 1)
    let rounds := World.prompts chain 2 w
    ValidChain chain ∧ w.node.pool.Serves 1 ∧ w.Answered chain rounds ∧
      (w.run (w.script rounds)).node.ledger.blocks.toList = chain := by
  intro chain w rounds
  have hanswered : w.Answered chain rounds := World.answered_prompts chain 2 w
  refine ⟨Scripted.valid_firstChain, Scripted.serves_firstPeer, hanswered, ?_⟩
  have hcomplete := World.honest_rounds_complete (w := w) (N := 1) Scripted.valid_firstChain rfl
    (g := genesisBlock) rfl ⟨rfl, rfl⟩ Scripted.serves_firstPeer rfl (by decide) (by decide) (by decide) rounds
    hanswered
  exact hcomplete.2.2 (Nat.le_of_eq (World.length_prompts chain 2 w).symm)

end ChainSync
