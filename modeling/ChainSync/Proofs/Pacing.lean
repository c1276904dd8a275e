import ChainSync.Hash.Sha256
import ChainSync.Proofs.Messages
import ChainSync.Proofs.Room

/-!
# How far headers run ahead of blocks

A request for headers goes out only while the last header is near the last
block. Headers come in as its answer only, and one answer ends it, so they
never get further ahead than one answer beyond that.
-/

namespace ChainSync

theorem Ledger.Extends.blockHeight_le {l l' : Ledger} (h : l.Extends l') : l.blockHeight ≤ l'.blockHeight := by
  have := h.blocks.length_le
  simp only [Array.length_toList] at this
  unfold blockHeight
  omega

theorem Ledger.headerHeight_addHeaders_le [Digest] : ∀ (hs : List Header) (l : Ledger),
    (l.addHeaders hs).1.headerHeight ≤ l.headerHeight + hs.length
  | [], l => Nat.le_refl _
  | h :: hs, l => by
    unfold addHeaders
    by_cases hlink : l.links h = true
    · have hpush : (l.pushHeader h).headerHeight ≤ l.headerHeight + 1 := by
        simp only [headerHeight, pushHeader, Array.size_push]
        omega
      have := headerHeight_addHeaders_le hs (l.pushHeader h)
      simp only [hlink, ite_true, List.length_cons]
      omega
    · simp [hlink]

namespace Node

structure Paced (n : Node) : Prop where
  near : n.ledger.headerHeight ≤ n.ledger.blockHeight + (n.sync.config.lookAhead - 1 + maxHeaders)
  asking : n.sync.header ≠ none → n.ledger.headerHeight ≤ n.ledger.blockHeight + (n.sync.config.lookAhead - 1)

namespace Paced

variable {n n' : Node}

theorem of_ledger_eq (hn : n.Paced) (hledger : n'.ledger = n.ledger) (hconfig : n'.sync.config = n.sync.config)
    (hheader : n'.sync.header ≠ none → n.sync.header ≠ none) : n'.Paced := by
  constructor
  · rw [hledger, hconfig]
    exact hn.near
  · intro h
    rw [hledger, hconfig]
    exact hn.asking (hheader h)

theorem checkHeaders (hn : n.Paced) (now : Instant) : (n.checkHeaders now).Paced := by
  obtain ⟨pool, header, h, hkept⟩ := checkHeaders_eq now n
  rw [h]
  refine hn.of_ledger_eq rfl rfl fun hasked => ?_
  obtain ⟨r, hr⟩ := Option.ne_none_iff_exists'.1 hasked
  obtain ⟨r', hr', -⟩ := hkept r hr
  rw [hr']
  exact Option.some_ne_none r'

theorem checkBlocks (hn : n.Paced) (now : Instant) : (n.checkBlocks now).Paced := by
  obtain ⟨pool, blocks, h, -⟩ := checkBlocks_eq now n
  rw [h]
  exact hn.of_ledger_eq rfl rfl id

/-- Only here a request comes up, and not unless the headers are near the blocks. -/
theorem syncHeaders (hn : n.Paced) (now : Instant) : (n.syncHeaders now).Paced := by
  obtain ⟨pool, h⟩ | ⟨-, hahead, p, pool, -, h⟩ := syncHeaders_cases now n
  · rw [h]
    exact hn.of_ledger_eq rfl rfl id
  · rw [h]
    refine ⟨hn.near, fun _ => ?_⟩
    show n.ledger.headerHeight ≤ n.ledger.blockHeight + (n.sync.config.lookAhead - 1)
    omega

theorem syncBlocks (hn : n.Paced) (now : Instant) : (n.syncBlocks now).Paced := by
  obtain ⟨pool, h⟩ | ⟨-, -, -, p, pool, -, h⟩ := syncBlocks_cases now n
  · rw [h]
    exact hn.of_ledger_eq rfl rfl id
  · rw [h]
    exact hn.of_ledger_eq rfl rfl id

variable [Digest]

theorem receiveHeaders (hn : n.Paced) (peer : PeerId) {hs : List Header} (hlen : hs.length ≤ maxHeaders) :
    (n.receiveHeaders peer hs).Paced := by
  obtain h | ⟨r, first, pool, hr, -, -, -, h⟩ := receiveHeaders_cases peer hs n
  · rw [h]
    exact hn
  · rw [h]
    refine ⟨?_, fun hasked => absurd rfl hasked⟩
    have hgrown := Ledger.headerHeight_addHeaders_le hs n.ledger
    have hnear := hn.asking (hr ▸ Option.some_ne_none r)
    show (n.ledger.addHeaders hs).1.headerHeight ≤ (n.ledger.addHeaders hs).1.blockHeight +
      (n.sync.config.lookAhead - 1 + maxHeaders)
    rw [Ledger.blockHeight_addHeaders]
    omega

theorem receiveBlock (hn : n.Paced) (now : Instant) (peer : PeerId) (b : Block) (raw : Bytes) :
    (n.receiveBlock now peer b raw).Paced := by
  obtain ⟨-, h⟩ | ⟨r, pool, -, ⟨-, h⟩ | ⟨-, h⟩⟩ := receiveBlock_cases now peer b raw n
  · rw [h]
    exact hn
  · rw [h]
    exact hn.of_ledger_eq rfl rfl id
  · rw [h]
    exact hn.of_ledger_eq rfl rfl id

theorem stored (hn : n.Paced) (b : Block) : (n.stored b).Paced := by
  have hgrown := (Ledger.extends_pushBlock n.ledger b).blockHeight_le
  constructor
  · exact Nat.le_trans hn.near (Nat.add_le_add_right hgrown _)
  · intro hasked
    exact Nat.le_trans (hn.asking hasked) (Nat.add_le_add_right hgrown _)

theorem persist (hn : n.Paced) : n.persist.1.Paced := by
  refine persist_preserves (P := Paced) (Q := Paced) ?_ ?_ ?_ n hn
  · intro m hm _
    exact hm.of_ledger_eq rfl rfl id
  · intro m e b hm _ _ _
    exact hm.stored b
  · intro m e err pool hm _ _
    exact hm.of_ledger_eq rfl rfl id

theorem act (hn : n.Paced) (now : Instant) {a : Action}
    (ha : ∀ peer hs, a = .headers peer hs → hs.length ≤ maxHeaders) : (a.act now n).Paced := by
  cases a with
  | checkHeaders => exact hn.checkHeaders now
  | checkBlocks => exact hn.checkBlocks now
  | syncHeaders => exact hn.syncHeaders now
  | syncBlocks => exact hn.syncBlocks now
  | tick => exact (((hn.checkHeaders now).checkBlocks now).syncHeaders now).syncBlocks now
  | headers peer hs => exact hn.receiveHeaders peer (ha peer hs rfl)
  | block peer b raw => exact hn.receiveBlock now peer b raw
  | persist => exact hn.persist
  | churn c | relay tx | event e => exact hn.of_ledger_eq rfl rfl id
  | wait d => exact hn

end Paced

end Node

/-- Headers that come as messages can carry them keep within one message of the distance at which asking for
more stops, and within that distance while more are asked for. -/
theorem World.headers_stay_near [Digest] {w : World} {g : Block} {config : SyncConfig} (hw : w.IsFresh g config)
    (actions : List Action) (hlen : ∀ peer hs, Action.headers peer hs ∈ actions → hs.length ≤ maxHeaders) :
    let n := (w.run actions).node
    n.ledger.headerHeight ≤ n.ledger.blockHeight + (config.lookAhead - 1 + maxHeaders) ∧
      (n.sync.header ≠ none → n.ledger.headerHeight ≤ n.ledger.blockHeight + (config.lookAhead - 1)) ∧
        ∀ p hs, Message.decode p = .ok (.headers hs) → hs.length ≤ maxHeaders := by
  intro n
  have hstart : w.node.Paced := by
    obtain ⟨hledger, hsync⟩ := hw
    constructor
    · rw [hledger]
      exact Nat.zero_le _
    · rw [hsync]
      exact fun hasked => absurd rfl hasked
  have hn : n.Paced := by
    refine run_preserves (P := Node.Paced) ?_ hstart
    intro a ha now m hm
    exact hm.act now fun peer hs heq => hlen peer hs (heq ▸ ha)
  have hconfig : n.sync.config = config := by
    rw [(w.config_run actions).1, hw.2]
    rfl
  refine ⟨hconfig ▸ hn.near, hconfig ▸ hn.asking, fun p hs hp => ?_⟩
  have hlimits : (Message.headers hs).WithinLimits := Message.withinLimits_of_decode hp
  exact hlimits.1

namespace Scripted

/-- A node that asks for headers only while every header has its block. -/
def nearWorld : World :=
  ⟨0, .fresh (.ofGenesis genesisBlock) .default 0 { SyncConfig.default with lookAhead := 1 }⟩

def nearRun : List Action :=
  [.churn (.arrive (address 1) false (version 1 10333 2)), .tick, .headers 1 [firstBlock.header], .tick]

theorem nearRun_waits :
    (nearWorld.run nearRun).node.ledger.headerHeight = 1 ∧ (nearWorld.run nearRun).node.sync.header = none ∧
      (nearWorld.run (nearRun.take 2)).node.sync.header ≠ none := by
  decide +kernel

end Scripted

/-- With a look-ahead of one a header is asked for, and no second one before the block of the first is here. -/
theorem World.headers_stay_near_one :
    let asked := (Scripted.nearWorld.run (Scripted.nearRun.take 2)).node
    let n := (Scripted.nearWorld.run Scripted.nearRun).node
    (∀ peer hs, Action.headers peer hs ∈ Scripted.nearRun → hs.length ≤ maxHeaders) ∧
      asked.sync.header ≠ none ∧ asked.ledger.headerHeight ≤ asked.ledger.blockHeight ∧
        n.ledger.headerHeight = 1 ∧ n.ledger.headerHeight ≤ n.ledger.blockHeight + maxHeaders := by
  have hlen : ∀ peer hs, Action.headers peer hs ∈ Scripted.nearRun → hs.length ≤ maxHeaders := by
    simp [Scripted.nearRun, maxHeaders]
  have hlen' : ∀ peer hs, Action.headers peer hs ∈ Scripted.nearRun.take 2 → hs.length ≤ maxHeaders :=
    fun peer hs h => hlen peer hs (List.mem_of_mem_take h)
  obtain ⟨hheight, -, hasked⟩ := Scripted.nearRun_waits
  have hfresh : Scripted.nearWorld.IsFresh genesisBlock { SyncConfig.default with lookAhead := 1 } := ⟨rfl, rfl⟩
  have hall := World.headers_stay_near hfresh Scripted.nearRun hlen
  have hfirst := World.headers_stay_near hfresh (Scripted.nearRun.take 2) hlen'
  refine ⟨hlen, hasked, ?_, hheight, ?_⟩
  · simpa using hfirst.2.1 hasked
  · simpa using hall.1

end ChainSync
