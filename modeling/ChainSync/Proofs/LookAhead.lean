import ChainSync.Config.Basic
import ChainSync.Proofs.Charging
import ChainSync.Proofs.Room

/-!
# Configurations that stall the headers

A node that has stored the blocks of all its headers asks for more headers as
soon as there is somebody to ask, if its configuration lets headers run ahead
of blocks at all. A look-ahead of zero is accepted too, and with it a node
never asks for its first header.
-/

namespace ChainSync

def Peer.HasRoom (p : Peer) : Prop :=
  p.outboxOpen = true ∧ p.outbox.length < outboxCapacity

theorem Peer.getHeaders_of_hasRoom {p : Peer} (hactive : p.isActive = true) (hroom : p.HasRoom) (now : Instant)
    (start : Hash) : (p.getHeaders now start).2 = .ok () := by
  have hstate : p.state = .active := by simpa [Peer.isActive] using hactive
  have hfull : ¬outboxCapacity ≤ p.outbox.length := Nat.not_le.2 hroom.2
  unfold Peer.getHeaders Peer.send
  simp [Peer.noteRequest, hstate, hroom.1, hfull]

namespace Node

variable {n : Node}

theorem exists_nextPeer? (now : Instant) {height : Nat} (h : ∃ p, n.pool.Reaches height p) :
    ∃ p, n.pool.nextPeer? now height = some p ∧ n.pool.Reaches height p := by
  obtain ⟨q, hq⟩ := h
  rw [n.pool.nextPeer?_eq]
  cases hlist : n.pool.eligible now height with
  | nil => exact absurd hq (Pool.eligible_eq_nil_iff.1 hlist q)
  | cons p rest =>
    have hmem : p ∈ n.pool.eligible now height := hlist ▸ List.mem_cons_self ..
    exact ⟨p, rfl, Pool.mem_eligible.1 hmem⟩

/-- All headers have their blocks, no more are asked for, and somebody has the next one. -/
structure CaughtUp (n : Node) : Prop where
  keyed : n.pool.Keyed
  tip : n.ledger.headerHeight = n.ledger.blockHeight
  idle : n.sync.header = none
  reach : ∃ p, n.pool.Reaches (n.ledger.headerHeight + 1) p
  room : ∀ p ∈ n.pool.pooledPeers, p.isActive = true → p.HasRoom

def AsksBehindTip (now : Instant) (n n' : Node) : Prop :=
  ∃ p, n.pool.Reaches (n.ledger.headerHeight + 1) p ∧
    n'.sync.header = some (.start now p.id (n.ledger.headerHeight + 1)) ∧
    ∀ id, n'.pool.outboxOf id = n.pool.outboxOf id ++
      (Message.getheaders (.behind (n.ledger.hashAt n.ledger.headerHeight))).onlyTo p.id id

theorem CaughtUp.asks (h : n.CaughtUp) (hahead : 0 < n.sync.config.lookAhead) (now : Instant) :
    n.AsksBehindTip now (n.syncHeaders now) := by
  let start := n.ledger.hashAt n.ledger.headerHeight
  obtain ⟨p, hp, hreaches⟩ := exists_nextPeer? now h.reach
  have hmem := hreaches.mem
  have hbehind : n.ledger.headerHeight - n.ledger.blockHeight < n.sync.config.lookAhead := by
    rw [h.tip, Nat.sub_self]
    exact hahead
  have hsent : (p.getHeaders now start).2 = .ok () :=
    p.getHeaders_of_hasRoom hreaches.2.1 (h.room p hreaches.1 hreaches.2.1) now start
  have hresult := result_withPeer h.keyed hmem (·.getHeaders now start)
  have hsends : ∀ q : Peer, q.getHeaders now start = (q.noteRequest now).send (.getheaders (.behind start)) :=
    fun _ => rfl
  obtain ⟨pool, e, hfail, -⟩ | ⟨pool, hput, hdeals⟩ := Pool.withPeer_request hsends h.keyed hmem
  · have hfailed : (n.withPeer p.id (·.getHeaders now start)).2 = .error e := congrArg Prod.snd hfail
    cases (hfailed.symm.trans hresult).trans hsent
  · rw [syncHeaders_of_sent h.idle hbehind hp hput]
    exact ⟨p, hreaches, rfl, hdeals.outbox⟩

end Node

theorem NodeConfig.lookAhead_syncConfig {c : NodeConfig} {s : SyncConfig} (h : c.syncConfig = .ok s) :
    s.lookAhead = c.sync.headerLookAhead := by
  unfold syncConfig at h
  dsimp only at h
  split at h
  · cases h
  · split at h
    · cases h
    · cases h
      rfl

/-- **When a node that has caught up asks for headers.** Under an accepted configuration, with a peer that is higher
and room in the outboxes, one peer that has the next header is asked for what is behind the last one, and the request
is on record, unless the look-ahead is zero: then nothing at all happens. -/
theorem NodeConfig.headers_asked_for {c : NodeConfig} {s : SyncConfig} (hs : c.syncConfig = .ok s) {n : Node}
    (hconfig : n.sync.config = s) (h : n.CaughtUp) (now : Instant) :
    (c.sync.headerLookAhead ≠ 0 → n.AsksBehindTip now (n.syncHeaders now)) ∧
      (c.sync.headerLookAhead = 0 → n.syncHeaders now = n) := by
  have hahead : n.sync.config.lookAhead = c.sync.headerLookAhead := by
    rw [hconfig, lookAhead_syncConfig hs]
  constructor
  · intro hpos
    exact h.asks (hahead ▸ Nat.pos_of_ne_zero hpos) now
  · intro hzero
    exact Node.syncHeaders_of_idle (.inl (by omega))

namespace Scripted

def lookingAhead (lookAhead : Nat) : NodeConfig :=
  { NodeConfig.ofChain "mainnet" with sync := { SyncSection.default with headerLookAhead := lookAhead } }

def settings (lookAhead : Nat) : SyncConfig :=
  { SyncConfig.default with lookAhead }

def oneHigher (lookAhead : Nat) : Node :=
  ((World.mk 0 (.fresh (.ofGenesis genesisBlock) .default 0 (settings lookAhead))).run
    [.churn (.arrive (address 1) false (version 1 10333 1))]).node

theorem caughtUp_oneHigher (lookAhead : Nat) : (oneHigher lookAhead).CaughtUp := by
  have hpool : (oneHigher lookAhead).pool = (oneHigher 0).pool := rfl
  constructor
  case keyed =>
    rw [hpool]
    exact ⟨by decide, by decide⟩
  case tip => rfl
  case idle => rfl
  case reach =>
    rw [hpool]
    exact ⟨_, List.mem_singleton_self _, rfl, Nat.le_refl 1⟩
  case room =>
    rw [hpool]
    intro p hp _
    obtain rfl := List.mem_singleton.1 hp
    exact ⟨rfl, by decide⟩

end Scripted

open Scripted in
theorem NodeConfig.headers_asked_for_one :
    (lookingAhead 1).syncConfig = .ok (settings 1) ∧ (oneHigher 1).sync.config = settings 1 ∧ (oneHigher 1).CaughtUp ∧
      (oneHigher 1).AsksBehindTip 0 ((oneHigher 1).syncHeaders 0) :=
  ⟨rfl, rfl, caughtUp_oneHigher 1,
    (NodeConfig.headers_asked_for (c := lookingAhead 1) rfl rfl (caughtUp_oneHigher 1) 0).1 Nat.one_ne_zero⟩

open Scripted in
/-- Without look-ahead, which is accepted, nothing is asked for and nothing is on record. -/
theorem NodeConfig.headers_not_asked_for :
    (lookingAhead 0).syncConfig = .ok (settings 0) ∧ (oneHigher 0).sync.config = settings 0 ∧ (oneHigher 0).CaughtUp ∧
      ¬(oneHigher 0).AsksBehindTip 0 ((oneHigher 0).syncHeaders 0) := by
  refine ⟨rfl, rfl, caughtUp_oneHigher 0, ?_⟩
  rintro ⟨p, -, hasked, -⟩
  have hnone : ((oneHigher 0).syncHeaders 0).sync.header = none := by
    rw [Node.syncHeaders_of_idle (.inl (Nat.zero_le _))]
    rfl
  cases hasked.symm.trans hnone

/-! ## Runs without look-ahead -/

section
variable [Digest]

theorem Node.Move.headers_eq {known : List Header} {drains : Prop} {n n' : Node} (h : Move known drains n n')
    (hzero : n.sync.config.lookAhead = 0) (hidle : n.sync.header = none) :
    n'.sync.header = none ∧ n'.ledger.headers = n.ledger.headers := by
  cases h with
  | pool | narrow | askBlocks | block | prune | store | drop => exact ⟨hidle, rfl⟩
  | header header hr =>
    refine ⟨?_, rfl⟩
    cases header with
    | none => rfl
    | some r =>
      obtain ⟨r', hr', -⟩ := hr r rfl
      cases hidle.symm.trans hr'
  | askHeaders now peer hnone hahead =>
    rw [hzero] at hahead
    exact absurd hahead (Nat.not_lt_zero _)
  | headers hs r first hknown hr => cases hidle.symm.trans hr

/-- A node that starts without look-ahead never has another header than the first, whatever peers there are and
whatever they send. -/
theorem World.stalls_without_look_ahead {w : World} {g : Block} {c : NodeConfig} {s : SyncConfig}
    (hs : c.syncConfig = .ok s) (hzero : c.sync.headerLookAhead = 0) (hw : w.IsFresh g s) (actions : List Action) :
    (w.run actions).node.sync.header = none ∧ (w.run actions).node.ledger.headers = #[g.header] := by
  obtain ⟨hledger, hsync⟩ := hw
  have hmoves : Node.Moves (deliveredHeaders actions) True w.node (w.run actions).node :=
    World.moves_run actions w (fun _ h => h) fun _ _ _ => trivial
  refine (hmoves.preserve (P := fun n => n.sync.config.lookAhead = 0 ∧ n.sync.header = none ∧
    n.ledger.headers = #[g.header]) ?_ ⟨?_, ?_, ?_⟩).2
  · intro n n' hm hn
    obtain ⟨hnone, hsame⟩ := hm.headers_eq hn.1 hn.2.1
    exact ⟨(congrArg SyncConfig.lookAhead (Node.config_move hm)).trans hn.1, hnone, hsame.trans hn.2.2⟩
  · rw [hsync]
    exact (c.lookAhead_syncConfig hs).trans hzero
  · rw [hsync]
    rfl
  · rw [hledger]
    rfl

end

end ChainSync
