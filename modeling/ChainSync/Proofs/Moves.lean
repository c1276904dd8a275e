import ChainSync.Proofs.Run
import Mathlib.Logic.Relation

/-!
# Moves of the node

Every action is a chain of moves, each of which changes the pool, a request,
the ledger or the cache in one way. An invariant of all runs is an invariant
of the moves.
-/

namespace ChainSync

variable [Digest]

namespace Node

/-- One change of a node that is handed headers of a list only, and whose cache is worked off only if `drains`. -/
inductive Move (known : List Header) (drains : Prop) : Node → Node → Prop
  | pool {n : Node} (pool : Pool) : Move known drains n (n.setPool pool)
  /-- The request for headers goes, or is sent again. -/
  | header {n : Node} (header : Option Request)
      (h : ∀ r, header = some r → ∃ r', n.sync.header = some r' ∧ r'.height = r.height) :
      Move known drains n (n.setHeader header)
  | askHeaders {n : Node} (now : Instant) (peer : PeerId) (hnone : n.sync.header = none)
      (hahead : n.ledger.headerHeight - n.ledger.blockHeight < n.sync.config.lookAhead) :
      Move known drains n (n.setHeader (some (.start now peer (n.ledger.headerHeight + 1))))
  /-- Requests for blocks go, or are sent again. -/
  | narrow {n : Node} (blocks : List (Hash × Request)) (h : Narrows n.sync.blocks blocks) :
      Move known drains n (n.setBlocks blocks)
  | askBlocks {n : Node} (now : Instant) (peer : PeerId) (top : Nat) (hnone : n.sync.blocks = [])
      (hheader : n.ledger.blockHeight < n.ledger.headerHeight) (hlimit : 0 < n.batchLimit)
      (htop : n.ledger.blockHeight + 1 ≤ top) :
      Move known drains n (n.setBlocks (issue now peer (n.missingBlocks top)))
  | headers {n : Node} (hs : List Header) (r : Request) (first : Header) (hknown : ∀ h ∈ hs, h ∈ known)
      (hr : n.sync.header = some r) (hfirst : hs.head? = some first) (hheight : first.height = r.height)
      (hnew : n.ledger.headerHeight < first.height) :
      Move known drains n ({ n with ledger := (n.ledger.addHeaders hs).1 }.setHeader none)
  | block {n : Node} (peer : PeerId) (b : Block) (raw : Bytes) (r : Request) (hknown : b.header ∈ known)
      (hr : n.blockRequest? b.hash = some r) (hheight : n.ledger.blockHeight < b.height) :
      Move known drains n
        ((n.setBlocks (Assoc.erase b.hash n.sync.blocks)).setCache (n.sync.cache.insert ⟨b, raw, peer⟩).1)
  | prune {n : Node} (hd : drains) : Move known drains n (n.setCache n.pruned)
  | store {n : Node} (e : CachedBlock) (b : Block) (he : n.ready? = some e) (hraw : Codec.ofBytes Block e.raw = .ok b)
      (hb : n.ledger.Fits b) (hd : drains) : Move known drains n (n.stored b)
  | drop {n : Node} (e : CachedBlock) (he : n.ready? = some e) (hd : drains) : Move known drains n n.unloaded

abbrev Moves (known : List Header) (drains : Prop) : Node → Node → Prop :=
  Relation.ReflTransGen (Move known drains)

variable {known : List Header} {drains : Prop} {n n' : Node}

theorem Moves.preserve {P : Node → Prop} (hmove : ∀ {n n'}, Move known drains n n' → P n → P n')
    (h : Moves known drains n n') (hn : P n) : P n' := by
  induction h with
  | refl => exact hn
  | tail _ hm ih => exact hmove hm ih

theorem moves_pool (pool : Pool) : Moves known drains n (n.setPool pool) :=
  .single (.pool pool)

theorem moves_checkHeaders (now : Instant) : Moves known drains n (n.checkHeaders now) := by
  obtain ⟨pool, header, h, hr⟩ := checkHeaders_eq now n
  rw [h]
  exact (moves_pool pool).tail (.header header hr)

theorem moves_checkBlocks (now : Instant) : Moves known drains n (n.checkBlocks now) := by
  obtain ⟨pool, blocks, h, hn⟩ := checkBlocks_eq now n
  rw [h]
  exact (moves_pool pool).tail (.narrow blocks hn)

theorem moves_syncHeaders (now : Instant) : Moves known drains n (n.syncHeaders now) := by
  obtain ⟨pool, h⟩ | ⟨hnone, hahead, p, pool, -, h⟩ := syncHeaders_cases now n
  · rw [h]
    exact moves_pool pool
  · rw [h]
    exact (moves_pool pool).tail (.askHeaders now p.id hnone hahead)

theorem moves_syncBlocks (now : Instant) : Moves known drains n (n.syncBlocks now) := by
  obtain ⟨pool, h⟩ | ⟨hnone, hheader, hlimit, p, pool, hp, h⟩ := syncBlocks_cases now n
  · rw [h]
    exact moves_pool pool
  · rw [h]
    have htop : n.ledger.blockHeight + 1 ≤ p.bestHeight := by simpa using List.find?_some hp
    exact (moves_pool pool).tail (.askBlocks now p.id p.bestHeight hnone hheader hlimit htop)

theorem moves_tick (now : Instant) : Moves known drains n (n.tick now) :=
  (((moves_checkHeaders now).trans (moves_checkBlocks now)).trans (moves_syncHeaders now)).trans
    (moves_syncBlocks now)

theorem moves_receiveHeaders (peer : PeerId) {hs : List Header} (hknown : ∀ h ∈ hs, h ∈ known) :
    Moves known drains n (n.receiveHeaders peer hs) := by
  obtain h | ⟨r, first, pool, hr, hfirst, hheight, hnew, h⟩ := receiveHeaders_cases peer hs n
  · rw [h]
  · rw [h]
    exact (moves_pool pool).tail (.headers hs r first hknown hr hfirst hheight hnew)

theorem moves_receiveBlock (now : Instant) (peer : PeerId) {b : Block} (raw : Bytes) (hknown : b.header ∈ known) :
    Moves known drains n (n.receiveBlock now peer b raw) := by
  obtain ⟨-, h⟩ | ⟨r, pool, hr, ⟨-, h⟩ | ⟨hheight, h⟩⟩ := receiveBlock_cases now peer b raw n
  · rw [h]
  · rw [h]
    exact (moves_pool pool).tail (.narrow _ (narrows_erase _ _))
  · rw [h]
    exact (moves_pool pool).tail (.block peer b raw r hknown hr hheight)

theorem moves_persist (hd : drains) : Moves known drains n n.persist.1 :=
  persist_preserves (P := Moves known drains n)
    (fun _ h _ => h.tail (.prune hd))
    (fun _ e b h he hraw hb => h.tail (.store e b he hraw hb hd))
    (fun _ e _ pool h he _ => (h.tail (.drop e he hd)).tail (.pool pool)) n .refl

end Node

/-- An action is a chain of moves, and works the cache off only if it is a pass of persisting. -/
theorem Action.moves {known : List Header} {drains : Prop} (a : Action) (now : Instant) (n : Node)
    (hknown : ∀ h ∈ a.delivered, h ∈ known) (hdrains : a = .persist → drains) :
    Node.Moves known drains n (a.act now n) := by
  cases a with
  | checkHeaders => exact Node.moves_checkHeaders now
  | checkBlocks => exact Node.moves_checkBlocks now
  | syncHeaders => exact Node.moves_syncHeaders now
  | syncBlocks => exact Node.moves_syncBlocks now
  | tick => exact Node.moves_tick now
  | headers peer hs => exact Node.moves_receiveHeaders peer hknown
  | block peer b raw => exact Node.moves_receiveBlock now peer raw (hknown _ (List.mem_singleton.2 rfl))
  | persist => exact Node.moves_persist (hdrains rfl)
  | churn c => exact Node.moves_pool _
  | relay tx => exact Node.moves_pool _
  | event e => exact Node.moves_pool _
  | wait d => exact .refl

theorem World.moves_run {known : List Header} {drains : Prop} (actions : List Action) (w : World)
    (hknown : ∀ h ∈ deliveredHeaders actions, h ∈ known) (hdrains : ∀ a ∈ actions, a = .persist → drains) :
    Node.Moves known drains w.node (w.run actions).node := by
  refine run_preserves (P := Node.Moves known drains w.node) ?_ .refl
  intro a ha now n h
  exact h.trans (a.moves now n (fun x hx => hknown x (List.mem_flatMap.2 ⟨a, ha, hx⟩)) (hdrains a ha))

end ChainSync
