import ChainSync.Proofs.Deals
import ChainSync.Proofs.Relaying

/-!
# Turns of a round

A round is made of two kinds of turns. What is overdue lapses, and each peer
in charge of any of it is charged once. Then one message asks one peer, and
what it asks for is in flight to that peer. A message that cannot be queued
leaves what lapsed.
-/

namespace ChainSync

/-! ## Flights -/

namespace Request

structure FlownTo (peer : PeerId) (start : Instant) (r : Request) : Prop where
  last : r.lastUsed = some peer
  flight : r.flight? peer = some ⟨peer, r.height, start⟩

theorem FlownTo.recent {peer : PeerId} {start : Instant} {r : Request} (h : r.FlownTo peer start) :
    r.recent? = some ⟨peer, r.height, start⟩ := by
  rw [recent?, h.last, Option.bind_some, h.flight, Option.some_or]

theorem FlownTo.unique {peer peer' : PeerId} {start start' : Instant} {r : Request} (h : r.FlownTo peer start)
    (h' : r.FlownTo peer' start') : peer = peer' ∧ start = start' := by
  obtain rfl : peer = peer' := Option.some.inj (h.last.symm.trans h'.last)
  exact ⟨rfl, congrArg Flight.start (Option.some.inj (h.flight.symm.trans h'.flight))⟩

theorem flownTo_addFlight (peer : PeerId) (start : Instant) (r : Request) :
    (r.addFlight ⟨peer, r.height, start⟩).FlownTo peer start :=
  ⟨rfl, by rw [flight?, addFlight, Assoc.get?_set, if_pos rfl]⟩

end Request

namespace Node

/-! ## What lapses -/

def pendingHeader (now : Instant) (n : Node) : Option Request :=
  n.sync.header.filter fun r => !isOverdue now n.sync.config.headerTimeout r

def pendingBlocks (now : Instant) (n : Node) : List (Hash × Request) :=
  n.sync.blocks.filter fun e => !isOverdue now n.sync.config.blockTimeout e.2

def Blames (now : Instant) (timeout : Duration) (requests : List Request) (id : PeerId) : Prop :=
  ∃ r ∈ requests, ∃ f, r.recent? = some f ∧ f.isTimedOut now timeout = true ∧ f.peer = id

/-- What lapses is not asked for any more, and who was to answer is charged. -/
inductive Lapses (now : Instant) (n : Node) : Node → Prop
  | headers (ids : List PeerId) (hd : ids.Nodup)
      (hids : ∀ id ∈ ids, Blames now n.sync.config.headerTimeout n.sync.header.toList id) :
      Lapses now n ((n.setPool (n.pool.charge ids)).setHeader (n.pendingHeader now))
  | blocks (ids : List PeerId) (hd : ids.Nodup)
      (hids : ∀ id ∈ ids, Blames now n.sync.config.blockTimeout (n.sync.blocks.map (·.2)) id) :
      Lapses now n ((n.setPool (n.pool.charge ids)).setBlocks (n.pendingBlocks now))

/-- What is asked for is in flight to the peer that is told. -/
inductive Asks [Digest] (now : Instant) (n : Node) : (PeerId → List Message) → Node → Prop
  | nothing (pool : Pool) (h : n.pool.Deals Pool.silent Pool.free pool) : Asks now n Pool.silent (n.setPool pool)
  | headers (peer : PeerId) (pool : Pool) (r : Request) (hr : r.FlownTo peer now)
      (h : n.pool.Deals (Message.onlyTo peer (.getheaders (.behind (n.ledger.hashAt (r.height - 1))))) Pool.free pool) :
      Asks now n (Message.onlyTo peer (.getheaders (.behind (n.ledger.hashAt (r.height - 1)))))
        ((n.setPool pool).setHeader (some r))
  | blocks (peer : PeerId) (pool : Pool) (hashes : List Hash) (blocks : List (Hash × Request))
      (hblocks : ∀ e ∈ blocks, e ∈ n.sync.blocks ∨ e.1 ∈ hashes ∧ e.2.FlownTo peer now)
      (h : n.pool.Deals (Message.onlyTo peer (.getdata ⟨.block, hashes⟩)) Pool.free pool) :
      Asks now n (Message.onlyTo peer (.getdata ⟨.block, hashes⟩)) ((n.setPool pool).setBlocks blocks)

theorem mem_mapRequests {hashes : List Hash} {f : Request → Request} {blocks : List (Hash × Request)}
    {e : Hash × Request} (he : e ∈ mapRequests hashes f blocks) :
    e ∈ dropRequests hashes blocks ∨ e.1 ∈ hashes ∧ ∃ r, e.2 = f r := by
  obtain ⟨e', he', rfl⟩ := List.mem_map.1 he
  by_cases hmem : e'.1 ∈ hashes
  · rw [if_pos (by simpa using hmem)]
    exact .inr ⟨hmem, e'.2, rfl⟩
  · rw [if_neg (by simpa using hmem)]
    exact .inl (List.mem_filter.2 ⟨he', by simpa using hmem⟩)

section
variable [Digest] {now : Instant} {n : Node}

theorem Asks.refl : n.Asks now Pool.silent n :=
  .nothing n.pool (.refl _)

/-! ## Headers -/

omit [Digest] in
theorem withPeer_request {f : Peer → Peer × Except NetError Unit} {m : Message} {p : Peer}
    (hf : ∀ q, f q = (q.noteRequest now).send m) (hk : n.pool.Keyed) (hp : p ∈ n.pool.peers) :
    (∃ pool e, n.withPeer p.id f = (n.setPool pool, .error e) ∧ n.pool.Deals Pool.silent Pool.free pool) ∨
      ∃ pool, n.withPeer p.id f = (n.setPool pool, .ok ()) ∧ n.pool.Deals (m.onlyTo p.id) Pool.free pool := by
  unfold withPeer
  obtain ⟨pool, e, h, hkept⟩ | ⟨pool, h, hqueued⟩ := Pool.withPeer_request hf hk hp
  · rw [h]
    exact .inl ⟨pool, e, rfl, hkept⟩
  · rw [h]
    exact .inr ⟨pool, rfl, hqueued⟩

theorem asks_syncHeaders (now : Instant) (hk : n.pool.Keyed) : ∃ told, n.Asks now told (n.syncHeaders now) := by
  unfold syncHeaders
  dsimp only
  split
  · exact ⟨_, .refl⟩
  · split
    · exact ⟨_, .refl⟩
    · split
      · exact ⟨_, .refl⟩
      · rename_i p hp
        obtain ⟨pool, e, h, hkept⟩ | ⟨pool, h, hqueued⟩ := withPeer_request
          (f := (·.getHeaders now (n.ledger.hashAt n.ledger.headerHeight))) (fun _ => rfl) hk (Pool.of_nextPeer? hp).1
        · rw [h]
          exact ⟨_, .nothing pool hkept⟩
        · rw [h]
          exact ⟨_, .headers p.id pool _ (Request.flownTo_addFlight ..) hqueued⟩

theorem asks_retryHeaders (hk : n.pool.Keyed) (r : Request) (f : Flight) :
    ∃ told, ((n.setPool (n.pool.charge [f.peer])).setHeader none).Asks now told (n.retryHeaders now r f) := by
  have hk' : (n.setPool (n.pool.penaliseTimeout f.peer).1).pool.Keyed :=
    (Pool.deals_penaliseTimeout f.peer n.pool).keyed hk
  unfold retryHeaders
  dsimp only
  split
  · exact ⟨_, .refl⟩
  · rename_i p hp
    have hflown := Request.flownTo_addFlight p.id now (r.addFailure f.peer)
    generalize (r.addFailure f.peer).addFlight _ = r' at hflown ⊢
    obtain ⟨pool, e, h, hkept⟩ | ⟨pool, h, hqueued⟩ := withPeer_request (f := (·.getHeaders now
      ((n.setPool (n.pool.penaliseTimeout f.peer).1).ledger.hashAt (r'.height - 1)))) (fun _ => rfl) hk'
      (Pool.mem_of_retryPeer? hp)
    · rw [h]
      exact ⟨_, .nothing pool hkept⟩
    · rw [h]
      exact ⟨_, .headers p.id pool r' hflown hqueued⟩

theorem checkHeaders_turns (now : Instant) (hk : n.pool.Keyed) :
    ∃ ids : List PeerId, ids.Nodup ∧ (∀ id ∈ ids, Blames now n.sync.config.headerTimeout n.sync.header.toList id) ∧
      ∃ told, ((n.setPool (n.pool.charge ids)).setHeader (n.pendingHeader now)).Asks now told (n.checkHeaders now) := by
  -- nobody is charged, and nothing is asked for
  have hidle : ∃ ids : List PeerId, ids.Nodup ∧
      (∀ id ∈ ids, Blames now n.sync.config.headerTimeout n.sync.header.toList id) ∧
      ∃ told, ((n.setPool (n.pool.charge ids)).setHeader (n.pendingHeader now)).Asks now told
        (n.setHeader (n.pendingHeader now)) :=
    ⟨[], List.nodup_nil, nofun, Pool.silent, .refl⟩
  unfold checkHeaders
  split
  · rename_i hnone
    have hpending : n.pendingHeader now = n.sync.header := by rw [pendingHeader, hnone]; rfl
    rw [hpending] at hidle ⊢
    exact hidle
  · rename_i r hr
    split
    · rename_i hrecent
      have hpending : n.pendingHeader now = none := by simp [pendingHeader, hr, isOverdue, hrecent]
      rw [hpending] at hidle ⊢
      exact hidle
    · rename_i f hf
      split
      · rename_i hearly
        have hpending : n.pendingHeader now = n.sync.header := by
          simp only [Bool.not_eq_true] at hearly
          simp [pendingHeader, hr, isOverdue, hf, hearly]
        rw [hpending] at hidle ⊢
        exact hidle
      · rename_i hlate
        have hlate : f.isTimedOut now n.sync.config.headerTimeout = true := by simpa using hlate
        have hpending : n.pendingHeader now = none := by simp [pendingHeader, hr, isOverdue, hf, hlate]
        rw [hpending] at hidle ⊢
        split
        · exact hidle
        · refine ⟨[f.peer], List.nodup_singleton _, fun id hid => ?_, asks_retryHeaders hk r f⟩
          rw [List.mem_singleton.1 hid]
          exact ⟨r, by simp [hr], f, hf, hlate, rfl⟩

/-! ## Blocks -/

theorem asks_syncBlocks (now : Instant) (hk : n.pool.Keyed) : ∃ told, n.Asks now told (n.syncBlocks now) := by
  unfold syncBlocks
  dsimp only
  split
  · exact ⟨_, .refl⟩
  · split
    · exact ⟨_, .refl⟩
    · rename_i p hp
      split
      · exact ⟨_, .refl⟩
      · rename_i hbatch
        have hne : (n.missingBlocks p.bestHeight).map (·.2) ≠ [] := by simpa using hbatch
        obtain ⟨pool, e, h, hkept⟩ | ⟨pool, h, hqueued⟩ := withPeer_request
          (f := (·.getData now .block ((n.missingBlocks p.bestHeight).map (·.2)))) (Pool.getData_block hne now) hk
          (Pool.of_nextPeer? hp).1
        · rw [h]
          exact ⟨_, .nothing pool hkept⟩
        · rw [h]
          refine ⟨_, .blocks p.id pool _ _ (fun e he => Or.inr ?_) hqueued⟩
          obtain ⟨x, hx, rfl⟩ := of_mem_issue he
          exact ⟨List.mem_map_of_mem hx, Request.flownTo_addFlight ..⟩

theorem asks_retryBlocks (hk : n.pool.Keyed) {batch : List (Hash × Request)} (hne : batch ≠ []) :
    ∃ told, (n.setBlocks (dropRequests (batch.map (·.1)) n.sync.blocks)).Asks now told (n.retryBlocks now batch) := by
  unfold retryBlocks
  dsimp only
  split
  · exact ⟨_, .refl⟩
  · rename_i p hp
    have hhashes : batch.map (·.1) ≠ [] := by simpa using hne
    obtain ⟨pool, e, h, hkept⟩ | ⟨pool, h, hqueued⟩ := withPeer_request (f := (·.getData now .block (batch.map (·.1))))
      (Pool.getData_block hhashes now) hk (Pool.mem_of_retryPeer? hp)
    · rw [h]
      exact ⟨_, .nothing pool hkept⟩
    · rw [h]
      refine ⟨_, .blocks p.id pool _ _ (fun e he => ?_) hqueued⟩
      obtain hkept | ⟨hmem, r, hr⟩ := mem_mapRequests he
      · exact .inl hkept
      · exact .inr ⟨hmem, hr ▸ Request.flownTo_addFlight p.id now r⟩

end

/-! ## Overdue blocks -/

section
variable {now : Instant} {n : Node}

theorem dropRequests_mapRequests (hashes : List Hash) (f : Request → Request) (blocks : List (Hash × Request)) :
    dropRequests hashes (mapRequests hashes f blocks) = dropRequests hashes blocks := by
  induction blocks with
  | nil => rfl
  | cons e blocks ih =>
    unfold dropRequests mapRequests at ih ⊢
    by_cases hmem : e.1 ∈ hashes
    · simpa [hmem] using ih
    · simpa [hmem] using ih

theorem dropRequests_dropRequests (hashes hashes' : List Hash) (blocks : List (Hash × Request)) :
    dropRequests hashes (dropRequests hashes' blocks) = dropRequests (hashes ++ hashes') blocks := by
  unfold dropRequests
  rw [List.filter_filter]
  refine List.filter_congr fun e _ => ?_
  simp

theorem dropRequests_congr {hashes hashes' : List Hash} (h : ∀ x, x ∈ hashes ↔ x ∈ hashes')
    (blocks : List (Hash × Request)) : dropRequests hashes blocks = dropRequests hashes' blocks := by
  unfold dropRequests
  refine List.filter_congr fun e _ => ?_
  simp [h]

theorem dropRequests_overdue (hd : (Assoc.keys n.sync.blocks).Nodup) {hashes : List Hash}
    (h : ∀ x, x ∈ hashes ↔ ∃ e ∈ n.sync.blocks, isOverdue now n.sync.config.blockTimeout e.2 = true ∧ e.1 = x) :
    dropRequests hashes n.sync.blocks = n.pendingBlocks now := by
  unfold dropRequests pendingBlocks
  refine List.filter_congr fun e he => ?_
  have hmem : e.1 ∈ hashes ↔ isOverdue now n.sync.config.blockTimeout e.2 = true := by
    rw [h]
    constructor
    · rintro ⟨e', he', hlate, heq⟩
      rwa [← List.inj_on_of_nodup_map hd he' he heq]
    · intro hlate
      exact ⟨e, he, hlate, rfl⟩
  by_cases hlate : isOverdue now n.sync.config.blockTimeout e.2 = true
  · simp [hlate, hmem.2 hlate]
  · simp [hlate, mt hmem.1 hlate]

def lateBlocks (now : Instant) (n : Node) : List (Hash × Request) :=
  (n.sync.blocks.filter fun e => isOverdue now n.sync.config.blockTimeout e.2).filter
    fun e => n.ledger.blockHeight < e.2.height

def offenders (now : Instant) (n : Node) : List PeerId :=
  ((n.lateBlocks now).filterMap fun e => e.2.recent?.map (·.peer)).eraseDups

theorem blames_offenders {id : PeerId} (h : id ∈ n.offenders now) :
    Blames now n.sync.config.blockTimeout (n.sync.blocks.map (·.2)) id := by
  rw [offenders, List.mem_eraseDups] at h
  obtain ⟨e, he, hid⟩ := List.mem_filterMap.1 h
  obtain ⟨f, hf, rfl⟩ := Option.map_eq_some_iff.1 hid
  obtain ⟨hblocks, hlate⟩ := List.mem_filter.1 (List.mem_of_mem_filter he)
  rw [isOverdue, hf, Option.all_some] at hlate
  exact ⟨e.2, List.mem_map_of_mem hblocks, f, hf, hlate, rfl⟩

theorem nodup_eraseDups {α : Type} [DecidableEq α] : ∀ l : List α, l.eraseDups.Nodup
  | [] => List.nodup_nil
  | x :: l => by
    rw [List.eraseDups_cons, List.nodup_cons]
    exact ⟨by simp, nodup_eraseDups (l.filter fun y => !y == x)⟩
termination_by l => l.length
decreasing_by exact Nat.lt_succ_of_le (List.length_filter_le ..)

theorem nodup_offenders (now : Instant) (n : Node) : (n.offenders now).Nodup :=
  nodup_eraseDups _

def staleBlocks (now : Instant) (n : Node) : List (Hash × Request) :=
  (n.sync.blocks.filter fun e => isOverdue now n.sync.config.blockTimeout e.2).filter
    fun e => e.2.height ≤ n.ledger.blockHeight

theorem mem_late_append_stale {x : Hash} : x ∈ (n.lateBlocks now).map (·.1) ++ (n.staleBlocks now).map (·.1) ↔
    ∃ e ∈ n.sync.blocks, isOverdue now n.sync.config.blockTimeout e.2 = true ∧ e.1 = x := by
  simp only [lateBlocks, staleBlocks, List.mem_append, List.mem_map, List.mem_filter, decide_eq_true_eq]
  constructor
  · rintro (⟨e, ⟨⟨he, hlate⟩, -⟩, rfl⟩ | ⟨e, ⟨⟨he, hlate⟩, -⟩, rfl⟩) <;> exact ⟨e, he, hlate, rfl⟩
  · rintro ⟨e, he, hlate, rfl⟩
    by_cases hheight : n.ledger.blockHeight < e.2.height
    · exact .inl ⟨e, ⟨⟨he, hlate⟩, hheight⟩, rfl⟩
    · exact .inr ⟨e, ⟨⟨he, hlate⟩, Nat.not_lt.1 hheight⟩, rfl⟩

theorem checkBlocks_turns [Digest] (now : Instant) (hk : n.pool.Keyed) (hd : (Assoc.keys n.sync.blocks).Nodup) :
    ∃ told, ((n.setPool (n.pool.charge (n.offenders now))).setBlocks (n.pendingBlocks now)).Asks now told
      (n.checkBlocks now) := by
  have hk' : (n.pool.charge (n.offenders now)).Keyed := (Pool.deals_charge (n.nodup_offenders now) n.pool).keyed hk
  let late := (n.lateBlocks now).map (·.1)
  let stale := (n.staleBlocks now).map (·.1)
  let batch := ((n.lateBlocks now).map fun e => (e.1, blame e.2)).mergeSort fun a b => a.2.height ≤ b.2.height
  let retry := batch.take maxInventory
  let excess := (batch.drop maxInventory).map (·.1)
  let blocks := dropRequests excess (mapRequests late blame (dropRequests stale n.sync.blocks))
  have hbatch : ∀ x, x ∈ retry.map (·.1) ++ excess ↔ x ∈ late := by
    intro x
    rw [← List.map_append, List.take_append_drop]
    simp [batch, late]
  -- whatever is overdue goes before the retry asks again for its share
  have hpending : dropRequests (retry.map (·.1)) blocks = n.pendingBlocks now := by
    rw [dropRequests_dropRequests, dropRequests_congr hbatch, dropRequests_mapRequests, dropRequests_dropRequests]
    exact dropRequests_overdue hd fun _ => mem_late_append_stale
  let m := (n.setBlocks blocks).setPool (n.pool.charge (n.offenders now))
  have hcheck : n.checkBlocks now = if retry.isEmpty then m else m.retryBlocks now retry := rfl
  rw [hcheck]
  by_cases hretry : retry = []
  · rw [hretry, List.map_nil] at hpending
    have hsame : blocks = n.pendingBlocks now := by simpa [dropRequests] using hpending
    rw [if_pos (by simp [hretry]), ← hsame]
    exact ⟨_, .refl⟩
  · rw [if_neg (by simpa using hretry), ← hpending]
    exact asks_retryBlocks (n := m) hk' hretry

end

/-! ## Rounds -/

inductive Turns [Digest] (now : Instant) (n : Node) : (PeerId → List Message) → Node → Prop
  | refl : Turns now n Pool.silent n
  | lapse {told : PeerId → List Message} {n' n'' : Node} (t : Turns now n told n') (l : n'.Lapses now n'') :
      Turns now n told n''
  | ask {told told' : PeerId → List Message} {n' n'' : Node} (t : Turns now n told n') (q : n'.Asks now told' n'') :
      Turns now n (fun id => told id ++ told' id) n''

section
variable [Digest] {now : Instant} {n n' : Node} {told : PeerId → List Message}

omit [Digest] in
theorem Lapses.pool (l : n.Lapses now n') : ∃ charged, n.pool.Deals Pool.silent charged n'.pool := by
  cases l with
  | headers ids hd hids => exact ⟨_, Pool.deals_charge hd n.pool⟩
  | blocks ids hd hids => exact ⟨_, Pool.deals_charge hd n.pool⟩

theorem Asks.pool (q : n.Asks now told n') : n.pool.Deals told Pool.free n'.pool := by
  cases q with
  | nothing pool h => exact h
  | headers peer pool r hr h => exact h
  | blocks peer pool hashes blocks hblocks h => exact h

theorem Turns.pool (t : n.Turns now told n') : ∃ charged, n.pool.Deals told charged n'.pool := by
  induction t with
  | refl => exact ⟨_, .refl _⟩
  | lapse _ l ih =>
    obtain ⟨charged, h⟩ := ih
    obtain ⟨charged', h'⟩ := l.pool
    have hboth := h.trans h'
    simp only [Pool.silent, List.append_nil] at hboth
    exact ⟨_, hboth⟩
  | ask _ q ih =>
    obtain ⟨charged, h⟩ := ih
    exact ⟨_, h.trans q.pool⟩

theorem Turns.ledger (t : n.Turns now told n') : n'.ledger = n.ledger := by
  induction t with
  | refl => rfl
  | lapse _ l ih => cases l <;> exact ih
  | ask _ q ih => cases q <;> exact ih

theorem Turns.config (t : n.Turns now told n') : n'.sync.config = n.sync.config := by
  induction t with
  | refl => rfl
  | lapse _ l ih => cases l <;> exact ih
  | ask _ q ih => cases q <;> exact ih

variable (t : n.Turns now told n') (hk : n'.pool.Keyed)
include t hk

theorem Turns.checkHeaders : ∃ told, n.Turns now told (n'.checkHeaders now) := by
  obtain ⟨ids, hd, hids, told', q⟩ := checkHeaders_turns now hk
  exact ⟨_, (t.lapse (.headers ids hd hids)).ask q⟩

theorem Turns.checkBlocks (hd : (Assoc.keys n'.sync.blocks).Nodup) : ∃ told, n.Turns now told (n'.checkBlocks now) := by
  obtain ⟨told', q⟩ := checkBlocks_turns now hk hd
  exact ⟨_, (t.lapse (.blocks _ (n'.nodup_offenders now) fun _ => blames_offenders)).ask q⟩

theorem Turns.syncHeaders : ∃ told, n.Turns now told (n'.syncHeaders now) := by
  obtain ⟨told', q⟩ := asks_syncHeaders now hk
  exact ⟨_, t.ask q⟩

theorem Turns.syncBlocks : ∃ told, n.Turns now told (n'.syncBlocks now) := by
  obtain ⟨told', q⟩ := asks_syncBlocks now hk
  exact ⟨_, t.ask q⟩

end

theorem nodup_move [Digest] {known : List Header} {drains : Prop} {n n' : Node} (h : Move known drains n n')
    (hd : (Assoc.keys n.sync.blocks).Nodup) : (Assoc.keys n'.sync.blocks).Nodup := by
  have hkeys : ∀ blocks, Assoc.keys blocks = (wanted blocks).map (·.1) := by
    intro blocks
    simp [Assoc.keys, wanted]
  cases h with
  | narrow blocks hn =>
    rw [hkeys] at hd ⊢
    exact (hn.map _).nodup hd
  | askBlocks now peer top =>
    have hfold : ∀ (batch : List (Nat × Hash)) (acc : List (Hash × Request)), (Assoc.keys acc).Nodup →
        (Assoc.keys (batch.foldl (ask now peer) acc)).Nodup := by
      intro batch
      induction batch with
      | nil => exact fun _ h => h
      | cons x batch ih => exact fun acc h => ih _ (Assoc.nodup_keys_set h)
    exact hfold _ [] List.nodup_nil
  | block peer b raw =>
    rw [hkeys] at hd ⊢
    exact ((narrows_erase b.hash n.sync.blocks).map _).nodup hd
  | _ => exact hd

structure Regular (n : Node) : Prop where
  keyed : n.pool.Keyed
  distinct : (Assoc.keys n.sync.blocks).Nodup

theorem regular_fresh (l : Ledger) (pool : PoolConfig) (nonce : UInt32) (config : SyncConfig) :
    (fresh l pool nonce config).Regular :=
  ⟨⟨List.nodup_nil, fun _ hp => absurd hp List.not_mem_nil⟩, List.nodup_nil⟩

theorem Regular.act [Digest] {n : Node} (h : n.Regular) (now : Instant) (a : Action) : (a.act now n).Regular where
  keyed := (Action.advances_act now a n).keyed h.keyed
  distinct := by
    have hmoves : Moves a.delivered True n (a.act now n) := a.moves now n (fun _ hx => hx) fun _ => trivial
    exact hmoves.preserve nodup_move h.distinct

end Node

/-! ## Actions -/

namespace Action

def isRound : Action → Bool
  | checkHeaders | checkBlocks | syncHeaders | syncBlocks | tick => true
  | _ => false

variable [Digest]

def asks (id : PeerId) (w : World) (a : Action) : List Message :=
  if a.isRound then ((a.act w.now w.node).pool.outboxOf id).drop (w.node.pool.outboxOf id).length else []

theorem turns_act {w : World} {a : Action} (ha : a.isRound = true) (h : w.node.Regular) :
    w.node.Turns w.now (a.asks · w) (a.act w.now w.node) := by
  suffices ∃ told, w.node.Turns w.now told (a.act w.now w.node) by
    obtain ⟨told, t⟩ := this
    have htold : (a.asks · w) = told := by
      funext id
      obtain ⟨charged, hpool⟩ := t.pool
      rw [asks, if_pos ha, hpool.outbox, List.drop_left]
    rwa [htold]
  cases a with
  | checkHeaders => exact Node.Turns.refl.checkHeaders h.keyed
  | checkBlocks => exact Node.Turns.refl.checkBlocks h.keyed h.distinct
  | syncHeaders => exact Node.Turns.refl.syncHeaders h.keyed
  | syncBlocks => exact Node.Turns.refl.syncBlocks h.keyed
  | tick =>
    have h₁ : Node.Regular (w.node.checkHeaders w.now) := h.act w.now .checkHeaders
    have h₂ := h₁.act w.now .checkBlocks
    have h₃ := h₂.act w.now .syncHeaders
    have t₀ : w.node.Turns w.now Pool.silent w.node := .refl
    obtain ⟨_, t₁⟩ := t₀.checkHeaders h.keyed
    obtain ⟨_, t₂⟩ := t₁.checkBlocks h₁.keyed h₁.distinct
    obtain ⟨_, t₃⟩ := t₂.syncHeaders h₂.keyed
    exact t₃.syncBlocks h₃.keyed
  | _ => cases ha

end Action

end ChainSync
