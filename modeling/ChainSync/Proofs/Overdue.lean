import ChainSync.Proofs.LateHeaders
import ChainSync.Proofs.Uncharged

/-!
# Overdue requests for blocks

When a round looks after the requests for blocks, those that are overdue at
stored heights go. The others count against the peers in charge, each of
which takes one timeout for all of its own. Then the lowest of them, up to a
message's worth, go to one peer in one message, or all are given up. Whatever
happened to the node so far, and to its ledger, the requests stand for
different heights and everybody who can be charged has room for one more
timeout.
-/

namespace ChainSync

/-! ## What a node can come to -/

section
variable [Digest]

/-- What can come next when others write to the ledger too: an action at any time, a round of a pass, or a write. -/
inductive Node.Goes : Node → Node → Prop
  | act {n : Node} (a : Action) (now : Instant) : Goes n (a.act now n)
  | round {n : Node} (e : CachedBlock) (b : Block) (he : n.ready? = some e)
      (hraw : Codec.ofBytes Block e.raw = .ok b) (hb : n.ledger.Fits b) : Goes n (n.stored b)
  | write {n : Node} (op : Ledger.Op) : Goes n { n with ledger := op.run n.ledger }

def Node.Arises (n : Node) : Prop :=
  ∃ g pool nonce config, Relation.ReflTransGen Goes (.fresh (.ofGenesis g) pool nonce config) n

theorem World.arises_run {w : World} (h : w.node.Arises) (actions : List Action) : (w.run actions).node.Arises := by
  refine run_preserves (P := Node.Arises) (fun a _ now n hn => ?_) h
  obtain ⟨g, pool, nonce, config, hgoes⟩ := hn
  exact ⟨g, pool, nonce, config, hgoes.tail (.act a now)⟩

end

namespace Pool

def Patient (pool : Pool) : Prop :=
  ∀ p ∈ pool.peers, p.pooled = true → p.weight.timeouts ≤ maxTimeouts

variable {pool pool' : Pool}

theorem Patient.inherits (h : pool.Patient) (hi : pool.Inherits pool') : pool'.Patient := by
  intro q hq hpooled
  obtain hnone | ⟨p, hp, -, htimeouts, hp'⟩ := hi q hq
  · rw [hnone]
    exact Nat.zero_le _
  · exact htimeouts.trans (h p hp (hp' hpooled))

theorem Patient.dwindles (h : pool.Patient) (hd : pool.Dwindles pool') : pool'.Patient := by
  intro q hq hpooled
  obtain ⟨p, hp, -, -, -, hstays⟩ := hd q hq
  obtain ⟨hp', htimeouts⟩ := hstays hpooled
  exact htimeouts.trans (Nat.max_le.2 ⟨h p hp hp', Nat.le_refl _⟩)

end Pool

namespace Node

variable [Digest]

def AsksByHash (n : Node) : Prop :=
  ∀ e ∈ n.sync.blocks, e.2.height ≤ n.ledger.headerHeight ∧ n.ledger.hashAt e.2.height = e.1

omit [Digest] in
theorem AsksByHash.narrow {n n' : Node} (h : n.AsksByHash) (hn : Narrows n.sync.blocks n'.sync.blocks)
    (hledger : n'.ledger = n.ledger) : n'.AsksByHash := by
  intro e he
  obtain ⟨e', he', hkey, hheight⟩ := hn.mem he
  rw [hledger, ← hkey, ← hheight]
  exact h e' he'

theorem AsksByHash.extend {n n' : Node} (h : n.AsksByHash) (hblocks : n'.sync.blocks = n.sync.blocks)
    (w : n.ledger.WellFormed) (hext : n.ledger.Extends n'.ledger) : n'.AsksByHash := by
  intro e he
  obtain ⟨hle, hhash⟩ := h e (hblocks ▸ he)
  exact ⟨hle.trans hext.headerHeight_le, (w.hashAt_of_extends hext hle).trans hhash⟩

theorem asksByHash_move {known : List Header} {drains : Prop} {n n' : Node} (hm : Move known drains n n')
    (w : n.ledger.WellFormed) (h : n.AsksByHash) : n'.AsksByHash := by
  cases hm with
  | narrow blocks hn => exact h.narrow hn rfl
  | askBlocks now peer top =>
    intro e he
    obtain ⟨x, hx, rfl⟩ := of_mem_issue he
    obtain ⟨-, hle, -, -, hhash⟩ := of_mem_missingBlocks hx
    exact ⟨hle, hhash.symm⟩
  | headers hs => exact h.extend rfl w (Ledger.extends_addHeaders hs n.ledger)
  | block peer b raw => exact h.narrow (narrows_erase b.hash n.sync.blocks) rfl
  | store e b => exact h.extend rfl w (Ledger.extends_pushBlock n.ledger b)
  | _ => exact h

structure Orderly (n : Node) : Prop where
  regular : n.Regular
  ledger : n.ledger.WellFormed
  airborne : n.Airborne
  patient : n.pool.Patient
  asked : n.AsksByHash

theorem Orderly.goes {n n' : Node} (hn : n.Orderly) (h : n.Goes n') : n'.Orderly := by
  cases h with
  | act a now =>
    have hmoves : Moves a.delivered True n (a.act now n) := a.moves now n (fun _ hx => hx) fun _ => trivial
    obtain ⟨hledger, hasked⟩ := hmoves.preserve (P := fun n => n.ledger.WellFormed ∧ n.AsksByHash)
      (fun hm hP => ⟨(ledger_move hm hP.1).2, asksByHash_move hm hP.1 hP.2⟩) ⟨hn.ledger, hn.asked⟩
    refine ⟨hn.regular.act now a, hledger, hn.airborne.act (w := ⟨now, n⟩) hn.regular a, ?_, hasked⟩
    cases ha : a.isRound with
    | true => exact hn.patient.dwindles (Action.dwindles_act ha now hn.regular)
    | false => exact hn.patient.inherits (Action.inherits_act ha now hn.regular.keyed)
  | round e b he hraw hb =>
    have hasked : (n.stored b).AsksByHash := hn.asked.extend rfl hn.ledger (Ledger.extends_pushBlock n.ledger b)
    exact ⟨⟨⟨hn.regular.keyed.distinct, hn.regular.keyed.used⟩, hn.regular.distinct⟩, hn.ledger.pushBlock hb,
      ⟨hn.airborne.header, hn.airborne.blocks⟩, hn.patient, hasked⟩
  | write op =>
    have hasked : AsksByHash { n with ledger := op.run n.ledger } :=
      hn.asked.extend rfl hn.ledger (Ledger.extends_run n.ledger op)
    exact ⟨⟨hn.regular.keyed, hn.regular.distinct⟩, hn.ledger.run op, ⟨hn.airborne.header, hn.airborne.blocks⟩, hn.patient, hasked⟩

theorem Arises.orderly {n : Node} (h : n.Arises) : n.Orderly := by
  obtain ⟨g, pool, nonce, config, hgoes⟩ := h
  induction hgoes with
  | refl =>
    have hpatient : (Pool.fresh pool nonce).Patient := fun _ hp => absurd hp List.not_mem_nil
    exact ⟨regular_fresh .., Ledger.wellFormed_ofGenesis g, ⟨nofun, nofun⟩, hpatient, nofun⟩
  | tail _ hnext ih => exact ih.goes hnext

end Node

/-! ## Overdue requests in order -/

namespace Node

theorem get?_dropRequests {h : Hash} {hashes : List Hash} : ∀ {blocks : List (Hash × Request)},
    Assoc.get? h (dropRequests hashes blocks) = if h ∈ hashes then none else Assoc.get? h blocks
  | [] => by simp [dropRequests, Assoc.get?]
  | (x, r) :: blocks => by
    have ih : Assoc.get? h (dropRequests hashes blocks) = if h ∈ hashes then none else Assoc.get? h blocks :=
      get?_dropRequests
    unfold dropRequests at ih ⊢
    by_cases hx : x ∈ hashes
    · rw [List.filter_cons_of_neg (by simpa using hx), ih]
      by_cases hxh : x = h
      · rw [if_pos (hxh ▸ hx), if_pos (hxh ▸ hx)]
      · rw [Assoc.get?, if_neg hxh]
    · rw [List.filter_cons_of_pos (by simpa using hx), Assoc.get?, Assoc.get?, ih]
      by_cases hxh : x = h
      · rw [if_pos hxh, if_pos hxh, if_neg (hxh ▸ hx)]
      · rw [if_neg hxh, if_neg hxh]

theorem get?_mapRequests {h : Hash} {hashes : List Hash} {f : Request → Request} :
    ∀ {blocks : List (Hash × Request)}, Assoc.get? h (mapRequests hashes f blocks) =
      if h ∈ hashes then (Assoc.get? h blocks).map f else Assoc.get? h blocks
  | [] => by simp [mapRequests, Assoc.get?]
  | (x, r) :: blocks => by
    have hkey : ∀ e : Hash × Request, (if hashes.contains e.1 then (e.1, f e.2) else e) =
        (e.1, if e.1 ∈ hashes then f e.2 else e.2) := by
      intro e
      by_cases he : e.1 ∈ hashes <;> simp [he]
    rw [mapRequests, List.map_cons, hkey, Assoc.get?, Assoc.get?]
    by_cases hxh : x = h
    · rw [if_pos hxh, if_pos hxh, hxh]
      split <;> rfl
    · rw [if_neg hxh, if_neg hxh]
      exact get?_mapRequests

variable {now : Instant} {n : Node} {h : Hash} {r : Request}

theorem blockRequest?_dropRequests {pool : Pool} {hashes : List Hash} :
    ((n.setPool pool).setBlocks (dropRequests hashes n.sync.blocks)).blockRequest? h =
      if h ∈ hashes then none else n.blockRequest? h :=
  get?_dropRequests

theorem blockRequest?_mapRequests {pool : Pool} {hashes : List Hash} {f : Request → Request} :
    ((n.setPool pool).setBlocks (mapRequests hashes f n.sync.blocks)).blockRequest? h =
      if h ∈ hashes then (n.blockRequest? h).map f else n.blockRequest? h :=
  get?_mapRequests

def lateInOrder (now : Instant) (n : Node) : List (Hash × Request) :=
  (n.lateBlocks now).mergeSort fun e e' => e.2.height ≤ e'.2.height

/-- Those that one message can ask for again, with what their latest flights count for. -/
def retryBatch (now : Instant) (n : Node) : List (Hash × Request) :=
  ((n.lateInOrder now).take maxInventory).map fun e => (e.1, blame e.2)

/-- What is known once all that is overdue is noted, and dropped if it is not to be retried. -/
def noted (now : Instant) (n : Node) : Node :=
  (n.setBlocks (dropRequests (((n.lateInOrder now).drop maxInventory).map (·.1))
    (mapRequests ((n.lateBlocks now).map (·.1)) blame
      (dropRequests ((n.staleBlocks now).map (·.1)) n.sync.blocks)))).setPool (n.pool.charge (n.offenders now))

theorem checkBlocks_eq_noted (now : Instant) (n : Node) : n.checkBlocks now =
    if (n.retryBatch now).isEmpty then n.noted now else (n.noted now).retryBlocks now (n.retryBatch now) := by
  have hsorted : (((n.lateBlocks now).map fun e => (e.1, blame e.2)).mergeSort fun a b => a.2.height ≤ b.2.height) =
      (n.lateInOrder now).map fun e => (e.1, blame e.2) := by
    refine (List.map_mergeSort fun a _ b _ => ?_).symm
    rw [height_blame, height_blame]
  have hretry : (((n.lateBlocks now).map fun e => (e.1, blame e.2)).mergeSort
      fun a b => a.2.height ≤ b.2.height).take maxInventory = n.retryBatch now := by
    rw [hsorted, ← List.map_take, retryBatch]
  have hexcess : ((((n.lateBlocks now).map fun e => (e.1, blame e.2)).mergeSort
      fun a b => a.2.height ≤ b.2.height).drop maxInventory).map (·.1) =
      ((n.lateInOrder now).drop maxInventory).map (·.1) := by
    rw [hsorted, ← List.map_drop, List.map_map]
    rfl
  rw [← hretry, noted, ← hexcess]
  rfl

theorem mem_lateInOrder {e : Hash × Request} : e ∈ n.lateInOrder now ↔
    e ∈ n.sync.blocks ∧ isOverdue now n.sync.config.blockTimeout e.2 = true ∧ n.ledger.blockHeight < e.2.height := by
  rw [lateInOrder, List.mem_mergeSort, lateBlocks, List.mem_filter, List.mem_filter, decide_eq_true_eq, and_assoc]

section
variable (hd : (Assoc.keys n.sync.blocks).Nodup)
include hd

theorem mem_keys_iff (hr : n.blockRequest? h = some r) {requests : List (Hash × Request)}
    (hsub : ∀ e ∈ requests, e ∈ n.sync.blocks) : h ∈ requests.map (·.1) ↔ (h, r) ∈ requests := by
  refine ⟨fun hh => ?_, List.mem_map_of_mem⟩
  obtain ⟨e, he, rfl⟩ := List.mem_map.1 hh
  have hsame : e = (e.1, r) := List.inj_on_of_nodup_map hd (hsub e he) (Assoc.mem_of_get? hr) rfl
  exact hsame ▸ he

theorem nodup_lateInOrder (now : Instant) : ((n.lateInOrder now).map (·.1)).Nodup := by
  have hperm : (n.lateInOrder now).Perm (n.lateBlocks now) := List.mergeSort_perm ..
  have hsub : (n.lateBlocks now).Sublist n.sync.blocks := List.filter_sublist.trans List.filter_sublist
  exact (hperm.map _).nodup_iff.2 ((hsub.map _).nodup hd)

/-- No two requests stand for the same height, as no two are for the same hash. -/
theorem pairwise_lateInOrder [Digest] (hasked : n.AsksByHash) (now : Instant) :
    (n.lateInOrder now).Pairwise fun e e' => e.2.height < e'.2.height := by
  have hsorted : (n.lateInOrder now).Pairwise fun e e' => decide (e.2.height ≤ e'.2.height) := by
    refine List.pairwise_mergeSort ?_ ?_ _
    · intro a b c hab hbc
      simp only [decide_eq_true_eq] at hab hbc ⊢
      exact hab.trans hbc
    · intro a b
      simp only [Bool.or_eq_true, decide_eq_true_eq]
      exact Nat.le_total _ _
  have hdistinct : (n.lateInOrder now).Pairwise fun e e' => e.1 ≠ e'.1 :=
    List.pairwise_map.1 (nodup_lateInOrder hd now)
  refine (hsorted.and hdistinct).imp_of_mem fun {e e'} he he' hboth => ?_
  have hle : e.2.height ≤ e'.2.height := of_decide_eq_true hboth.1
  refine Nat.lt_of_le_of_ne hle fun heq => hboth.2 ?_
  rw [← (hasked e (mem_lateInOrder.1 he).1).2, ← (hasked e' (mem_lateInOrder.1 he').1).2, heq]

end

theorem nodup_of_ascending {requests : List (Hash × Request)}
    (h : requests.Pairwise fun e e' => e.2.height < e'.2.height) : requests.Nodup := by
  refine List.Pairwise.imp ?_ h
  rintro e _ hlt rfl
  exact Nat.lt_irrefl _ hlt

/-- Which requests there are settles the list of them in order. -/
theorem eq_of_ascending {requests requests' : List (Hash × Request)}
    (h : requests.Pairwise fun e e' => e.2.height < e'.2.height)
    (h' : requests'.Pairwise fun e e' => e.2.height < e'.2.height)
    (hmem : ∀ e, e ∈ requests ↔ e ∈ requests') : requests = requests' := by
  have hperm : requests.Perm requests' :=
    (List.perm_ext_iff_of_nodup (nodup_of_ascending h) (nodup_of_ascending h')).2 hmem
  exact hperm.eq_of_pairwise (fun _ _ _ _ hlt hlt' => absurd hlt' (Nat.lt_asymm hlt)) h h'

theorem disjoint_take_drop (hd : (Assoc.keys n.sync.blocks).Nodup) {e : Hash × Request}
    (htake : e ∈ (n.lateInOrder now).take maxInventory) : e ∉ (n.lateInOrder now).drop maxInventory := by
  intro hdrop
  have hnodup := (nodup_lateInOrder hd now).of_map
  rw [← List.take_append_drop maxInventory (n.lateInOrder now)] at hnodup
  exact (List.nodup_append.1 hnodup).2.2 e htake e hdrop rfl

/-! ## What is noted of a request -/

theorem keys_retryBatch : (n.retryBatch now).map (·.1) = ((n.lateInOrder now).take maxInventory).map (·.1) := by
  rw [retryBatch, List.map_map]
  rfl

theorem blockRequest?_of_late (hd : (Assoc.keys n.sync.blocks).Nodup) {e : Hash × Request}
    (he : e ∈ n.lateInOrder now) : n.blockRequest? e.1 = some e.2 :=
  (Assoc.get?_eq_some_iff hd).2 (mem_lateInOrder.1 he).1

theorem blockRequest?_noted : (n.noted now).blockRequest? h =
    if h ∈ ((n.lateInOrder now).drop maxInventory).map (·.1) then none
    else if h ∈ (n.lateBlocks now).map (·.1) then
      (if h ∈ (n.staleBlocks now).map (·.1) then none else n.blockRequest? h).map blame
    else if h ∈ (n.staleBlocks now).map (·.1) then none else n.blockRequest? h := by
  show Assoc.get? h (dropRequests _ _) = _
  rw [get?_dropRequests, get?_mapRequests, get?_dropRequests]
  rfl

theorem noted_of_none (hr : n.blockRequest? h = none) : (n.noted now).blockRequest? h = none := by
  rw [blockRequest?_noted, hr]
  simp

section
variable (hd : (Assoc.keys n.sync.blocks).Nodup) (hr : n.blockRequest? h = some r)
include hd hr

theorem mem_keys_late : h ∈ (n.lateBlocks now).map (·.1) ↔ (h, r) ∈ n.lateInOrder now := by
  rw [lateInOrder, List.mem_mergeSort]
  exact mem_keys_iff hd hr fun e he => List.mem_of_mem_filter (List.mem_of_mem_filter he)

theorem mem_keys_stale : h ∈ (n.staleBlocks now).map (·.1) ↔
    isOverdue now n.sync.config.blockTimeout r = true ∧ r.height ≤ n.ledger.blockHeight := by
  unfold staleBlocks
  rw [mem_keys_iff hd hr fun e he => List.mem_of_mem_filter (List.mem_of_mem_filter he),
    List.mem_filter, List.mem_filter, decide_eq_true_eq, and_assoc]
  exact and_iff_right (Assoc.mem_of_get? hr)

theorem mem_keys_take : h ∈ (n.retryBatch now).map (·.1) ↔ (h, r) ∈ (n.lateInOrder now).take maxInventory := by
  rw [keys_retryBatch]
  exact mem_keys_iff hd hr fun e he => (mem_lateInOrder.1 (List.mem_of_mem_take he)).1

theorem mem_keys_drop : h ∈ ((n.lateInOrder now).drop maxInventory).map (·.1) ↔
    (h, r) ∈ (n.lateInOrder now).drop maxInventory :=
  mem_keys_iff hd hr fun _ he => (mem_lateInOrder.1 (List.mem_of_mem_drop he)).1

/-- A request that is not to be retried is left as it is, or gone if it was overdue. -/
theorem noted_of_kept (hkept : (h, r) ∉ n.lateInOrder now) : (n.noted now).blockRequest? h =
    if isOverdue now n.sync.config.blockTimeout r = true then none else some r := by
  have hexcess : (h, r) ∉ (n.lateInOrder now).drop maxInventory := fun hmem => hkept (List.mem_of_mem_drop hmem)
  rw [blockRequest?_noted, if_neg (mt (mem_keys_drop hd hr).1 hexcess), if_neg (mt (mem_keys_late hd hr).1 hkept), hr]
  by_cases hlate : isOverdue now n.sync.config.blockTimeout r = true
  · have hstored : r.height ≤ n.ledger.blockHeight := by
      refine Nat.not_lt.1 fun hheight => hkept (mem_lateInOrder.2 ⟨Assoc.mem_of_get? hr, hlate, hheight⟩)
    rw [if_pos ((mem_keys_stale hd hr).2 ⟨hlate, hstored⟩), if_pos hlate]
  · rw [if_neg fun hstale => hlate ((mem_keys_stale hd hr).1 hstale).1, if_neg hlate]

theorem noted_of_late (hlate : (h, r) ∈ n.lateInOrder now) : (n.noted now).blockRequest? h =
    if (h, r) ∈ (n.lateInOrder now).drop maxInventory then none else some (blame r) := by
  have hheight := (mem_lateInOrder.1 hlate).2.2
  have hstale : h ∉ (n.staleBlocks now).map (·.1) := fun hstale =>
    Nat.not_le.2 hheight ((mem_keys_stale hd hr).1 hstale).2
  rw [blockRequest?_noted, if_pos ((mem_keys_late hd hr).2 hlate), if_neg hstale, hr]
  simp only [mem_keys_drop hd hr, Option.map_some]

end

/-! ## The retry -/

section
variable (hk : n.pool.Keyed)
include hk

/-- A batch goes to the chosen peer, or is given up. -/
theorem retryBlocks_cases (now : Instant) {batch : List (Hash × Request)} {top : Hash × Request}
    (htop : batch.getLast? = some top) :
    (∃ p pool, n.pool.retryPeer? now (totalFailures batch) top.2.height = some p ∧
        (p.getData now .block (batch.map (·.1))).2 = .ok () ∧
        n.pool.Deals ((Message.getdata ⟨.block, batch.map (·.1)⟩).onlyTo p.id) Pool.free pool ∧
        pool.roster = n.pool.roster ∧
        n.retryBlocks now batch = (n.setPool pool).setBlocks
          (mapRequests (batch.map (·.1)) (fun r => r.addFlight ⟨p.id, r.height, now⟩) n.sync.blocks)) ∨
      ∃ pool, (n.pool.retryPeer? now (totalFailures batch) top.2.height = none ∨
          ∃ p e, n.pool.retryPeer? now (totalFailures batch) top.2.height = some p ∧
            (p.getData now .block (batch.map (·.1))).2 = .error e) ∧
        n.pool.Deals Pool.silent Pool.free pool ∧ pool.roster = n.pool.roster ∧
        n.retryBlocks now batch = (n.setPool pool).setBlocks (dropRequests (batch.map (·.1)) n.sync.blocks) := by
  have hne : batch.map (·.1) ≠ [] := by
    rintro hnil
    rw [List.map_eq_nil_iff.1 hnil] at htop
    cases htop
  unfold retryBlocks
  rw [htop]
  dsimp only [Option.map_some, Option.getD_some]
  cases hp : n.pool.retryPeer? now (totalFailures batch) top.2.height with
  | none => exact .inr ⟨n.pool, .inl rfl, .refl _, rfl, rfl⟩
  | some p =>
    have hmem := Pool.mem_of_retryPeer? hp
    have hresult := result_withPeer hk hmem (·.getData now .block (batch.map (·.1)))
    have hroster : (n.withPeer p.id (·.getData now .block (batch.map (·.1)))).1.pool.roster = n.pool.roster :=
      Pool.roster_withPeer (Pool.profile_getData now .block _) hk.distinct p.id
    dsimp only
    obtain ⟨pool, e, h, hkept⟩ | ⟨pool, h, hqueued⟩ := withPeer_request (f := (·.getData now .block (batch.map (·.1))))
      (Pool.getData_block hne now) hk hmem
    · rw [h] at hresult hroster ⊢
      exact .inr ⟨pool, .inr ⟨p, e, rfl, hresult.symm⟩, hkept, hroster, rfl⟩
    · rw [h] at hresult hroster ⊢
      exact .inl ⟨p, pool, rfl, hresult.symm, hqueued, hroster, rfl⟩

/-- What is noted is all there is to it, or a batch is retried or given up besides. -/
theorem checkBlocks_cases (now : Instant) :
    n.lateInOrder now = [] ∧ n.checkBlocks now = n.noted now ∨
      ∃ top, ((n.lateInOrder now).take maxInventory).getLast? = some top ∧
        ((∃ p pool, (n.pool.charge (n.offenders now)).retryPeer? now (totalFailures (n.retryBatch now)) top.2.height =
              some p ∧
            (p.getData now .block ((n.retryBatch now).map (·.1))).2 = .ok () ∧
            (n.pool.charge (n.offenders now)).Deals
              ((Message.getdata ⟨.block, (n.retryBatch now).map (·.1)⟩).onlyTo p.id) Pool.free pool ∧
            pool.roster = (n.pool.charge (n.offenders now)).roster ∧
            n.checkBlocks now = ((n.noted now).setPool pool).setBlocks (mapRequests ((n.retryBatch now).map (·.1))
              (fun r => r.addFlight ⟨p.id, r.height, now⟩) (n.noted now).sync.blocks)) ∨
          ∃ pool, ((n.pool.charge (n.offenders now)).retryPeer? now (totalFailures (n.retryBatch now)) top.2.height =
                none ∨
              ∃ p e, (n.pool.charge (n.offenders now)).retryPeer? now (totalFailures (n.retryBatch now)) top.2.height =
                  some p ∧
                (p.getData now .block ((n.retryBatch now).map (·.1))).2 = .error e) ∧
            (n.pool.charge (n.offenders now)).Deals Pool.silent Pool.free pool ∧
            pool.roster = (n.pool.charge (n.offenders now)).roster ∧
            n.checkBlocks now = ((n.noted now).setPool pool).setBlocks
              (dropRequests ((n.retryBatch now).map (·.1)) (n.noted now).sync.blocks)) := by
  have hk' : (n.noted now).pool.Keyed := (Pool.deals_charge (n.nodup_offenders now) n.pool).keyed hk
  rw [checkBlocks_eq_noted]
  cases htop : ((n.lateInOrder now).take maxInventory).getLast? with
  | none =>
    have hnone : n.lateInOrder now = [] := by
      rcases List.take_eq_nil_iff.1 (List.getLast?_eq_none_iff.1 htop) with h | h
      · cases h
      · exact h
    refine .inl ⟨hnone, if_pos ?_⟩
    rw [retryBatch, hnone]
    rfl
  | some top =>
    have hbatch : (n.retryBatch now).getLast? = some (top.1, blame top.2) := by
      rw [retryBatch, List.getLast?_map, htop]
      rfl
    have hne : (n.retryBatch now).isEmpty = false := by
      rw [List.isEmpty_eq_false_iff]
      rintro hnil
      rw [hnil] at hbatch
      cases hbatch
    rw [if_neg (by simp [hne])]
    have hcases := retryBlocks_cases hk' now hbatch
    rw [height_blame] at hcases
    exact .inr ⟨top, rfl, hcases⟩

end

section
variable (hk : n.pool.Keyed)
include hk

theorem blockRequest?_checkBlocks (hkept : h ∉ (n.retryBatch now).map (·.1)) :
    (n.checkBlocks now).blockRequest? h = (n.noted now).blockRequest? h := by
  obtain ⟨-, heq⟩ | ⟨top, -, ⟨p, pool, -, -, -, -, heq⟩ | ⟨pool, -, -, -, heq⟩⟩ := checkBlocks_cases hk now
  · rw [heq]
  · rw [heq, blockRequest?_mapRequests, if_neg hkept]
  · rw [heq, blockRequest?_dropRequests, if_neg hkept]

theorem checkBlocks_of_kept (hd : (Assoc.keys n.sync.blocks).Nodup) (hr : n.blockRequest? h = some r)
    (hkept : (h, r) ∉ n.lateInOrder now) : (n.checkBlocks now).blockRequest? h =
      if isOverdue now n.sync.config.blockTimeout r = true then none else some r := by
  have hbatch : h ∉ (n.retryBatch now).map (·.1) := fun hmem =>
    hkept (List.mem_of_mem_take ((mem_keys_take hd hr).1 hmem))
  rw [blockRequest?_checkBlocks hk hbatch, noted_of_kept hd hr hkept]

theorem checkBlocks_of_young (hd : (Assoc.keys n.sync.blocks).Nodup) (hr : n.blockRequest? h = some r)
    (hyoung : isOverdue now n.sync.config.blockTimeout r = false) : (n.checkBlocks now).blockRequest? h = some r := by
  have hkept : (h, r) ∉ n.lateInOrder now := by
    intro hmem
    have hlate := (mem_lateInOrder.1 hmem).2.1
    rw [hyoung] at hlate
    cases hlate
  rw [checkBlocks_of_kept hk hd hr hkept, hyoung]
  rfl

theorem checkBlocks_of_stored (hd : (Assoc.keys n.sync.blocks).Nodup) (hr : n.blockRequest? h = some r)
    (hold : isOverdue now n.sync.config.blockTimeout r = true) (hheight : r.height ≤ n.ledger.blockHeight) :
    (n.checkBlocks now).blockRequest? h = none := by
  have hkept : (h, r) ∉ n.lateInOrder now := fun hmem => Nat.not_le.2 (mem_lateInOrder.1 hmem).2.2 hheight
  rw [checkBlocks_of_kept hk hd hr hkept, if_pos hold]

theorem checkBlocks_of_excess (hd : (Assoc.keys n.sync.blocks).Nodup) {e : Hash × Request}
    (he : e ∈ (n.lateInOrder now).drop maxInventory) : (n.checkBlocks now).blockRequest? e.1 = none := by
  have hlate := List.mem_of_mem_drop he
  have hr := blockRequest?_of_late hd hlate
  rw [blockRequest?_checkBlocks hk fun hmem => disjoint_take_drop hd ((mem_keys_take hd hr).1 hmem) he,
    noted_of_late hd hr hlate, if_pos he]

theorem checkBlocks_of_none (hd : (Assoc.keys n.sync.blocks).Nodup) (hnone : n.blockRequest? h = none) :
    (n.checkBlocks now).blockRequest? h = none := by
  have hbatch : h ∉ (n.retryBatch now).map (·.1) := by
    intro hmem
    rw [keys_retryBatch] at hmem
    obtain ⟨e, he, rfl⟩ := List.mem_map.1 hmem
    rw [blockRequest?_of_late hd (List.mem_of_mem_take he)] at hnone
    cases hnone
  rw [blockRequest?_checkBlocks hk hbatch, noted_of_none hnone]

omit hk in
/-- Each request of a batch counts one failure and flies to the chosen peer. -/
theorem retried_of_mem (hd : (Assoc.keys n.sync.blocks).Nodup) {e : Hash × Request} {f : Flight}
    (he : e ∈ (n.lateInOrder now).take maxInventory) (hf : e.2.recent? = some f) {id : PeerId} {pool : Pool}
    (heq : n.checkBlocks now = ((n.noted now).setPool pool).setBlocks (mapRequests ((n.retryBatch now).map (·.1))
      (fun r => r.addFlight ⟨id, r.height, now⟩) (n.noted now).sync.blocks)) :
    (n.checkBlocks now).blockRequest? e.1 = some ((e.2.addFailure f.peer).addFlight ⟨id, e.2.height, now⟩) := by
  have hmem := List.mem_of_mem_take he
  have hkey : e.1 ∈ (n.retryBatch now).map (·.1) := keys_retryBatch ▸ List.mem_map_of_mem he
  rw [heq, blockRequest?_mapRequests, if_pos hkey, noted_of_late hd (blockRequest?_of_late hd hmem) hmem,
    if_neg (disjoint_take_drop hd he), Option.map_some, height_blame, blame, hf]

theorem given_up_of_mem (hd : (Assoc.keys n.sync.blocks).Nodup) {e : Hash × Request} (he : e ∈ n.lateInOrder now)
    {pool : Pool} (heq : n.checkBlocks now = ((n.noted now).setPool pool).setBlocks
      (dropRequests ((n.retryBatch now).map (·.1)) (n.noted now).sync.blocks)) :
    (n.checkBlocks now).blockRequest? e.1 = none := by
  by_cases hkey : e.1 ∈ (n.retryBatch now).map (·.1)
  · rw [heq, blockRequest?_dropRequests, if_pos hkey]
  · refine checkBlocks_of_excess hk hd ?_
    rw [← List.take_append_drop maxInventory (n.lateInOrder now)] at he
    refine (List.mem_append.1 he).resolve_left fun htake => hkey ?_
    rw [keys_retryBatch]
    exact List.mem_map_of_mem htake

end

/-! ## Who is charged -/

theorem mem_offenders {id : PeerId} :
    id ∈ n.offenders now ↔ ∃ e ∈ n.lateInOrder now, e.2.recent?.map (·.peer) = some id := by
  simp only [offenders, List.mem_eraseDups, List.mem_filterMap, lateInOrder, List.mem_mergeSort]

theorem counters_charge (hd : (n.pool.peers.map Peer.id).Nodup) (hpatient : n.pool.Patient) (now : Instant) :
    (n.pool.charge (n.offenders now)).counters = n.pool.peers.map fun p => (p.id, p.weight.errors, p.weight.timeouts +
      if p.pooled = true ∧ ∃ e ∈ n.lateInOrder now, e.2.recent?.map (·.peer) = some p.id then 1 else 0) := by
  unfold Pool.counters
  rw [Pool.peers_charge (n.nodup_offenders now) hd, List.map_map]
  refine List.map_congr_left fun p hp => ?_
  simp only [Function.comp_apply, mem_offenders, and_comm (b := p.pooled = true)]
  by_cases hcharged : p.pooled = true ∧ ∃ e ∈ n.lateInOrder now, e.2.recent?.map (·.peer) = some p.id
  · have hroom : p.weight.timeouts + 1 ≤ maxWord := (Nat.succ_le_succ (hpatient p hp hcharged.1)).trans (by decide)
    rw [if_pos hcharged, if_pos hcharged, Pool.id_charged, Pool.errors_charged, Pool.timeouts_charged,
      Nat.min_eq_left hroom]
  · rw [if_neg hcharged, if_neg hcharged, Nat.add_zero]

theorem counters_checkBlocks (hk : n.pool.Keyed) (now : Instant) :
    (n.checkBlocks now).pool.counters = (n.pool.charge (n.offenders now)).counters := by
  obtain ⟨-, heq⟩ | ⟨top, -, ⟨p, pool, -, -, -, hroster, heq⟩ | ⟨pool, -, -, hroster, heq⟩⟩ := checkBlocks_cases hk now
  · rw [heq]
    rfl
  · rw [heq]
    exact Pool.counters_of_roster_eq hroster
  · rw [heq]
    exact Pool.counters_of_roster_eq hroster

theorem outboxOf_checkBlocks {told : PeerId → List Message} {charged : PeerId → Nat}
    (d : (n.pool.charge (n.offenders now)).Deals told charged (n.checkBlocks now).pool) (id : PeerId) :
    (n.checkBlocks now).pool.outboxOf id = n.pool.outboxOf id ++ told id := by
  rw [d.outbox, Pool.outboxOf_charge (n.nodup_offenders now)]

theorem outboxOf_checkBlocks_of_sent (hk : n.pool.Keyed) {top : Hash × Request} {p : Peer}
    (htop : ((n.lateInOrder now).take maxInventory).getLast? = some top)
    (hp : (n.pool.charge (n.offenders now)).retryPeer? now (totalFailures (n.retryBatch now)) top.2.height = some p)
    (hsent : (p.getData now .block (((n.lateInOrder now).take maxInventory).map (·.1))).2 = .ok ()) (id : PeerId) :
    (n.checkBlocks now).pool.outboxOf id = n.pool.outboxOf id ++
      (Message.getdata ⟨.block, ((n.lateInOrder now).take maxInventory).map (·.1)⟩).onlyTo p.id id := by
  rw [← keys_retryBatch] at hsent ⊢
  obtain ⟨hnone, -⟩ | ⟨top', htop', ⟨q, pool, hq, -, hdeals, -, heq⟩ | ⟨pool, hwhy, -, -, -⟩⟩ := checkBlocks_cases hk now
  · rw [hnone] at htop
    cases htop
  · obtain rfl := Option.some.inj (htop.symm.trans htop')
    obtain rfl := Option.some.inj (hp.symm.trans hq)
    have hpool : (n.checkBlocks now).pool = pool := congrArg Node.pool heq
    exact outboxOf_checkBlocks (hpool ▸ hdeals) id
  · obtain rfl := Option.some.inj (htop.symm.trans htop')
    rcases hwhy with hnobody | ⟨q, e, hq, herror⟩
    · cases hp.symm.trans hnobody
    · obtain rfl := Option.some.inj (hp.symm.trans hq)
      cases hsent.symm.trans herror

/-! ## What comes of a check -/

namespace Orderly

variable [Digest] (hn : n.Orderly)
include hn

theorem exists_flight (hr : n.blockRequest? h = some r) (now : Instant) : ∃ f, r.recent? = some f ∧
    isOverdue now n.sync.config.blockTimeout r = f.isTimedOut now n.sync.config.blockTimeout := by
  obtain ⟨peer, start, hflown⟩ := hn.airborne.blocks (h, r) (Assoc.mem_of_get? hr)
  refine ⟨_, hflown.recent, ?_⟩
  rw [isOverdue, hflown.recent, Option.all_some]

theorem late_iff : (h, r) ∈ n.lateInOrder now ↔ n.blockRequest? h = some r ∧ n.ledger.blockHeight < r.height ∧
    ∃ f, r.recent? = some f ∧ f.isTimedOut now n.sync.config.blockTimeout = true := by
  rw [mem_lateInOrder, ← Assoc.get?_eq_some_iff hn.regular.distinct]
  refine and_congr_right fun hr => ?_
  obtain ⟨f, hf, hoverdue⟩ := hn.exists_flight hr now
  dsimp only
  rw [hoverdue, and_comm]
  simp [hf]

end Orderly

/-- Whatever happened to a node so far, its requests that are not overdue stay as they are, and those at stored heights
just go once they are. Each of the others counts against the peer of its latest flight, and each pooled peer that is
charged with any takes one timeout more, and nobody else. The lowest of them then go to one peer that is high enough,
in one message, and the rest are gone; or, if nobody is high enough or the message cannot be queued, all are. -/
theorem overdue_blocks_settled [Digest] (hn : n.Arises) (now : Instant) :
    ∃ late : List (Hash × Request), late.Pairwise (fun e e' => e.2.height < e'.2.height) ∧
      (∀ h r, (h, r) ∈ late ↔ n.blockRequest? h = some r ∧ n.ledger.blockHeight < r.height ∧
        ∃ f, r.recent? = some f ∧ f.isTimedOut now n.sync.config.blockTimeout = true) ∧
      let n' := n.checkBlocks now
      let charged := n.pool.charge (n.offenders now)
      let batch := late.take maxInventory
      let hashes := batch.map (·.1)
      let retry := charged.retryPeer? now (totalFailures (batch.map fun e => (e.1, blame e.2)))
      n' = (n.setPool n'.pool).setBlocks n'.sync.blocks ∧
      (∀ h, n.blockRequest? h = none → n'.blockRequest? h = none) ∧
      (∀ h r, n.blockRequest? h = some r → ∃ f, r.recent? = some f ∧
        (f.isTimedOut now n.sync.config.blockTimeout = false → n'.blockRequest? h = some r) ∧
        (f.isTimedOut now n.sync.config.blockTimeout = true → r.height ≤ n.ledger.blockHeight →
          n'.blockRequest? h = none)) ∧
      n'.pool.counters = n.pool.peers.map (fun p => (p.id, p.weight.errors, p.weight.timeouts +
        if p.pooled = true ∧ ∃ e ∈ late, e.2.recent?.map (·.peer) = some p.id then 1 else 0)) ∧
      ((∃ top p, batch.getLast? = some top ∧ retry top.2.height = some p ∧ charged.Reaches top.2.height p ∧
          (∀ e ∈ batch, ∃ f, e.2.recent? = some f ∧
            n'.blockRequest? e.1 = some ((e.2.addFailure f.peer).addFlight ⟨p.id, e.2.height, now⟩)) ∧
          (∀ e ∈ late.drop maxInventory, n'.blockRequest? e.1 = none) ∧
          ∀ id, n'.pool.outboxOf id = n.pool.outboxOf id ++ (Message.getdata ⟨.block, hashes⟩).onlyTo p.id id) ∨
        (late = [] ∨ ∃ top, batch.getLast? = some top ∧ ((∀ p, ¬charged.Reaches top.2.height p) ∨
            ∃ p e, retry top.2.height = some p ∧ (p.getData now .block hashes).2 = .error e)) ∧
          (∀ e ∈ late, n'.blockRequest? e.1 = none) ∧ ∀ id, n'.pool.outboxOf id = n.pool.outboxOf id) := by
  have horderly := hn.orderly
  obtain ⟨⟨hk, hd⟩, -, -, hpatient, hasked⟩ := hn.orderly
  refine ⟨n.lateInOrder now, pairwise_lateInOrder hd hasked now, fun h r => horderly.late_iff, ?_⟩
  intro n' charged batch hashes retry
  refine ⟨?_, fun h hnone => checkBlocks_of_none hk hd hnone, fun h r hr => ?_, ?_, ?_⟩
  · obtain ⟨pool, blocks, heq, -⟩ := checkBlocks_eq now n
    show n.checkBlocks now = (n.setPool (n.checkBlocks now).pool).setBlocks (n.checkBlocks now).sync.blocks
    rw [heq]
    rfl
  · obtain ⟨f, hf, hoverdue⟩ := horderly.exists_flight hr now
    exact ⟨f, hf, fun hyoung => checkBlocks_of_young hk hd hr (hoverdue.trans hyoung),
      fun hold => checkBlocks_of_stored hk hd hr (hoverdue.trans hold)⟩
  · rw [← counters_charge hk.distinct hpatient, ← counters_checkBlocks hk]
  · obtain ⟨hnone, heq⟩ | ⟨top, htop, ⟨p, pool, hp, -, hdeals, -, heq⟩ | ⟨pool, hwhy, hdeals, -, heq⟩⟩ :=
      checkBlocks_cases hk now
    · have hpool : charged = n'.pool := (congrArg Node.pool heq).symm
      have hsilent : charged.Deals Pool.silent Pool.free n'.pool := hpool ▸ .refl charged
      refine .inr ⟨.inl hnone, fun e he => absurd he (by simp [hnone]), fun id => ?_⟩
      exact (outboxOf_checkBlocks hsilent id).trans (List.append_nil _)
    · have hpool : n'.pool = pool := congrArg Node.pool heq
      rw [keys_retryBatch] at hdeals
      refine .inl ⟨top, p, htop, hp, (Pool.of_retryPeer? hp).1, fun e he => ?_, fun e he => ?_,
        outboxOf_checkBlocks (hpool ▸ hdeals)⟩
      · obtain ⟨f, hf, -⟩ := horderly.exists_flight (blockRequest?_of_late hd (List.mem_of_mem_take he)) now
        exact ⟨f, hf, retried_of_mem hd he hf heq⟩
      · exact checkBlocks_of_excess hk hd he
    · have hpool : n'.pool = pool := congrArg Node.pool heq
      rw [Pool.retryPeer?_eq_none_iff, keys_retryBatch] at hwhy
      refine .inr ⟨.inr ⟨top, htop, hwhy⟩, fun e he => given_up_of_mem hk hd he heq, fun id => ?_⟩
      exact (outboxOf_checkBlocks (hpool ▸ hdeals) id).trans (List.append_nil _)

end Node

/-! ## Two late blocks -/

namespace Scripted

def roomyWorld : World :=
  ⟨0, .fresh (.ofGenesis genesisBlock) .default 0 .default⟩

def bothHeaders : List Action :=
  [.churn (.arrive (address 1) false (version 1 10333 2)), .tick, .headers 1 [firstBlock.header, secondBlock.header]]

/-- The blocks are asked for and do not come, and another peer joins. -/
def bothWanted : List Action :=
  bothHeaders ++ [.syncBlocks, .churn (.arrive (address 2) false (version 2 10333 2))]

def bothRequests : List (Hash × Request) :=
  [(firstBlock.hash, .start 0 1 1), (secondBlock.hash, .start 0 1 2)]

-- Whom the retry goes to is not decided here: the ranking compares floating-point weights, which do not reduce.
theorem bothWanted_waits :
    let n := (roomyWorld.run bothWanted).node
    let charged := n.pool.charge (n.offenders 5000000)
    let hashes := [firstBlock.hash, secondBlock.hash]
    .getdata ⟨.block, hashes⟩ ∈ Action.syncBlocks.asks 1 (roomyWorld.run bothHeaders) ∧
      n.sync.blocks = bothRequests ∧ n.ledger.blockHeight = 0 ∧ n.sync.config.blockTimeout = 5000000 ∧
      n.pool.peers.map (fun p => (p.id, p.pooled, p.weight.errors, p.weight.timeouts)) =
        [(1, true, 0, 0), (2, true, 0, 0)] ∧
      (∃ p ∈ charged.peers, p.id = 2 ∧ p.pooled = true ∧ p.isActive = true ∧ 2 ≤ p.bestHeight) ∧
      ∀ p ∈ charged.peers, p.id = 1 ∨ p.id = 2 ∧ (p.getData 5000000 .block hashes).2 = .ok () := by
  decide +kernel

theorem orderly_bothWanted : (roomyWorld.run bothWanted).node.Orderly :=
  (World.arises_run (w := roomyWorld) ⟨_, _, _, _, .refl⟩ bothWanted).orderly

/-- What is late, in order. -/
theorem eq_bothRequests {late : List (Hash × Request)} (hsorted : late.Pairwise fun e e' => e.2.height < e'.2.height)
    (hmem : ∀ h r, (h, r) ∈ late ↔ (roomyWorld.run bothWanted).node.blockRequest? h = some r ∧
      (roomyWorld.run bothWanted).node.ledger.blockHeight < r.height ∧
      ∃ f, r.recent? = some f ∧
        f.isTimedOut 5000000 (roomyWorld.run bothWanted).node.sync.config.blockTimeout = true) :
    late = bothRequests := by
  obtain ⟨-, hblocks, hbase, htimeout, -⟩ := bothWanted_waits
  have hdistinct := orderly_bothWanted.regular.distinct
  generalize (roomyWorld.run bothWanted).node = n at hmem hblocks hbase htimeout hdistinct
  refine Node.eq_of_ascending hsorted (List.pairwise_pair.2 (show 1 < 2 by decide)) fun e => ?_
  obtain ⟨h, r⟩ := e
  rw [hmem, Node.blockRequest?, Assoc.get?_eq_some_iff hdistinct, hblocks, hbase, htimeout]
  refine and_iff_left_of_imp fun he => ?_
  obtain ⟨-, rfl⟩ | ⟨-, rfl⟩ : (_ ∧ r = .start 0 1 1) ∨ (_ ∧ r = .start 0 1 2) := by
    simpa [bothRequests] using he
  · exact ⟨Nat.one_pos, ⟨1, 1, 0⟩, rfl, rfl⟩
  · exact ⟨Nat.two_pos, ⟨1, 2, 0⟩, rfl, rfl⟩

theorem exists_chosen (failures : PeerId → Nat) (hone : 0 < failures 1) (htwo : failures 2 = 0) :
    let n := (roomyWorld.run bothWanted).node
    ∃ p, (n.pool.charge (n.offenders 5000000)).retryPeer? 5000000 failures 2 = some p ∧ p.id = 2 ∧
      (p.getData 5000000 .block [firstBlock.hash, secondBlock.hash]).2 = .ok () := by
  intro n
  obtain ⟨-, -, -, -, -, ⟨q, hq, hid, hpooled, hactive, hheight⟩, hall⟩ := bothWanted_waits
  have hreaches : (n.pool.charge (n.offenders 5000000)).Reaches 2 q :=
    ⟨List.mem_filter.2 ⟨hq, hpooled⟩, hactive, hheight⟩
  obtain ⟨p, hp, hchosen, hleast⟩ := Pool.exists_retryPeer? hreaches 5000000 failures
  have hnone : failures p.id = 0 := Nat.le_zero.1 (htwo ▸ hid ▸ hleast q hreaches)
  rcases hall p hchosen.mem with hother | hsent
  · rw [hother] at hnone
    exact absurd hnone (Nat.ne_of_gt hone)
  · exact ⟨p, hp, hsent⟩

end Scripted

open Scripted in
/-- Both blocks are late with one peer, and the other one is asked for them. -/
theorem Node.overdue_blocks_settled_first :
    let n := (roomyWorld.run bothWanted).node
    let n' := n.checkBlocks 5000000
    n'.blockRequest? firstBlock.hash = some (((Request.start 0 1 1).addFailure 1).addFlight ⟨2, 1, 5000000⟩) ∧
      n'.blockRequest? secondBlock.hash = some (((Request.start 0 1 2).addFailure 1).addFlight ⟨2, 2, 5000000⟩) ∧
      n'.pool.counters = [(1, 0, 1), (2, 0, 0)] ∧
      ∀ id, n'.pool.outboxOf id = n.pool.outboxOf id ++
        (Message.getdata ⟨.block, [firstBlock.hash, secondBlock.hash]⟩).onlyTo 2 id := by
  have harises : (roomyWorld.run bothWanted).node.Arises :=
    World.arises_run (w := roomyWorld) ⟨_, _, _, _, .refl⟩ bothWanted
  obtain ⟨late, hsorted, hmem, hsettled⟩ := Node.overdue_blocks_settled harises 5000000
  obtain rfl : late = bothRequests := eq_bothRequests hsorted hmem
  obtain ⟨-, -, -, -, hpeers, -, -⟩ := bothWanted_waits
  have hchosen := exists_chosen (Node.totalFailures (bothRequests.map fun e => (e.1, blame e.2)))
    (by decide) (by decide)
  dsimp only at hchosen ⊢
  generalize (roomyWorld.run bothWanted).node = n at hsettled hpeers hchosen ⊢
  obtain ⟨p, hp, hid, hsent⟩ := hchosen
  obtain ⟨-, -, -, hcounters, hout⟩ := hsettled
  have hcharged : (n.checkBlocks 5000000).pool.counters =
      (n.pool.peers.map fun p => (p.id, p.pooled, p.weight.errors, p.weight.timeouts)).map fun c =>
        (c.1, c.2.2.1, c.2.2.2 +
          if c.2.1 = true ∧ ∃ e ∈ bothRequests, e.2.recent?.map (·.peer) = some c.1 then 1 else 0) := by
    rw [List.map_map]
    exact hcounters
  rw [hpeers] at hcharged
  obtain ⟨top, q, htop, hq, -, hflights, -, htold⟩ | ⟨hnone | ⟨top, htop, hreaches | ⟨q, e, hq, herror⟩⟩, -, -⟩ := hout
  · obtain rfl := Option.some.inj htop
    obtain rfl : p = q := Option.some.inj (hp.symm.trans hq)
    obtain ⟨f, hf, hfirst⟩ := hflights (firstBlock.hash, .start 0 1 1) (by simp [bothRequests, maxInventory])
    obtain ⟨g, hg, hsecond⟩ := hflights (secondBlock.hash, .start 0 1 2) (by simp [bothRequests, maxInventory])
    obtain rfl : ⟨1, 1, 0⟩ = f := Option.some.inj hf
    obtain rfl : ⟨1, 2, 0⟩ = g := Option.some.inj hg
    rw [hid] at hfirst hsecond htold
    exact ⟨hfirst, hsecond, hcharged.trans (by decide), htold⟩
  · cases hnone
  · obtain rfl := Option.some.inj htop
    exact absurd (Pool.of_retryPeer? hp).1 (hreaches p)
  · obtain rfl := Option.some.inj htop
    obtain rfl : p = q := Option.some.inj (hp.symm.trans hq)
    cases hsent.symm.trans herror

end ChainSync
