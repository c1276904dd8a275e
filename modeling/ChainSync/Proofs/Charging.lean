import ChainSync.Proofs.Seats
import ChainSync.Proofs.Turns

/-!
# What charges and requests make of the peers

A charge counts one timeout against a pooled peer and drops it from the pool
when that was one too many; whoever else there is stays as it is. A request
leaves alone what the pool knows of its peers. So in the parts of a round
peers neither come nor return, nobody gets higher, and no peer that stays
takes more timeouts than are tolerated (`Dwindles`).
-/

namespace ChainSync

def Peer.dropped (p : Peer) : Peer :=
  { p.disconnect .replaced with pooled := false }

def Peer.charged (p : Peer) : Peer :=
  if maxTimeouts < p.addTimeout.weight.timeouts then p.addTimeout.dropped else p.addTimeout

def Peer.faulted (p : Peer) : Peer :=
  if maxErrors < p.addError.weight.errors then p.addError.dropped else p.addError

namespace Pool

variable {pool pool' pool'' : Pool} {id : PeerId} {ids : List PeerId} {p q : Peer}

/-! ## One charge -/

theorem id_charged (p : Peer) : p.charged.id = p.id := by
  unfold Peer.charged
  split <;> rfl

theorem errors_charged (p : Peer) : p.charged.weight.errors = p.weight.errors := by
  unfold Peer.charged
  split <;> rfl

theorem timeouts_charged (p : Peer) : p.charged.weight.timeouts = min (p.weight.timeouts + 1) maxWord := by
  unfold Peer.charged
  split <;> rfl

theorem ids_of_map {g : Peer → Peer} (hid : ∀ p, (g p).id = p.id) (h : pool'.peers = pool.peers.map g) :
    pool'.peers.map Peer.id = pool.peers.map Peer.id := by
  rw [h, List.map_map]
  exact List.map_congr_left fun p _ => hid p

theorem peer?_of_mem (hd : (pool.peers.map Peer.id).Nodup) (hp : p ∈ pool.peers) (hpooled : p.pooled = true) :
    pool.peer? p.id = some p := by
  obtain ⟨q, hq⟩ : ∃ q, pool.peer? p.id = some q :=
    Option.isSome_iff_exists.1 (List.find?_isSome.2 ⟨p, hp, by simp [hpooled]⟩)
  have hid : q.id = p.id := by
    have := List.find?_some hq
    simp only [Bool.and_eq_true, decide_eq_true_eq] at this
    exact this.1
  rw [hq, eq_of_id_eq hd (List.mem_of_find?_eq_some hq) hp hid]

theorem peers_replace (h : pool.peer? id = some p) : (pool.replace id).peers =
    pool.peers.map fun q => if q.id = p.id then q.dropped else q := by
  obtain ⟨book, heq, -⟩ := remove_eq p (·.disconnect .replaced) AddressBook.markBad pool
  unfold replace
  rw [h]
  dsimp only
  rw [heq]
  split <;> rfl

/-- To count something against a peer changes this peer alone, and drops it if that was one too many. -/
theorem peers_penalise {f : Peer → Peer} (hid : ∀ q, (f q).id = q.id) (hkept : ∀ q, (f q).pooled = q.pooled)
    (tooMany : Peer → Prop) [DecidablePred tooMany] (hd : (pool.peers.map Peer.id).Nodup) (id : PeerId) :
    (match pool.peer? id with
      | none => (pool, false)
      | some p => if tooMany p then ((pool.modify id f).replace id, true) else (pool.modify id f, false)).1.peers =
      pool.peers.map fun p =>
        if p.id = id ∧ p.pooled = true then if tooMany p then (f p).dropped else f p else p := by
  cases hpeer : pool.peer? id with
  | none =>
    refine (List.map_id _).symm.trans (List.map_congr_left fun p hp => ?_)
    have := List.find?_eq_none.1 hpeer p hp
    exact (if_neg (by simpa using this)).symm
  | some p =>
    obtain ⟨hp, rfl, hpooled⟩ := of_peer? hpeer
    -- the count is against this peer alone, so what becomes of it is all there is to show
    have hone : ∀ g : Peer → Peer, g p = (if tooMany p then (f p).dropped else f p) →
        (∀ q : Peer, q.id ≠ p.id → g q = q) → pool.peers.map g = pool.peers.map fun q =>
          if q.id = p.id ∧ q.pooled = true then if tooMany q then (f q).dropped else f q else q := by
      intro g hg hother
      refine List.map_congr_left fun q hq => ?_
      by_cases hqid : q.id = p.id
      · obtain rfl := eq_of_id_eq hd hq hp hqid
        rw [if_pos ⟨rfl, hpooled⟩, hg]
      · rw [if_neg fun h => hqid h.1, hother q hqid]
    dsimp only
    split
    · rename_i hmany
      have hids : (pool.modify p.id f).peers.map Peer.id = pool.peers.map Peer.id := by
        refine ids_of_map (fun q => ?_) rfl
        split
        · exact hid q
        · rfl
      have hd' : ((pool.modify p.id f).peers.map Peer.id).Nodup := hids ▸ hd
      have hmem : f p ∈ (pool.modify p.id f).peers := List.mem_map.2 ⟨p, hp, if_pos rfl⟩
      have hstill : (pool.modify p.id f).peer? p.id = some (f p) := by
        rw [← peer?_of_mem hd' hmem ((hkept p).trans hpooled), hid]
      rw [peers_replace hstill]
      unfold modify
      rw [List.map_map]
      refine hone _ ?_ fun q hqid => ?_
      · simp [hid, hmany]
      · simp [hid, hqid]
    · rename_i hfew
      refine hone _ ?_ fun q hqid => if_neg hqid
      rw [if_neg hfew, if_pos rfl]

theorem peers_penaliseTimeout (hd : (pool.peers.map Peer.id).Nodup) (id : PeerId) :
    (pool.penaliseTimeout id).1.peers =
      pool.peers.map fun p => if p.id = id ∧ p.pooled = true then p.charged else p :=
  peers_penalise (f := Peer.addTimeout) (fun _ => rfl) (fun _ => rfl)
    (fun p => maxTimeouts < p.addTimeout.weight.timeouts) hd id

theorem peers_penaliseError (hd : (pool.peers.map Peer.id).Nodup) (id : PeerId) :
    (pool.penaliseError id).1.peers =
      pool.peers.map fun p => if p.id = id ∧ p.pooled = true then p.faulted else p :=
  peers_penalise (f := Peer.addError) (fun _ => rfl) (fun _ => rfl)
    (fun p => maxErrors < p.addError.weight.errors) hd id

/-! ## Charges to several peers -/

theorem peers_charge : ∀ {ids : List PeerId}, ids.Nodup → ∀ {pool : Pool}, (pool.peers.map Peer.id).Nodup →
    (pool.charge ids).peers = pool.peers.map fun p => if p.id ∈ ids ∧ p.pooled = true then p.charged else p
  | [], _, pool, _ => by simp [charge]
  | id :: ids, hids, pool, hd => by
    obtain ⟨hnew, hids⟩ := List.nodup_cons.1 hids
    have hone := peers_penaliseTimeout hd id
    have hsame : ∀ p : Peer, (if p.id = id ∧ p.pooled = true then p.charged else p).id = p.id := by
      intro p
      split
      · exact id_charged p
      · rfl
    have hd' : ((pool.penaliseTimeout id).1.peers.map Peer.id).Nodup := ids_of_map hsame hone ▸ hd
    have hrest := peers_charge hids hd'
    show ((pool.penaliseTimeout id).1.charge ids).peers = _
    rw [hrest, hone, List.map_map]
    refine List.map_congr_left fun p _ => ?_
    show (if (if p.id = id ∧ p.pooled = true then p.charged else p).id ∈ ids ∧ _ then _ else _) = _
    rw [hsame p]
    by_cases hid : p.id = id
    · rw [if_neg fun h => hnew (hid ▸ h.1)]
      simp [hid]
    · simp [hid]

/-! ## Requests -/

theorem profile_send (m : Message) (p : Peer) : (p.send m).1.profile = p.profile := by
  obtain h | h := send_cases m p
  · rw [h]
  · rw [h]
    rfl

theorem profile_getHeaders (now : Instant) (start : Hash) (p : Peer) : (p.getHeaders now start).1.profile = p.profile :=
  profile_send _ (p.noteRequest now)

theorem profile_getData (now : Instant) (kind : InventoryKind) (hashes : List Hash) (p : Peer) :
    (p.getData now kind hashes).1.profile = p.profile := by
  unfold Peer.getData
  split
  · rfl
  · dsimp only
    rw [profile_send]
    split <;> rfl

theorem roster_withPeer {f : Peer → Peer × Except NetError Unit} (hf : ∀ p, (f p).1.profile = p.profile)
    (hd : (pool.peers.map Peer.id).Nodup) (id : PeerId) : (pool.withPeer id f).1.roster = pool.roster := by
  unfold withPeer
  cases hp : pool.find? id with
  | none => rfl
  | some p =>
    have hid : p.id = id := find?_id hp
    unfold roster modify
    rw [List.map_map]
    refine List.map_congr_left fun q hq => ?_
    by_cases hq' : q.id = id
    · obtain rfl := eq_of_id_eq hd hq (List.mem_of_find?_eq_some hp) (hq'.trans hid.symm)
      simp [hid, hf]
    · simp [hq']

/-! ## Peers that stay -/

/-- Each peer was there before and just as high; it is pooled or active only if it was, and pooled with more timeouts
only if these are tolerated. -/
def Dwindles (pool pool' : Pool) : Prop :=
  ∀ q ∈ pool'.peers, ∃ p ∈ pool.peers, p.id = q.id ∧ p.bestHeight = q.bestHeight ∧
    (q.state = .active → p.state = .active) ∧
    (q.pooled = true → p.pooled = true ∧ q.weight.timeouts ≤ max p.weight.timeouts maxTimeouts)

theorem Dwindles.trans (h : pool.Dwindles pool') (h' : pool'.Dwindles pool'') : pool.Dwindles pool'' := by
  intro r hr
  obtain ⟨q, hq, hid', hheight', hactive', hpooled'⟩ := h' r hr
  obtain ⟨p, hp, hid, hheight, hactive, hpooled⟩ := h q hq
  refine ⟨p, hp, hid.trans hid', hheight.trans hheight', fun hr => hactive (hactive' hr), fun hr => ?_⟩
  obtain ⟨hqpooled, hrq⟩ := hpooled' hr
  obtain ⟨hppooled, hqp⟩ := hpooled hqpooled
  exact ⟨hppooled, by omega⟩

theorem Dwindles.of_roster_eq (h : pool'.roster = pool.roster) : pool.Dwindles pool' := by
  intro q hq
  have hmem : q.profile ∈ pool.roster := h ▸ List.mem_map_of_mem hq
  obtain ⟨p, hp, heq⟩ := List.mem_map.1 hmem
  have htimeouts : p.weight.timeouts = q.weight.timeouts := congrArg Profile.timeouts heq
  refine ⟨p, hp, congrArg Profile.id heq, congrArg Profile.bestHeight heq,
    fun hactive => (congrArg Profile.state heq).trans hactive,
    fun hpooled => ⟨(congrArg Profile.pooled heq).trans hpooled, ?_⟩⟩
  omega

theorem Dwindles.refl (pool : Pool) : pool.Dwindles pool :=
  .of_roster_eq rfl

theorem dwindles_charge (hids : ids.Nodup) (hd : (pool.peers.map Peer.id).Nodup) : pool.Dwindles (pool.charge ids) := by
  intro q hq
  rw [peers_charge hids hd] at hq
  obtain ⟨p, hp, rfl⟩ := List.mem_map.1 hq
  refine ⟨p, hp, ?_⟩
  by_cases hcharged : p.id ∈ ids ∧ p.pooled = true
  · rw [if_pos hcharged]
    refine ⟨(id_charged p).symm, ?_⟩
    unfold Peer.charged
    split
    · exact ⟨rfl, nofun, nofun⟩
    · rename_i htolerated
      exact ⟨rfl, fun h => h, fun h => ⟨h, (Nat.not_lt.1 htolerated).trans (Nat.le_max_right _ _)⟩⟩
  · rw [if_neg hcharged]
    exact ⟨rfl, rfl, fun h => h, fun h => ⟨h, Nat.le_max_left _ _⟩⟩

end Pool

/-! ## Parts of a round -/

namespace Node

variable {n : Node}

section
variable (now : Instant) (n : Node)

theorem pool_retryHeaders (r : Request) (late : Flight) :
    (n.retryHeaders now r late).pool = n.pool.charge [late.peer] ∨
      ∃ p ∈ (n.pool.charge [late.peer]).peers, (n.retryHeaders now r late).pool =
        ((n.setPool (n.pool.charge [late.peer])).withPeer p.id
          (·.getHeaders now (n.ledger.hashAt (r.height - 1)))).1.pool := by
  unfold retryHeaders
  dsimp only
  split
  · exact .inl rfl
  · rename_i p hp
    refine .inr ⟨p, Pool.mem_of_retryPeer? hp, ?_⟩
    split
    · rename_i h
      exact (congrArg (·.1.pool) h).symm
    · rename_i h
      exact (congrArg (·.1.pool) h).symm

theorem pool_checkHeaders : (n.checkHeaders now).pool = n.pool ∨
    ∃ r f, (n.checkHeaders now).pool = (n.retryHeaders now r f).pool := by
  unfold checkHeaders
  split
  · exact .inl rfl
  · split
    · exact .inl rfl
    · split
      · exact .inl rfl
      · split
        · exact .inl rfl
        · exact .inr ⟨_, _, rfl⟩

theorem pool_syncHeaders : (n.syncHeaders now).pool = n.pool ∨ ∃ p ∈ n.pool.peers,
    (n.syncHeaders now).pool =
      (n.withPeer p.id (·.getHeaders now (n.ledger.hashAt n.ledger.headerHeight))).1.pool := by
  unfold syncHeaders
  dsimp only
  split
  · exact .inl rfl
  · split
    · exact .inl rfl
    · split
      · exact .inl rfl
      · rename_i p hp
        refine .inr ⟨p, (Pool.of_nextPeer? hp).1, ?_⟩
        split
        · rename_i h
          exact (congrArg (·.1.pool) h).symm
        · rename_i h
          exact (congrArg (·.1.pool) h).symm

theorem pool_retryBlocks (batch : List (Hash × Request)) : (n.retryBlocks now batch).pool = n.pool ∨
    ∃ p ∈ n.pool.peers,
      (n.retryBlocks now batch).pool = (n.withPeer p.id (·.getData now .block (batch.map (·.1)))).1.pool := by
  unfold retryBlocks
  dsimp only
  split
  · exact .inl rfl
  · rename_i p hp
    refine .inr ⟨p, Pool.mem_of_retryPeer? hp, ?_⟩
    split
    · rename_i h
      exact (congrArg (·.1.pool) h).symm
    · rename_i h
      exact (congrArg (·.1.pool) h).symm

theorem pool_syncBlocks : (n.syncBlocks now).pool = n.pool ∨
    ∃ p, n.pool.nextPeer? now (n.ledger.blockHeight + 1) = some p ∧ n.missingBlocks p.bestHeight ≠ [] ∧
      (n.syncBlocks now).pool =
        (n.withPeer p.id (·.getData now .block ((n.missingBlocks p.bestHeight).map (·.2)))).1.pool := by
  unfold syncBlocks
  dsimp only
  split
  · exact .inl rfl
  · split
    · exact .inl rfl
    · rename_i p hp
      split
      · exact .inl rfl
      · rename_i hbatch
        refine .inr ⟨p, hp, by simpa using hbatch, ?_⟩
        split
        · rename_i h
          exact (congrArg (·.1.pool) h).symm
        · rename_i h
          exact (congrArg (·.1.pool) h).symm

end

section
variable (now : Instant) (hk : n.pool.Keyed)
include hk

omit now in
theorem result_withPeer {p : Peer} (hp : p ∈ n.pool.peers) (f : Peer → Peer × Except NetError Unit) :
    (n.withPeer p.id f).2 = (f p).2 := by
  unfold withPeer
  rw [Pool.withPeer_of_mem hk.distinct hp]

omit now in
theorem dwindles_withPeer {f : Peer → Peer × Except NetError Unit} (hf : ∀ p, (f p).1.profile = p.profile)
    (id : PeerId) : n.pool.Dwindles (n.withPeer id f).1.pool :=
  .of_roster_eq (Pool.roster_withPeer hf hk.distinct id)

theorem roster_retryHeaders (r : Request) (late : Flight) :
    (n.retryHeaders now r late).pool.roster = (n.pool.charge [late.peer]).roster := by
  have hk' : (n.setPool (n.pool.charge [late.peer])).pool.Keyed :=
    (Pool.deals_charge (List.nodup_singleton _) n.pool).keyed hk
  obtain heq | ⟨p, -, heq⟩ := pool_retryHeaders now n r late
  · rw [heq]
  · rw [heq]
    exact Pool.roster_withPeer (Pool.profile_getHeaders now _) hk'.distinct p.id

theorem dwindles_retryHeaders (r : Request) (late : Flight) : n.pool.Dwindles (n.retryHeaders now r late).pool :=
  (Pool.dwindles_charge (List.nodup_singleton late.peer) hk.distinct).trans
    (.of_roster_eq (roster_retryHeaders now hk r late))

theorem dwindles_checkHeaders : n.pool.Dwindles (n.checkHeaders now).pool := by
  obtain heq | ⟨r, f, heq⟩ := pool_checkHeaders now n
  · rw [heq]
    exact .refl n.pool
  · rw [heq]
    exact dwindles_retryHeaders now hk r f

theorem dwindles_retryBlocks (batch : List (Hash × Request)) : n.pool.Dwindles (n.retryBlocks now batch).pool := by
  obtain heq | ⟨p, -, heq⟩ := pool_retryBlocks now n batch
  · rw [heq]
    exact .refl n.pool
  · rw [heq]
    exact dwindles_withPeer hk (Pool.profile_getData now _ _) p.id

theorem dwindles_checkBlocks : n.pool.Dwindles (n.checkBlocks now).pool := by
  have hcharge := Pool.dwindles_charge (n.nodup_offenders now) hk.distinct
  have hk' : (n.setPool (n.pool.charge (n.offenders now))).pool.Keyed :=
    (Pool.deals_charge (n.nodup_offenders now) n.pool).keyed hk
  unfold checkBlocks
  dsimp only
  split
  · exact hcharge
  · refine hcharge.trans (dwindles_retryBlocks now ?_ _)
    exact hk'

theorem dwindles_syncHeaders : n.pool.Dwindles (n.syncHeaders now).pool := by
  obtain heq | ⟨p, -, heq⟩ := pool_syncHeaders now n
  · rw [heq]
    exact .refl n.pool
  · rw [heq]
    exact dwindles_withPeer hk (Pool.profile_getHeaders now _) p.id

theorem dwindles_syncBlocks : n.pool.Dwindles (n.syncBlocks now).pool := by
  obtain heq | ⟨p, -, -, heq⟩ := pool_syncBlocks now n
  · rw [heq]
    exact .refl n.pool
  · rw [heq]
    exact dwindles_withPeer hk (Pool.profile_getData now _ _) p.id

end

end Node

theorem Action.dwindles_act [Digest] {a : Action} (ha : a.isRound = true) (now : Instant) {n : Node} (h : n.Regular) :
    n.pool.Dwindles (a.act now n).pool := by
  cases a with
  | checkHeaders => exact n.dwindles_checkHeaders now h.keyed
  | checkBlocks => exact n.dwindles_checkBlocks now h.keyed
  | syncHeaders => exact n.dwindles_syncHeaders now h.keyed
  | syncBlocks => exact n.dwindles_syncBlocks now h.keyed
  | tick =>
    have h₁ : (n.checkHeaders now).Regular := h.act now .checkHeaders
    have h₂ : ((n.checkHeaders now).checkBlocks now).Regular := h₁.act now .checkBlocks
    have h₃ : (((n.checkHeaders now).checkBlocks now).syncHeaders now).Regular := h₂.act now .syncHeaders
    have d₁ := Node.dwindles_checkHeaders now h.keyed
    have d₂ := Node.dwindles_checkBlocks now h₁.keyed
    have d₃ := Node.dwindles_syncHeaders now h₂.keyed
    exact ((d₁.trans d₂).trans d₃).trans (Node.dwindles_syncBlocks now h₃.keyed)
  | _ => cases ha

end ChainSync
