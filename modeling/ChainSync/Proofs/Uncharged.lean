import ChainSync.Proofs.Asking
import ChainSync.Proofs.Charging

/-!
# Who is not charged

Nothing but a charge raises a peer's count of timeouts, and who was dropped
for them does not come back: a new peer starts without any. So of all actions
only rounds of the synchronizer charge anybody, in which what is overdue
lapses.
-/

namespace ChainSync

namespace Pool

def Spares (pool pool' : Pool) : Prop :=
  ∀ bound, pool.Within bound → pool'.Within bound

/-- A peer with timeouts was there before, with as many at least, and is pooled only if it was. -/
def Inherits (pool pool' : Pool) : Prop :=
  ∀ q ∈ pool'.peers, q.weight.timeouts = 0 ∨ ∃ p ∈ pool.peers,
    p.id = q.id ∧ q.weight.timeouts ≤ p.weight.timeouts ∧ (q.pooled = true → p.pooled = true)

variable {pool pool' pool'' : Pool} {f : Peer → Peer}

theorem Inherits.refl (pool : Pool) : pool.Inherits pool :=
  fun p hp => .inr ⟨p, hp, rfl, Nat.le_refl _, fun h => h⟩

theorem Inherits.trans (h : pool.Inherits pool') (h' : pool'.Inherits pool'') : pool.Inherits pool'' := by
  intro r hr
  obtain hnone | ⟨q, hq, hid', htimeouts', hpooled'⟩ := h' r hr
  · exact .inl hnone
  · obtain hnone | ⟨p, hp, hid, htimeouts, hpooled⟩ := h q hq
    · exact .inl (Nat.le_zero.1 (hnone ▸ htimeouts'))
    · exact .inr ⟨p, hp, hid.trans hid', htimeouts'.trans htimeouts, fun h => hpooled (hpooled' h)⟩

theorem Inherits.spares (h : pool.Inherits pool') : pool.Spares pool' := by
  intro bound hbound q hq
  obtain hnone | ⟨p, hp, hid, htimeouts, -⟩ := h q hq
  · rw [hnone]
    exact Nat.zero_le _
  · exact hid ▸ htimeouts.trans (hbound p hp)

theorem Inherits.of_map {g : Peer → Peer} (hpeers : pool'.peers = pool.peers.map g) (hid : ∀ p, (g p).id = p.id)
    (htimeouts : ∀ p, (g p).weight.timeouts = p.weight.timeouts)
    (hpooled : ∀ p, (g p).pooled = true → p.pooled = true) : pool.Inherits pool' := by
  intro q hq
  rw [hpeers] at hq
  obtain ⟨p, hp, rfl⟩ := List.mem_map.1 hq
  exact .inr ⟨p, hp, (hid p).symm, Nat.le_of_eq (htimeouts p), hpooled p⟩

theorem Inherits.of_peers_eq (hpeers : pool'.peers = pool.peers) : pool.Inherits pool' :=
  .of_map (hpeers.trans (List.map_id _).symm) (fun _ => rfl) (fun _ => rfl) fun _ h => h

theorem inherits_modify (id : PeerId) (hid : ∀ p, (f p).id = p.id)
    (htimeouts : ∀ p, (f p).weight.timeouts = p.weight.timeouts)
    (hpooled : ∀ p, (f p).pooled = true → p.pooled = true) (pool : Pool) : pool.Inherits (pool.modify id f) := by
  refine .of_map rfl (fun p => ?_) (fun p => ?_) fun p => ?_
  · split
    · exact hid p
    · rfl
  · split
    · exact htimeouts p
    · rfl
  · split
    · exact hpooled p
    · exact fun h => h

theorem inherits_withPeer {f : Peer → Peer × Except NetError Unit} (hseat : ∀ p, (f p).1.seat = p.seat)
    (htimeouts : ∀ p, (f p).1.weight.timeouts = p.weight.timeouts) (id : PeerId) (pool : Pool) :
    pool.Inherits (pool.withPeer id f).1 := by
  unfold withPeer
  cases hp : pool.find? id with
  | none => exact .refl pool
  | some p =>
    intro q hq
    obtain ⟨o, ho, rfl⟩ := List.mem_map.1 hq
    split
    · exact .inr ⟨p, List.mem_of_find?_eq_some hp, (congrArg Seat.id (hseat p)).symm, Nat.le_of_eq (htimeouts p),
        fun h => (congrArg Seat.pooled (hseat p)).symm.trans h⟩
    · exact .inr ⟨o, ho, rfl, Nat.le_refl _, fun h => h⟩

theorem weight_send (m : Message) (p : Peer) : (p.send m).1.weight = p.weight := by
  obtain h | h := send_cases m p <;> rw [h]

theorem inherits_send (m : Message) (id : PeerId) (pool : Pool) : pool.Inherits (pool.withPeer id (·.send m)).1 :=
  inherits_withPeer (seat_send m) (fun p => congrArg Weight.timeouts (weight_send m p)) id pool

theorem timeouts_getData (now : Instant) (kind : InventoryKind) (hashes : List Hash) (p : Peer) :
    (p.getData now kind hashes).1.weight.timeouts = p.weight.timeouts := by
  unfold Peer.getData
  split
  · rfl
  · dsimp only
    rw [weight_send]
    split <;> rfl

theorem inherits_getData (now : Instant) (kind : InventoryKind) (hashes : List Hash) (id : PeerId) (pool : Pool) :
    pool.Inherits (pool.withPeer id (·.getData now kind hashes)).1 :=
  inherits_withPeer (seat_getData now kind hashes) (timeouts_getData now kind hashes) id pool

theorem inherits_sendEach (m : Message) : ∀ (ids : List PeerId) (pool : Pool), pool.Inherits (pool.sendEach ids m)
  | [], pool => .refl pool
  | id :: ids, pool => (inherits_send m id pool).trans (inherits_sendEach m ids _)

theorem inherits_serve (id : PeerId) : ∀ (txs : List Transaction) (pool : Pool), pool.Inherits (pool.serve id txs)
  | [], pool => .refl pool
  | tx :: txs, pool => by
    have hsend := inherits_send (.tx tx) id pool
    unfold serve
    cases hr : pool.withPeer id (·.send (.tx tx)) with
    | mk pool' result =>
      rw [hr] at hsend
      cases result with
      | ok => exact hsend.trans (inherits_serve id txs pool')
      | error => exact hsend

theorem inherits_addPeer {p : Peer} (hp : p.weight.timeouts = 0) (pool : Pool) :
    pool.Inherits (pool.takeId.1.addPeer p) := by
  intro q hq
  rcases List.mem_append.1 hq with hq | hq
  · exact Inherits.refl pool q hq
  · rw [List.mem_singleton.1 hq, hp]
    exact .inl rfl

theorem inherits_register {p : Peer} (hk : pool.Keyed) (hid : p.id = pool.nextId) (hp : p.weight.timeouts = 0)
    (h : (pool.takeId.1.addPeer p).register p = .ok pool') : pool.Inherits pool' := by
  obtain ⟨-, book, rfl, -⟩ := register_eq_ok h
  intro q hq
  obtain ⟨o, ho, rfl⟩ := List.mem_map.1 hq
  rcases List.mem_append.1 ho with ho | ho
  · have hother : o.id ≠ p.id := hid ▸ Nat.ne_of_lt (hk.used o ho)
    rw [if_neg hother]
    exact Inherits.refl pool o ho
  · rw [List.mem_singleton.1 ho, if_pos rfl]
    exact .inl hp

theorem inherits_remove (p : Peer) {f : Peer → Peer} (g : SocketAddress → AddressBook → AddressBook)
    (hid : ∀ q, (f q).id = q.id) (hweight : ∀ q, (f q).weight = q.weight) (pool : Pool) :
    pool.Inherits (pool.remove p f g) := by
  obtain ⟨book, heq, -⟩ := remove_eq p f g pool
  have hleft := inherits_modify (f := fun q => { f q with pooled := false }) p.id hid
    (fun q => congrArg Weight.timeouts (hweight q)) (fun _ h => by cases h) pool
  rw [heq]
  exact hleft

theorem inherits_sessionEnded (id : PeerId) (reason : DisconnectReason) (pool : Pool) :
    pool.Inherits (pool.sessionEnded id reason) := by
  unfold sessionEnded
  split
  · exact .refl pool
  · rename_i p _
    exact inherits_remove p (f := fun p => p) (standing reason) (fun _ => rfl) (fun _ => rfl) pool

theorem inherits_replace (id : PeerId) (pool : Pool) : pool.Inherits (pool.replace id) := by
  unfold replace
  cases pool.peer? id with
  | none => exact .refl pool
  | some p =>
    have hleft := inherits_remove p (f := (·.disconnect .replaced)) AddressBook.markBad (fun _ => rfl) (fun _ => rfl) pool
    dsimp only
    split
    · exact hleft
    · exact hleft.trans (.of_peers_eq rfl)

theorem inherits_penaliseError (id : PeerId) (pool : Pool) : pool.Inherits (pool.penaliseError id).1 := by
  have hcount := inherits_modify id (f := Peer.addError) (fun _ => rfl) (fun _ => rfl) (fun _ h => h) pool
  unfold penaliseError
  split
  · exact .refl pool
  · dsimp only
    split
    · exact hcount.trans (inherits_replace id _)
    · exact hcount

/-! ## Addresses and dials -/

theorem peers_addAddresses : ∀ (found : List SocketAddress) (pool : Pool),
    (pool.addAddresses found).1.peers = pool.peers
  | [], _ => rfl
  | a :: found, pool => by
    have hone : (pool.addAddress a).1.peers = pool.peers := by
      unfold addAddress
      split_ifs <;> rfl
    exact (peers_addAddresses found _).trans hone

theorem peers_enqueueAll (mode : DialMode) : ∀ (addresses : List SocketAddress) (pool : Pool),
    (pool.enqueueAll mode addresses).peers = pool.peers
  | [], _ => rfl
  | _ :: addresses, _ => peers_enqueueAll mode addresses _

theorem peers_check (pool : Pool) : pool.check.peers = pool.peers := by
  obtain ⟨mode, addresses, hrefill, -⟩ := pool.refill_dials
  have hdials : pool.refill.peers = pool.peers := hrefill ▸ peers_enqueueAll mode addresses pool
  rcases pool.check_cases with h | h
  · rw [h]
    exact hdials
  · rw [h]
    exact hdials

theorem inherits_finishDial (hk : pool.Keyed) (now : Instant) (job : DialJob) (outcome : DialOutcome) :
    pool.Inherits (pool.finishDial now job outcome) := by
  unfold finishDial
  cases outcome with
  | error e => exact .of_peers_eq rfl
  | ok remote =>
    let dialed : Pool := { pool with jobs := pool.jobs.erase job }
    let p := (Peer.connecting pool.nextId job.addr false now).activate remote
    have hdialed : pool.Inherits dialed := .of_peers_eq rfl
    have hmet : pool.Inherits (dialed.takeId.1.addPeer p) := inherits_addPeer rfl dialed
    have hhung := hmet.trans
      (inherits_modify p.id (f := (·.disconnect .shutdown)) (fun _ => rfl) (fun _ => rfl) (fun _ h => h) _)
    dsimp only
    split
    · exact hhung
    · split
      · rename_i joined heq
        exact hdialed.trans (inherits_register (p := p) ⟨hk.distinct, hk.used⟩ rfl rfl heq)
      · exact hhung
      · exact hhung

theorem inherits_churn (hk : pool.Keyed) (now : Instant) (c : Churn) : pool.Inherits (c.run now pool) := by
  cases c with
  | arrive addr inbound remote =>
    let p := (Peer.connecting pool.nextId addr inbound now).activate remote
    have hmet : pool.Inherits (pool.takeId.1.addPeer p) := inherits_addPeer rfl pool
    unfold Churn.run
    dsimp only
    split
    · rename_i joined heq
      exact inherits_register (p := p) hk rfl rfl heq
    · exact hmet.trans
        (inherits_modify _ (f := (·.disconnect .shutdown)) (fun _ => rfl) (fun _ => rfl) (fun _ h => h) _)
  | raise id height =>
    exact inherits_modify id (f := (·.raiseHeight height)) (fun _ => rfl) (fun _ => rfl) (fun _ h => h) pool
  | flush id => exact inherits_modify id (f := (·.drain.1)) (fun _ => rfl) (fun _ => rfl) (fun _ h => h) pool
  | shut id =>
    exact inherits_modify id (f := fun p => { p with outboxOpen := false }) (fun _ => rfl) (fun _ => rfl)
      (fun _ h => h) pool
  | hangUp id reason =>
    exact inherits_modify id (f := (·.disconnect reason)) (fun _ => rfl) (fun _ => rfl) (fun _ h => h) pool
  | leave id reason => exact inherits_sessionEnded id reason pool
  | replace id => exact inherits_replace id pool
  | addresses found => exact .of_peers_eq (peers_addAddresses found pool)
  | connect a =>
    unfold Churn.run connectTo
    dsimp only
    split <;> exact .of_peers_eq rfl
  | check => exact .of_peers_eq (peers_check pool)
  | query => exact inherits_sendEach _ _ pool
  | dialed job outcome => exact inherits_finishDial hk now job outcome
  | disconnectAll =>
    refine .of_map rfl (fun p => ?_) (fun p => ?_) fun p => ?_
    · split <;> rfl
    · split <;> rfl
    · split
      · exact fun h => nomatch h
      · exact fun h => h

variable [Digest]

theorem inherits_relayFrom (now : Instant) (sink : RelaySink) (tx : Transaction) (origin : Option PeerId) (pool : Pool) :
    pool.Inherits (pool.relayFrom now sink tx origin).1 := by
  unfold relayFrom
  dsimp only
  split
  · exact inherits_sendEach _ _ { pool with relay := (pool.relay.submit sink tx).1 }
  · exact .of_peers_eq rfl

theorem inherits_handle (now : Instant) (sink : RelaySink) (event : PoolEvent) (pool : Pool) :
    pool.Inherits (pool.handle now sink event) := by
  cases event with
  | transaction peer tx => exact inherits_relayFrom now sink tx (some peer) pool
  | addresses peer found => exact .of_peers_eq (peers_addAddresses found pool)
  | addressRequest peer =>
    show pool.Inherits (pool.answerAddressRequest now peer)
    unfold answerAddressRequest
    split
    · exact .refl pool
    · exact inherits_sendEach _ _ pool
  | inventory peer inventory =>
    unfold handle
    dsimp only
    split
    · exact .refl pool
    · split
      · exact .refl pool
      · exact inherits_getData now .tx _ peer pool
  | dataRequest peer inventory =>
    unfold handle
    dsimp only
    split
    · exact .refl pool
    · split
      · exact .refl pool
      · exact inherits_serve peer _ pool
  | disconnected peer addr reason => exact inherits_sessionEnded peer reason pool

end Pool

namespace Node

variable [Digest] {n : Node}

theorem inherits_receiveHeaders (peer : PeerId) (hs : List Header) (n : Node) :
    n.pool.Inherits (n.receiveHeaders peer hs).pool := by
  unfold receiveHeaders
  split
  · exact .refl _
  · exact .refl _
  · split
    · exact .refl _
    · dsimp only
      split
      · exact Pool.inherits_penaliseError peer n.pool
      · exact .refl _

theorem inherits_receiveBlock (now : Instant) (peer : PeerId) (b : Block) (raw : Bytes) (n : Node) :
    n.pool.Inherits (n.receiveBlock now peer b raw).pool := by
  cases hr : n.blockRequest? b.hash with
  | none =>
    rw [receiveBlock_of_none now peer raw hr]
    exact .refl _
  | some r =>
    have hnoted : n.pool.Inherits
        (noteSpeed now peer raw.length r (n.setBlocks (Assoc.erase b.hash n.sync.blocks))).pool := by
      obtain h | ⟨speed, h⟩ := noteSpeed_cases now peer raw.length r (n.setBlocks (Assoc.erase b.hash n.sync.blocks))
      · rw [h]
        exact .refl _
      · rw [h]
        exact Pool.inherits_modify peer (f := (·.addSpeed speed)) (fun _ => rfl) (fun _ => rfl) (fun _ h => h) n.pool
    rw [receiveBlock_of_requested hr]
    dsimp only
    split <;> exact hnoted

theorem inherits_persist (n : Node) : n.pool.Inherits n.persist.1.pool := by
  fun_induction persist n with
  | case1 n base pruned h => exact .refl _
  | case2 n base pruned e h n' l b hadd n'' count hrest ih =>
    rw [hrest] at ih
    have hstored : n.pool.Inherits (n.pool.blockPersisted b) := .of_peers_eq rfl
    exact hstored.trans ih
  | case3 n base pruned e h n' err hadd => exact Pool.inherits_penaliseError e.peer n.pool

end Node

theorem Action.inherits_act [Digest] {a : Action} (ha : a.isRound = false) (now : Instant) {n : Node}
    (hk : n.pool.Keyed) : n.pool.Inherits (a.act now n).pool := by
  cases a with
  | checkHeaders | checkBlocks | syncHeaders | syncBlocks | tick => cases ha
  | headers peer hs => exact n.inherits_receiveHeaders peer hs
  | block peer b raw => exact n.inherits_receiveBlock now peer b raw
  | persist => exact n.inherits_persist
  | churn c => exact Pool.inherits_churn hk now c
  | relay tx => exact Pool.inherits_relayFrom now n.sink tx none n.pool
  | event e => exact Pool.inherits_handle now n.sink e n.pool
  | wait d => exact .refl _

end ChainSync
