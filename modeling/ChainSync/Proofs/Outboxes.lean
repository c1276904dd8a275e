import ChainSync.Proofs.PoolRun

/-!
# What the pool tells its peers

Messages for a peer wait in its outbox until they are written. An operation
of the pool is `Quiet` if it announces no transaction and leaves those in
relay alone, whatever else it tells whomever. All operations are but three:
blocks take transactions out of relay, an accepted transaction is announced,
and to write an outbox empties it.
-/

namespace ChainSync

def Message.announces (h : Hash) : Message → Bool
  | .inv inventory => inventory.kind = .tx && inventory.hashes.contains h
  | _ => false

def Message.IsSilent (m : Message) : Prop :=
  ∀ h, m.announces h = false

namespace Pool

def outboxOf (id : PeerId) (pool : Pool) : List Message :=
  ((pool.find? id).map Peer.outbox).getD []

structure Keyed (pool : Pool) : Prop where
  distinct : (pool.peers.map Peer.id).Nodup
  used : ∀ p ∈ pool.peers, p.id < pool.nextId

structure Quiet (pool pool' : Pool) : Prop where
  relay : pool'.relay = pool.relay
  keyed : pool.Keyed → pool'.Keyed
  told : ∀ id, ∃ ms, pool'.outboxOf id = pool.outboxOf id ++ ms ∧ ∀ m ∈ ms, m.IsSilent

variable {pool pool' pool'' : Pool} {id k : PeerId} {f : Peer → Peer}

theorem Quiet.refl (pool : Pool) : pool.Quiet pool where
  relay := rfl
  keyed := fun hk => hk
  told := fun _ => ⟨[], (List.append_nil _).symm, nofun⟩

theorem Quiet.trans (q : pool.Quiet pool') (q' : pool'.Quiet pool'') : pool.Quiet pool'' where
  relay := q'.relay.trans q.relay
  keyed := fun hk => q'.keyed (q.keyed hk)
  told := by
    intro id
    obtain ⟨ms, h, hms⟩ := q.told id
    obtain ⟨ms', h', hms'⟩ := q'.told id
    refine ⟨ms ++ ms', by rw [h', h, List.append_assoc], fun m hm => ?_⟩
    exact (List.mem_append.1 hm).elim (hms m) (hms' m)

/-! ## Changing peers in place -/

section
variable {g : Peer → Peer} (hpeers : pool'.peers = pool.peers.map g) (hid : ∀ p, (g p).id = p.id)
include hpeers hid

theorem find?_of_map (id : PeerId) : pool'.find? id = (pool.find? id).map g := by
  have hsame : (fun p : Peer => decide (p.id = id)) ∘ g = fun p => decide (p.id = id) := by
    funext p
    simp [hid]
  unfold find?
  rw [hpeers, List.find?_map, hsame]

theorem Keyed.of_map (hk : pool.Keyed) (hnext : pool'.nextId = pool.nextId) : pool'.Keyed := by
  constructor
  case distinct =>
    have hids : Peer.id ∘ g = Peer.id := funext hid
    rw [hpeers, List.map_map, hids]
    exact hk.distinct
  case used =>
    intro q hq
    rw [hpeers] at hq
    obtain ⟨p, hp, rfl⟩ := List.mem_map.1 hq
    rw [hid, hnext]
    exact hk.used p hp

theorem Quiet.of_map (hbox : ∀ p, (g p).outbox = p.outbox) (hnext : pool'.nextId = pool.nextId)
    (hrelay : pool'.relay = pool.relay) : pool.Quiet pool' where
  relay := hrelay
  keyed := fun hk => hk.of_map hpeers hid hnext
  told := by
    intro id
    refine ⟨[], ?_, nofun⟩
    have hsame : Peer.outbox ∘ g = Peer.outbox := funext hbox
    rw [outboxOf, find?_of_map hpeers hid, Option.map_map, hsame, List.append_nil, outboxOf]

end

theorem Quiet.of_peers_eq (hpeers : pool'.peers = pool.peers) (hnext : pool'.nextId = pool.nextId)
    (hrelay : pool'.relay = pool.relay) : pool.Quiet pool' :=
  .of_map (hpeers.trans (List.map_id _).symm) (fun _ => rfl) (fun _ => rfl) hnext hrelay

theorem quiet_modify (id : PeerId) (hid : ∀ p, (f p).id = p.id) (hbox : ∀ p, (f p).outbox = p.outbox) (pool : Pool) :
    pool.Quiet (pool.modify id f) := by
  refine .of_map rfl (fun p => ?_) (fun p => ?_) rfl rfl
  · split
    · exact hid p
    · rfl
  · split
    · exact hbox p
    · rfl

theorem find?_id {p : Peer} (h : pool.find? id = some p) : p.id = id := by
  simpa using List.find?_some h

theorem find?_put {p : Peer} (hp : pool.find? id = some p) {q : Peer} (hq : q.id = id) (k : PeerId) :
    (pool.modify id fun _ => q).find? k = if k = id then some q else pool.find? k := by
  have hmap : (pool.modify id fun _ => q).find? k = (pool.find? k).map fun p => if p.id = id then q else p := by
    refine find?_of_map rfl (fun r => ?_) k
    split
    case isTrue hr => rw [hq, hr]
    case isFalse => rfl
  rw [hmap]
  by_cases hk : k = id
  · rw [if_pos hk, hk, hp, Option.map_some, if_pos (find?_id hp)]
  · rw [if_neg hk]
    cases hr : pool.find? k with
    | none => rfl
    | some r => rw [Option.map_some, if_neg (find?_id hr ▸ hk)]

theorem Keyed.put (hk : pool.Keyed) {q : Peer} (hq : q.id = id) : (pool.modify id fun _ => q).Keyed := by
  refine hk.of_map rfl (fun p => ?_) rfl
  split
  case isTrue hp => rw [hq, hp]
  case isFalse => rfl

/-! ## Telling one peer -/

theorem withPeer_told {f : Peer → Peer × Except NetError Unit} (hf : ∀ p, (f p).1.id = p.id) (id k : PeerId)
    (pool : Pool) :
    (pool.withPeer id f).1.outboxOf k = pool.outboxOf k ∨
      k = id ∧ ∃ p, (pool.withPeer id f).1.outboxOf k = (f p).1.outbox ∧ pool.outboxOf k = p.outbox := by
  unfold withPeer
  cases hp : pool.find? id with
  | none => exact Or.inl rfl
  | some p =>
    have hq : (f p).1.id = id := (hf p).trans (find?_id hp)
    by_cases hk : k = id
    · refine Or.inr ⟨hk, p, ?_, ?_⟩
      · rw [outboxOf, find?_put hp hq, if_pos hk]
        rfl
      · rw [outboxOf, hk, hp]
        rfl
    · refine Or.inl ?_
      rw [outboxOf, find?_put hp hq, if_neg hk, outboxOf]

theorem Keyed.withPeer (hk : pool.Keyed) {f : Peer → Peer × Except NetError Unit} (hf : ∀ p, (f p).1.id = p.id)
    (id : PeerId) : (pool.withPeer id f).1.Keyed := by
  unfold Pool.withPeer
  cases hp : pool.find? id with
  | none => exact hk
  | some p => exact hk.put ((hf p).trans (find?_id hp))

theorem relay_withPeer (id : PeerId) (f : Peer → Peer × Except NetError Unit) (pool : Pool) :
    (pool.withPeer id f).1.relay = pool.relay := by
  unfold withPeer
  cases pool.find? id <;> rfl

theorem quiet_withPeer {f : Peer → Peer × Except NetError Unit} (hid : ∀ p, (f p).1.id = p.id)
    (htold : ∀ p, ∃ ms, (f p).1.outbox = p.outbox ++ ms ∧ ∀ m ∈ ms, m.IsSilent) (id : PeerId) (pool : Pool) :
    pool.Quiet (pool.withPeer id f).1 where
  relay := relay_withPeer id f pool
  keyed := fun hk => hk.withPeer hid id
  told := by
    intro k
    obtain h | ⟨-, p, h, hp⟩ := withPeer_told hid id k pool
    · exact ⟨[], by rw [h, List.append_nil], nofun⟩
    · rw [h, hp]
      exact htold p

theorem send_cases (m : Message) (p : Peer) :
    (p.send m).1 = p ∨ (p.send m).1 = { p with outbox := p.outbox ++ [m] } := by
  unfold Peer.send
  by_cases hstate : p.state = .disconnected
  · rw [if_pos hstate]
    exact Or.inl rfl
  · rw [if_neg hstate]
    by_cases hopen : ¬p.outboxOpen
    · rw [if_pos hopen]
      exact Or.inl rfl
    · rw [if_neg hopen]
      split
      · exact Or.inl rfl
      · exact Or.inr rfl

theorem id_send (m : Message) (p : Peer) : (p.send m).1.id = p.id := by
  obtain h | h := send_cases m p <;> rw [h]

theorem told_send {m : Message} (hm : m.IsSilent) (p : Peer) :
    ∃ ms, (p.send m).1.outbox = p.outbox ++ ms ∧ ∀ m ∈ ms, m.IsSilent := by
  obtain h | h := send_cases m p
  · exact ⟨[], by rw [h, List.append_nil], nofun⟩
  · exact ⟨[m], by rw [h], fun x hx => List.mem_singleton.1 hx ▸ hm⟩

theorem quiet_send {m : Message} (hm : m.IsSilent) (id : PeerId) (pool : Pool) :
    pool.Quiet (pool.withPeer id (·.send m)).1 :=
  quiet_withPeer (id_send m) (told_send hm) id pool

theorem quiet_getHeaders (now : Instant) (start : Hash) (id : PeerId) (pool : Pool) :
    pool.Quiet (pool.withPeer id (·.getHeaders now start)).1 :=
  quiet_withPeer (f := (·.getHeaders now start)) (fun p => id_send _ (p.noteRequest now))
    (fun p => told_send (fun _ => rfl) (p.noteRequest now)) id pool

theorem quiet_getData (now : Instant) (kind : InventoryKind) (hashes : List Hash) (id : PeerId) (pool : Pool) :
    pool.Quiet (pool.withPeer id (·.getData now kind hashes)).1 := by
  have hcases : ∀ p : Peer, (p.getData now kind hashes).1 = p ∨ ∃ q : Peer, q.id = p.id ∧ q.outbox = p.outbox ∧
      (p.getData now kind hashes).1 = (q.send (.getdata ⟨kind, hashes⟩)).1 := by
    intro p
    unfold Peer.getData
    split
    · exact Or.inl rfl
    · by_cases hkind : kind = .block
      · exact Or.inr ⟨p.noteRequest now, rfl, rfl, by rw [if_pos hkind]⟩
      · exact Or.inr ⟨p, rfl, rfl, by rw [if_neg hkind]⟩
  refine quiet_withPeer (fun p => ?_) (fun p => ?_) id pool
  · obtain h | ⟨q, hid, -, h⟩ := hcases p
    · rw [h]
    · rw [h, id_send, hid]
  · obtain h | ⟨q, -, hbox, h⟩ := hcases p
    · exact ⟨[], by rw [h, List.append_nil], nofun⟩
    · rw [h, ← hbox]
      exact told_send (fun _ => rfl) q

theorem quiet_sendEach {m : Message} (hm : m.IsSilent) : ∀ (ids : List PeerId) (pool : Pool),
    pool.Quiet (pool.sendEach ids m)
  | [], pool => .refl pool
  | id :: ids, pool => (quiet_send hm id pool).trans (quiet_sendEach hm ids _)

theorem quiet_serve (id : PeerId) : ∀ (txs : List Transaction) (pool : Pool), pool.Quiet (pool.serve id txs)
  | [], pool => .refl pool
  | tx :: txs, pool => by
    have hsend : pool.Quiet (pool.withPeer id (·.send (.tx tx))).1 := quiet_send (fun _ => rfl) id pool
    unfold serve
    cases hr : pool.withPeer id (·.send (.tx tx)) with
    | mk pool' result =>
      rw [hr] at hsend
      cases result with
      | ok => exact hsend.trans (quiet_serve id txs pool')
      | error => exact hsend

/-! ## Joining and leaving -/

theorem quiet_meet {p : Peer} (hid : p.id = pool.nextId) (hbox : p.outbox = []) :
    pool.Quiet (pool.takeId.1.addPeer p) where
  relay := rfl
  keyed := by
    intro hk
    constructor
    · show (pool.peers ++ [p]).map Peer.id |>.Nodup
      rw [List.map_append, List.map_singleton, List.nodup_append_comm, List.singleton_append, List.nodup_cons]
      refine ⟨fun hmem => ?_, hk.distinct⟩
      obtain ⟨q, hq, heq⟩ := List.mem_map.1 hmem
      have hlt := hk.used q hq
      rw [heq, hid] at hlt
      exact Nat.lt_irrefl _ hlt
    · intro q hq
      show q.id < pool.nextId + 1
      rcases List.mem_append.1 hq with hq | hq
      · exact Nat.lt_succ_of_lt (hk.used q hq)
      · rw [List.mem_singleton.1 hq, hid]
        exact Nat.lt_succ_self _
  told := by
    intro id
    refine ⟨[], ?_, nofun⟩
    have hfind : (pool.takeId.1.addPeer p).find? id = (pool.find? id).or ([p].find? (·.id = id)) := List.find?_append
    rw [List.append_nil, outboxOf, hfind, outboxOf]
    cases pool.find? id with
    | some q => rfl
    | none =>
      rw [Option.none_or, List.find?_singleton]
      split
      · exact hbox
      · rfl

theorem quiet_register {p : Peer} (h : pool.register p = .ok pool') : pool.Quiet pool' := by
  obtain ⟨-, book, rfl, -⟩ := register_eq_ok h
  exact (quiet_modify p.id (f := fun q => { q with pooled := true }) (fun _ => rfl) (fun _ => rfl) pool).trans
    (.of_peers_eq rfl rfl rfl)

theorem quiet_remove (p : Peer) (g : SocketAddress → AddressBook → AddressBook) (hid : ∀ q, (f q).id = q.id)
    (hbox : ∀ q, (f q).outbox = q.outbox) (pool : Pool) : pool.Quiet (pool.remove p f g) := by
  obtain ⟨book, heq, -⟩ := remove_eq p f g pool
  rw [heq]
  exact (quiet_modify p.id (f := fun q => { f q with pooled := false }) hid hbox pool).trans (.of_peers_eq rfl rfl rfl)

theorem quiet_enqueue (a : SocketAddress) (mode : DialMode) (pool : Pool) : pool.Quiet (pool.enqueue a mode) :=
  .of_peers_eq rfl rfl rfl

theorem quiet_replace (id : PeerId) (pool : Pool) : pool.Quiet (pool.replace id) := by
  unfold replace
  cases pool.peer? id with
  | none => exact .refl pool
  | some p =>
    have hleave : pool.Quiet (pool.remove p (·.disconnect .replaced) AddressBook.markBad) :=
      quiet_remove p (f := (·.disconnect .replaced)) _ (fun _ => rfl) (fun _ => rfl) pool
    dsimp only
    split
    · exact hleave
    · exact hleave.trans (quiet_enqueue _ _ _)

theorem quiet_sessionEnded (id : PeerId) (reason : DisconnectReason) (pool : Pool) :
    pool.Quiet (pool.sessionEnded id reason) := by
  unfold sessionEnded
  split
  · exact .refl pool
  · exact quiet_remove _ _ (fun _ => rfl) (fun _ => rfl) pool

theorem quiet_penalise (id : PeerId) (hid : ∀ q, (f q).id = q.id) (hbox : ∀ q, (f q).outbox = q.outbox) (c : Prop)
    [Decidable c] (pool : Pool) :
    pool.Quiet (if c then ((pool.modify id f).replace id, true) else (pool.modify id f, false)).1 := by
  have hcount := quiet_modify id hid hbox pool
  split
  · exact hcount.trans (quiet_replace id _)
  · exact hcount

theorem quiet_penaliseError (id : PeerId) (pool : Pool) : pool.Quiet (pool.penaliseError id).1 := by
  unfold penaliseError
  split
  · exact .refl pool
  · exact quiet_penalise id (f := Peer.addError) (fun _ => rfl) (fun _ => rfl) _ pool

theorem quiet_penaliseTimeout (id : PeerId) (pool : Pool) : pool.Quiet (pool.penaliseTimeout id).1 := by
  unfold penaliseTimeout
  split
  · exact .refl pool
  · exact quiet_penalise id (f := Peer.addTimeout) (fun _ => rfl) (fun _ => rfl) _ pool

theorem quiet_disconnectAll (pool : Pool) : pool.Quiet pool.disconnectAll := by
  refine .of_map rfl (fun p => ?_) (fun p => ?_) rfl rfl
  · split <;> rfl
  · split <;> rfl

/-! ## Addresses and dials -/

theorem quiet_addAddresses : ∀ (found : List SocketAddress) (pool : Pool), pool.Quiet (pool.addAddresses found).1
  | [], pool => .refl pool
  | a :: found, pool => by
    have hone : pool.Quiet (pool.addAddress a).1 := by
      unfold addAddress
      split_ifs <;> exact .of_peers_eq rfl rfl rfl
    exact hone.trans (quiet_addAddresses found _)

theorem quiet_connectTo (a : SocketAddress) (pool : Pool) : pool.Quiet (pool.connectTo a).1 := by
  unfold connectTo
  split_ifs <;> exact .of_peers_eq rfl rfl rfl

theorem quiet_enqueueAll (mode : DialMode) : ∀ (addresses : List SocketAddress) (pool : Pool),
    pool.Quiet (pool.enqueueAll mode addresses)
  | [], pool => .refl pool
  | a :: addresses, pool => (quiet_enqueue a mode pool).trans (quiet_enqueueAll mode addresses _)

theorem quiet_check (pool : Pool) : pool.Quiet pool.check := by
  obtain ⟨mode, addresses, hrefill, -⟩ := pool.refill_dials
  have hdials : pool.Quiet pool.refill := hrefill ▸ quiet_enqueueAll mode addresses pool
  rcases pool.check_cases with h | h
  · rw [h]
    exact hdials
  · rw [h]
    exact hdials.trans (.of_peers_eq rfl rfl rfl)

theorem quiet_finishDial (now : Instant) (job : DialJob) (outcome : DialOutcome) (pool : Pool) :
    pool.Quiet (pool.finishDial now job outcome) := by
  unfold finishDial
  cases outcome with
  | error e => exact .of_peers_eq rfl rfl rfl
  | ok remote =>
    let dialed : Pool := { pool with jobs := pool.jobs.erase job }
    let p := (Peer.connecting pool.nextId job.addr false now).activate remote
    let met := dialed.takeId.1.addPeer p
    have hdialed : pool.Quiet dialed := .of_peers_eq rfl rfl rfl
    have hmet : pool.Quiet met := hdialed.trans (quiet_meet rfl rfl)
    have hhung : pool.Quiet (met.modify p.id (·.disconnect .shutdown)) :=
      hmet.trans (quiet_modify p.id (f := (·.disconnect .shutdown)) (fun _ => rfl) (fun _ => rfl) met)
    have hsettled : ∀ book, pool.Quiet { met.modify p.id (·.disconnect .shutdown) with book } := fun book =>
      hhung.trans (.of_peers_eq rfl rfl rfl)
    dsimp only
    split
    · exact hsettled _
    · split
      · rename_i joined heq
        exact hmet.trans (quiet_register heq)
      · exact hsettled _
      · exact hsettled _

/-! ## Whatever befalls the pool -/

theorem quiet_churn (now : Instant) {c : Churn} (hc : ∀ id, c ≠ .flush id) (pool : Pool) :
    pool.Quiet (c.run now pool) := by
  cases c with
  | flush id => exact absurd rfl (hc id)
  | arrive addr inbound remote =>
    let p := (Peer.connecting pool.nextId addr inbound now).activate remote
    have hmet : pool.Quiet (pool.takeId.1.addPeer p) := quiet_meet rfl rfl
    unfold Churn.run
    dsimp only
    split
    · rename_i joined heq
      exact hmet.trans (quiet_register heq)
    · exact hmet.trans (quiet_modify _ (f := (·.disconnect .shutdown)) (fun _ => rfl) (fun _ => rfl) _)
  | raise id height => exact quiet_modify id (f := (·.raiseHeight height)) (fun _ => rfl) (fun _ => rfl) pool
  | shut id => exact quiet_modify id (f := fun p => { p with outboxOpen := false }) (fun _ => rfl) (fun _ => rfl) pool
  | hangUp id reason => exact quiet_modify id (f := (·.disconnect reason)) (fun _ => rfl) (fun _ => rfl) pool
  | leave id reason => exact quiet_sessionEnded id reason pool
  | replace id => exact quiet_replace id pool
  | addresses found => exact quiet_addAddresses found pool
  | connect a => exact quiet_connectTo a pool
  | check => exact quiet_check pool
  | query => exact quiet_sendEach (fun _ => rfl) _ pool
  | dialed job outcome => exact quiet_finishDial now job outcome pool
  | disconnectAll => exact quiet_disconnectAll pool

theorem outboxOf_flush (id k : PeerId) (pool : Pool) :
    (pool.modify id (·.drain.1)).outboxOf k = if k = id then [] else pool.outboxOf k := by
  have hfind : (pool.modify id (·.drain.1)).find? k = (pool.find? k).map fun p => if p.id = id then p.drain.1 else p := by
    refine find?_of_map rfl (fun p => ?_) k
    split <;> rfl
  rw [outboxOf, hfind, outboxOf]
  cases hp : pool.find? k with
  | none => exact (ite_self _).symm
  | some p =>
    rw [Option.map_some, find?_id hp]
    split <;> rfl

variable [Digest]

theorem quiet_handle (now : Instant) (sink : RelaySink) {event : PoolEvent}
    (hevent : ∀ peer tx, event ≠ .transaction peer tx) (pool : Pool) : pool.Quiet (pool.handle now sink event) := by
  cases event with
  | transaction peer tx => exact absurd rfl (hevent peer tx)
  | addresses peer found => exact quiet_addAddresses found pool
  | addressRequest peer =>
    show pool.Quiet (pool.answerAddressRequest now peer)
    unfold answerAddressRequest
    split
    · exact .refl pool
    · exact quiet_sendEach (fun _ => rfl) _ pool
  | inventory peer inventory =>
    unfold handle
    dsimp only
    split
    · exact .refl pool
    · split
      · exact .refl pool
      · exact quiet_getData now .tx _ peer pool
  | dataRequest peer inventory =>
    unfold handle
    dsimp only
    split
    · exact .refl pool
    · split
      · exact .refl pool
      · exact quiet_serve peer _ pool
  | disconnected peer addr reason => exact quiet_sessionEnded peer reason pool

/-! ## Announcements -/

omit [Digest] in
theorem relay_sendEach (m : Message) : ∀ (ids : List PeerId) (pool : Pool), (pool.sendEach ids m).relay = pool.relay
  | [], _ => rfl
  | id :: ids, _ => (relay_sendEach m ids _).trans (relay_withPeer id (·.send m) _)

omit [Digest] in
theorem Keyed.sendEach (m : Message) : ∀ (ids : List PeerId) {pool : Pool}, pool.Keyed → (pool.sendEach ids m).Keyed
  | [], _, hk => hk
  | id :: ids, _, hk => Keyed.sendEach m ids (hk.withPeer (id_send m) id)

omit [Digest] in
theorem sendEach_told (m : Message) : ∀ (ids : List PeerId) (pool : Pool), ids.Nodup → ∀ k,
    (pool.sendEach ids m).outboxOf k = pool.outboxOf k ∨
      k ∈ ids ∧ (pool.sendEach ids m).outboxOf k = pool.outboxOf k ++ [m]
  | [], _, _, _ => Or.inl rfl
  | id :: ids, pool, hd, k => by
    obtain ⟨hnew, hd⟩ := List.nodup_cons.1 hd
    have htold := sendEach_told m ids (pool.withPeer id (·.send m)).1 hd k
    change (Pool.sendEach ids m _).outboxOf k = _ ∨ _ ∧ (Pool.sendEach ids m _).outboxOf k = _
    obtain hfirst | ⟨rfl, p, hfirst, hp⟩ := withPeer_told (id_send m) id k pool
    · rw [← hfirst]
      exact htold.imp_right (And.imp_left (List.mem_cons_of_mem _))
    · obtain h | ⟨hk, -⟩ := htold
      · rw [h, hfirst, hp]
        obtain hs | hs := send_cases m p <;> rw [hs]
        · exact Or.inl rfl
        · exact Or.inr ⟨List.mem_cons_self .., rfl⟩
      · exact absurd hk hnew

omit [Digest] in
theorem Keyed.nodup_ranked (hk : pool.Keyed) (now : Instant) : ((pool.ranked now).map Peer.id).Nodup := by
  have hperm : ((pool.ranked now).map Peer.id).Perm ((pool.pooledPeers.filter Peer.isActive).map Peer.id) :=
    (List.mergeSort_perm _ _).map Peer.id
  have hsub : ((pool.pooledPeers.filter Peer.isActive).map Peer.id).Sublist (pool.peers.map Peer.id) :=
    (List.filter_sublist.trans List.filter_sublist).map Peer.id
  exact hperm.nodup_iff.2 (hsub.nodup hk.distinct)

section
variable (now : Instant) (sink : RelaySink) (tx : Transaction) (origin : Option PeerId)

theorem relay_relayFrom (pool : Pool) :
    (pool.relayFrom now sink tx origin).1.relay = (pool.relay.submit sink tx).1 := by
  unfold relayFrom
  dsimp only
  split
  · exact relay_sendEach ..
  · rfl

theorem result_relayFrom (pool : Pool) :
    (pool.relayFrom now sink tx origin).2 = (pool.relay.submit sink tx).2 := by
  unfold relayFrom
  dsimp only
  split <;> rfl

theorem Keyed.relayFrom (hk : pool.Keyed) : (pool.relayFrom now sink tx origin).1.Keyed := by
  have hadmitted : Keyed { pool with relay := (pool.relay.submit sink tx).1 } := ⟨hk.distinct, hk.used⟩
  unfold Pool.relayFrom
  dsimp only
  split
  · exact hadmitted.sendEach ..
  · exact hadmitted

/-- An accepted transaction is announced once to each of some peers, the one that it came from not among them. -/
theorem Keyed.relayFrom_told (hk : pool.Keyed) (id : PeerId) :
    (pool.relayFrom now sink tx origin).1.outboxOf id = pool.outboxOf id ∨
      (pool.relayFrom now sink tx origin).2 = .accepted ∧ some id ≠ origin ∧
        (pool.relayFrom now sink tx origin).1.outboxOf id = pool.outboxOf id ++ [.inv ⟨.tx, [tx.hash]⟩] := by
  unfold Pool.relayFrom
  dsimp only
  split
  case isFalse => exact Or.inl rfl
  case isTrue haccepted =>
    let admitted : Pool := { pool with relay := (pool.relay.submit sink tx).1 }
    have hids : (((admitted.ranked now).map Peer.id).filter fun id => some id ≠ origin).Nodup :=
      (hk.nodup_ranked now).filter _
    obtain h | ⟨hid, h⟩ := sendEach_told (.inv ⟨.tx, [tx.hash]⟩) _ admitted hids id
    · exact Or.inl h
    · exact Or.inr ⟨haccepted, by simpa using (List.mem_filter.1 hid).2, h⟩

end

end Pool

end ChainSync
