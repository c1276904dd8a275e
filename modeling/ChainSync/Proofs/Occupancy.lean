import ChainSync.Proofs.LocalAddresses

/-!
# Seats that are spoken for

A dial that is to join speaks for a seat of the pool. As long as only the pool
itself has addresses dialed, and nobody joins but at the end of such a dial,
every queued address has one dial, and no more seats are spoken for than are
free: a dial that gets through finds its seat.
-/

namespace ChainSync

/-! ## Verdicts -/

namespace AddressBook

variable {a : SocketAddress} {b : AddressBook}

theorem drop_of_connected (hb : b.Sound) (h : b.isConnected a = true) : drop a b.queued = b.queued :=
  drop_of_notMem fun hq => hb.disjoint .queued .connected (by decide) hq (isConnected_iff.1 h)

theorem queued_markBad (hb : b.Sound) : (b.markBad a).queued = drop a b.queued := by
  unfold markBad
  by_cases h : b.isConnected a = true
  · rw [if_pos h, drop_of_connected hb h]
  · rw [if_neg h]

theorem queued_markKnown (probed : Bool) (hb : b.Sound) : (b.markKnown a probed).queued = drop a b.queued := by
  unfold markKnown
  by_cases h : b.isConnected a = true
  · rw [if_pos h, drop_of_connected hb h]
  · rw [if_neg h]

end AddressBook

namespace Pool

def spokenFor (pool : Pool) : Nat :=
  pool.jobs.countP (·.mode = .join)

def dialedPeer (now : Instant) (job : DialJob) (remote : Version) (pool : Pool) : Peer :=
  (Peer.connecting pool.nextId job.addr false now).activate remote

/-- The dials are those of the queued addresses, and there is a seat for each that is to join. -/
structure Provides (pool : Pool) : Prop where
  dialed : (pool.jobs.map DialJob.addr).Perm pool.book.queued
  seats : pool.count + pool.spokenFor ≤ pool.config.maxClients

variable {pool pool' pool'' : Pool} {id : PeerId} {p : Peer} {a : SocketAddress} {job : DialJob} {mode : DialMode}

/-! ## Counting -/

theorem count_eq_countP (pool : Pool) : pool.count = pool.peers.countP Peer.pooled :=
  List.countP_eq_length_filter.symm

theorem count_meet (hpooled : p.pooled = false) : (pool.takeId.1.addPeer p).count = pool.count := by
  have hnew : [p].countP Peer.pooled = 0 := by simp [hpooled]
  rw [count_eq_countP, count_eq_countP]
  exact List.countP_append.trans (by rw [hnew]; rfl)

theorem count_modify_le {f : Peer → Peer} (hf : ∀ q, (f q).pooled = true → q.pooled = true) (id : PeerId)
    (pool : Pool) : (pool.modify id f).count ≤ pool.count := by
  rw [count_eq_countP, count_eq_countP]
  refine Nat.le_trans (Nat.le_of_eq List.countP_map) (List.countP_mono_left fun q _ => ?_)
  show (if q.id = id then f q else q).pooled = true → q.pooled = true
  split
  · exact hf q
  · exact fun h => h

theorem count_remove_lt (hp : p ∈ pool.peers) (hpooled : p.pooled = true) (f : Peer → Peer)
    (g : SocketAddress → AddressBook → AddressBook) : (pool.remove p f g).count < pool.count := by
  obtain ⟨book, heq, -⟩ := remove_eq p f g pool
  have hrest : (pool.remove p f g).count = (pool.pooledPeers.filter (·.id ≠ p.id)).length := by
    rw [heq, count_eq_countP, pooledPeers, List.filter_filter, ← List.countP_eq_length_filter]
    refine List.countP_map.trans (List.countP_congr fun q _ => ?_)
    by_cases hq : q.id = p.id <;> simp [hq]
  rw [hrest, count]
  exact List.length_filter_lt_length_iff_exists.2 ⟨p, List.mem_filter.2 ⟨hp, hpooled⟩, by simp⟩

theorem count_register_le (hd : (pool.peers.map Peer.id).Nodup) (h : pool.register p = .ok pool') :
    pool'.count ≤ pool.count + 1 := by
  obtain ⟨-, book, rfl, -⟩ := register_eq_ok h
  have hseats : (pool.modify p.id fun q => { q with pooled := true }).seats = setPooled p.id true pool.seats :=
    seats_modify_pooled fun _ => rfl
  rw [count_eq, count_eq]
  show (pool.modify p.id fun q => { q with pooled := true }).seats.countP Seat.pooled ≤ _
  rw [hseats]
  exact countP_setPooled_le true (ids_seats pool ▸ hd)

theorem spokenFor_le_queued (s : pool.Provides) : pool.spokenFor ≤ pool.book.queued.length := by
  rw [← s.dialed.length_eq, List.length_map]
  exact List.countP_le_length

theorem register_of_free (hroom : pool.count < pool.config.maxClients) (hl : p.listenAddr? = some a)
    (ha : a ∉ pool.book.addresses .connected) : pool.register p =
      .ok { pool.modify p.id (fun q => { q with pooled := true }) with book := pool.book.link a p.id } := by
  unfold register
  rw [if_neg (Nat.not_le.2 hroom), hl]
  exact if_neg (mt AddressBook.isConnected_iff.1 ha)

/-! ## Talk -/

structure Talks (pool pool' : Pool) : Prop where
  config : pool'.config = pool.config
  jobs : pool'.jobs = pool.jobs
  book : pool'.book = pool.book
  seats : (pool.peers.map Peer.id).Nodup → pool'.seats = pool.seats

theorem Talks.refl (pool : Pool) : Talks pool pool :=
  ⟨rfl, rfl, rfl, fun _ => rfl⟩

theorem Talks.trans (h : Talks pool pool') (h' : Talks pool' pool'') : Talks pool pool'' where
  config := h'.config.trans h.config
  jobs := h'.jobs.trans h.jobs
  book := h'.book.trans h.book
  seats := by
    intro hd
    have hsame := h.seats hd
    refine (h'.seats ?_).trans hsame
    rwa [← ids_seats, hsame, ids_seats]

theorem talks_touch {f : Peer → Peer} (h : ∀ q, pool.find? id = some q → (f q).seat = q.seat) :
    Talks pool (pool.modify id f) :=
  ⟨rfl, rfl, rfl, fun hd => seats_touch hd h⟩

theorem talks_withPeer {f : Peer → Peer × Except NetError Unit} (hf : ∀ q, (f q).1.seat = q.seat) (id : PeerId)
    (pool : Pool) : Talks pool (pool.withPeer id f).1 := by
  unfold withPeer
  cases hp : pool.find? id with
  | none => exact .refl pool
  | some p =>
    apply talks_touch
    intro q hq
    obtain rfl : p = q := Option.some.inj (hp.symm.trans hq)
    exact hf p

theorem talks_sendEach (m : Message) : ∀ (ids : List PeerId) (pool : Pool), Talks pool (pool.sendEach ids m)
  | [], pool => .refl pool
  | id :: ids, pool => (talks_withPeer (seat_send m) id pool).trans (talks_sendEach m ids _)

theorem talks_serve (id : PeerId) : ∀ (txs : List Transaction) (pool : Pool), Talks pool (pool.serve id txs)
  | [], pool => .refl pool
  | tx :: txs, pool => by
    have hsend : Talks pool (pool.withPeer id (·.send (.tx tx))).1 := talks_withPeer (seat_send _) id pool
    unfold serve
    cases hr : pool.withPeer id (·.send (.tx tx)) with
    | mk pool' result =>
      rw [hr] at hsend
      cases result with
      | ok => exact hsend.trans (talks_serve id txs pool')
      | error => exact hsend

theorem talks_relayFrom [Digest] (now : Instant) (sink : RelaySink) (tx : Transaction) (origin : Option PeerId)
    (pool : Pool) : Talks pool (pool.relayFrom now sink tx origin).1 := by
  have hsubmit : Talks pool { pool with relay := (pool.relay.submit sink tx).1 } := ⟨rfl, rfl, rfl, fun _ => rfl⟩
  unfold relayFrom
  dsimp only
  split
  · exact hsubmit.trans (talks_sendEach _ _ _)
  · exact hsubmit

/-! ## No more peers, and the same dials -/

namespace Provides

theorem of_count_le (s : pool.Provides) (hconfig : pool'.config = pool.config) (hjobs : pool'.jobs = pool.jobs)
    (hqueued : pool'.book.queued = pool.book.queued) (hcount : pool'.count ≤ pool.count) : pool'.Provides where
  dialed := by
    rw [hjobs, hqueued]
    exact s.dialed
  seats := by
    rw [spokenFor, hjobs, hconfig]
    exact (Nat.add_le_add_right hcount _).trans s.seats

theorem talks (s : pool.Provides) (w : pool.WellFormed) (h : Talks pool pool') : pool'.Provides := by
  refine s.of_count_le h.config h.jobs (congrArg AddressBook.queued h.book) (Nat.le_of_eq ?_)
  rw [count_eq, count_eq, h.seats w.distinct]

theorem meet (s : pool.Provides) (hpooled : p.pooled = false) : (pool.takeId.1.addPeer p).Provides :=
  s.of_count_le rfl rfl rfl (Nat.le_of_eq (count_meet hpooled))

theorem disconnectAll (s : pool.Provides) : pool.disconnectAll.Provides := by
  refine s.of_count_le rfl rfl rfl ?_
  have hnobody : pool.disconnectAll.count = 0 := by
    rw [count_eq_countP, List.countP_eq_zero]
    intro q hq
    obtain ⟨o, -, rfl⟩ := List.mem_map.1 hq
    by_cases ho : o.pooled = true <;> simp [ho]
  exact hnobody ▸ Nat.zero_le _

/-! ## Departures -/

theorem remove_frame (p : Peer) (f : Peer → Peer) (g : SocketAddress → AddressBook → AddressBook) (pool : Pool) :
    (pool.remove p f g).config = pool.config ∧ (pool.remove p f g).jobs = pool.jobs := by
  obtain ⟨book, heq, -⟩ := remove_eq p f g pool
  rw [heq]
  exact ⟨rfl, rfl⟩

theorem queued_standing (reason : DisconnectReason) {b : AddressBook} (hb : b.Sound) (h : a ∉ b.queued) :
    (standing reason a b).queued = b.queued := by
  have hdrop : AddressBook.drop a b.queued = b.queued := AddressBook.drop_of_notMem h
  cases reason with
  | protocolViolation | replaced => exact (AddressBook.queued_markBad hb).trans hdrop
  | closed | stalled => exact (AddressBook.queued_markKnown false hb).trans hdrop
  | shutdown => rfl

theorem queued_remove (w : pool.WellFormed) (hp : p ∈ pool.peers) (hpooled : p.pooled = true) (f : Peer → Peer)
    (reason : DisconnectReason) : (pool.remove p f (standing reason)).book.queued = pool.book.queued := by
  obtain ⟨book, heq, ⟨-, rfl⟩ | ⟨a, hl, rfl⟩⟩ := remove_eq p f (standing reason) pool
  · rw [heq]
  · have hconnected := w.mem_connected hp hpooled hl
    have hunlinked : (pool.book.unlink a p.id).queued = pool.book.queued := by
      unfold AddressBook.unlink
      split_ifs <;> rfl
    have hfree : a ∉ (pool.book.unlink a p.id).queued := by
      rw [hunlinked]
      exact fun hq => w.book.disjoint .queued .connected (by decide) hq hconnected
    rw [heq]
    exact (queued_standing reason (w.book.unlink a p.id) hfree).trans hunlinked

theorem remove (s : pool.Provides) (w : pool.WellFormed) (hp : p ∈ pool.peers) (hpooled : p.pooled = true)
    (f : Peer → Peer) (reason : DisconnectReason) : (pool.remove p f (standing reason)).Provides := by
  have hcount := count_remove_lt hp hpooled f (standing reason)
  have hqueued := queued_remove w hp hpooled f reason
  obtain ⟨hconfig, hjobs⟩ := remove_frame p f (standing reason) pool
  exact s.of_count_le hconfig hjobs hqueued (Nat.le_of_lt hcount)

theorem sessionEnded (s : pool.Provides) (w : pool.WellFormed) (id : PeerId) (reason : DisconnectReason) :
    (pool.sessionEnded id reason).Provides := by
  unfold Pool.sessionEnded
  cases hp : pool.peer? id with
  | none => exact s
  | some p =>
    obtain ⟨hmem, -, hpooled⟩ := of_peer? hp
    exact s.remove w hmem hpooled _ reason

/-! ## Asking for dials -/

theorem enqueue (s : pool.Provides) (ha : a ∉ pool.book.queued)
    (hseat : mode = .join → pool.count + pool.spokenFor < pool.config.maxClients) : (pool.enqueue a mode).Provides where
  dialed := by
    show ((pool.jobs ++ [DialJob.mk a mode]).map DialJob.addr).Perm (pool.book.queued.insert a)
    rw [List.map_append, List.insert_of_not_mem ha]
    exact List.perm_append_comm.trans (s.dialed.cons a)
  seats := by
    have hjobs : (pool.enqueue a mode).spokenFor = pool.spokenFor + [DialJob.mk a mode].countP (·.mode = .join) :=
      List.countP_append
    show pool.count + (pool.enqueue a mode).spokenFor ≤ pool.config.maxClients
    rw [hjobs]
    cases mode with
    | probe => exact s.seats
    | join => exact hseat rfl

/-- A known address takes the seat that a replaced peer gives up. -/
theorem replace (s : pool.Provides) (w : pool.WellFormed) (id : PeerId) : (pool.replace id).Provides := by
  unfold Pool.replace
  cases hp : pool.peer? id with
  | none => exact s
  | some p =>
    obtain ⟨hmem, -, hpooled⟩ := of_peer? hp
    let left := pool.remove p (·.disconnect .replaced) AddressBook.markBad
    have hleft : left.Provides := s.remove w hmem hpooled _ .replaced
    dsimp only
    cases ha : left.book.pickKnown? with
    | none => exact hleft
    | some a =>
      have hmove : Move False pool left :=
        .leave p .replaced _ hmem hpooled (fun _ => ⟨rfl, rfl⟩) (fun h => nomatch h)
      have hfree : a ∉ left.book.queued := fun hq =>
        (hmove.wellFormed w).book.disjoint .queued .known (by decide) hq (pickKnown?_mem ha)
      refine hleft.enqueue hfree fun _ => ?_
      have hcount : left.count < pool.count := count_remove_lt hmem hpooled _ _
      obtain ⟨hconfig, hjobs⟩ : left.config = pool.config ∧ left.jobs = pool.jobs := remove_frame ..
      have hseats := s.seats
      rw [spokenFor, hjobs, hconfig]
      rw [spokenFor] at hseats
      omega

theorem addAddress (s : pool.Provides) (a : SocketAddress) : (pool.addAddress a).1.Provides := by
  unfold Pool.addAddress
  split
  · exact s
  · rename_i h
    have hnew : ¬pool.book.isTracked a = true := by simp_all
    have hfree : a ∉ pool.book.queued := fun hq => hnew (AddressBook.isTracked_iff.2 ⟨.queued, hq⟩)
    split
    · rename_i hroom
      refine s.enqueue hfree fun _ => Nat.lt_of_le_of_lt ?_ hroom
      exact Nat.add_le_add_left (spokenFor_le_queued s) _
    · exact s.of_count_le rfl rfl rfl (Nat.le_refl _)

theorem addAddresses : ∀ (found : List SocketAddress) {pool : Pool}, pool.Provides → (pool.addAddresses found).1.Provides
  | [], _, s => s
  | a :: found, _, s => addAddresses found (s.addAddress a)

/-! ## Maintenance -/

theorem enqueueAll (mode : DialMode) : ∀ {addresses : List SocketAddress} {pool : Pool}, pool.Provides →
    addresses.Nodup → (∀ a ∈ addresses, a ∉ pool.book.queued) →
    (mode = .join → pool.count + pool.book.queued.length + addresses.length ≤ pool.config.maxClients) →
    (pool.enqueueAll mode addresses).Provides
  | [], _, s, _, _, _ => s
  | a :: addresses, pool, s, hd, hfree, hroom => by
    obtain ⟨hother, hd⟩ := List.nodup_cons.1 hd
    have ha : a ∉ pool.book.queued := hfree a (List.mem_cons_self ..)
    have hlonger : (pool.enqueue a mode).book.queued = a :: pool.book.queued := List.insert_of_not_mem ha
    have hspoken := spokenFor_le_queued s
    rw [List.length_cons] at hroom
    have hstep : (pool.enqueue a mode).Provides := s.enqueue ha fun hmode => by have := hroom hmode; omega
    refine hstep.enqueueAll mode hd (fun b hb hq => ?_) fun hmode => ?_
    · rw [hlonger] at hq
      rcases List.mem_cons.1 hq with rfl | hq
      · exact hother hb
      · exact hfree b (List.mem_cons_of_mem _ hb) hq
    · rw [hlonger, List.length_cons]
      show pool.count + (pool.book.queued.length + 1) + addresses.length ≤ pool.config.maxClients
      have := hroom hmode
      omega

/-- The dials of a check: none twice, none that is queued already, and no more than there is room for. -/
theorem refill (s : pool.Provides) (w : pool.WellFormed) : pool.refill.Provides := by
  have hfree : ∀ a ∈ pool.book.addresses .known, a ∉ pool.book.queued := fun a ha hq =>
    w.book.disjoint .queued .known (by decide) hq ha
  unfold Pool.refill
  dsimp only
  split
  · rename_i hroom
    have hperm : pool.candidates.Perm (pool.book.addresses .known) := by
      refine List.Perm.map _ ?_
      have := List.filter_append_perm (fun e : SocketAddress × Bool => e.2) pool.book.known
      simpa using this
    have hlen := List.length_take_le (pool.config.maxClients - (pool.count + pool.book.queued.length)) pool.candidates
    refine s.enqueueAll _ ((List.take_sublist _ _).nodup (hperm.nodup_iff.2 (w.book.nodup .known))) ?_ ?_
    · exact fun a ha => hfree a (hperm.subset (List.mem_of_mem_take ha))
    · intro _
      omega
  · have hsub : ((pool.book.known.filter (!·.2)).map (·.1)).Sublist (pool.book.addresses .known) :=
      List.filter_sublist.map _
    refine s.enqueueAll _ ((List.take_sublist _ _).nodup (hsub.nodup (w.book.nodup .known))) ?_ nofun
    exact fun a ha => hfree a (hsub.subset (List.mem_of_mem_take ha))

theorem check (s : pool.Provides) (w : pool.WellFormed) : pool.check.Provides := by
  have hrefill := s.refill w
  rcases pool.check_cases with h | h
  · rw [h]
    exact hrefill
  · rw [h]
    exact hrefill.of_count_le rfl rfl rfl (Nat.le_refl _)

/-! ## Ends of dials -/

/-- A dial ends, and its address leaves the queue; if it was to join, somebody may have joined. -/
theorem close (s : pool.Provides) (w : pool.WellFormed) (hjob : job ∈ pool.jobs) (hconfig : pool'.config = pool.config)
    (hjobs : pool'.jobs = pool.jobs.erase job)
    (hqueued : pool'.book.queued = AddressBook.drop job.addr pool.book.queued)
    (hcount : pool'.count ≤ pool.count + if job.mode = .join then 1 else 0) : pool'.Provides := by
  have hperm : pool.jobs.Perm (job :: pool.jobs.erase job) := List.perm_cons_erase hjob
  have hmem : job.addr ∈ pool.book.queued := s.dialed.subset (List.mem_map_of_mem hjob)
  constructor
  case dialed =>
    have hnodup : pool.book.queued.Nodup := w.book.nodup .queued
    have hdrop : AddressBook.drop job.addr pool.book.queued = pool.book.queued.erase job.addr := by
      rw [hnodup.erase_eq_filter]
      exact List.filter_congr fun x _ => by rw [Bool.eq_iff_iff]; simp
    rw [hjobs, hqueued, hdrop]
    have hboth : (job.addr :: (pool.jobs.erase job).map DialJob.addr).Perm
        (job.addr :: pool.book.queued.erase job.addr) :=
      (hperm.map DialJob.addr).symm.trans (s.dialed.trans (List.perm_cons_erase hmem))
    exact hboth.cons_inv
  case seats =>
    have hspoken : pool.spokenFor = pool'.spokenFor + if job.mode = .join then 1 else 0 := by
      rw [spokenFor, hperm.countP_eq, List.countP_cons, spokenFor, hjobs]
      simp
    have := s.seats
    rw [hconfig]
    omega

theorem settle (s : pool.Provides) (w : pool.WellFormed) (hjob : job ∈ pool.jobs) (healthy : Bool) :
    (pool.settle job healthy).Provides := by
  refine s.close w hjob rfl rfl ?_ (Nat.le_add_right _ _)
  cases healthy with
  | true => exact AddressBook.queued_markKnown true w.book
  | false => exact AddressBook.queued_markBad w.book

/-- A dial that is to join finds its seat, and its address free. -/
theorem exists_joined (s : pool.Provides) (w : pool.WellFormed) (hjob : job ∈ pool.jobs) (hmode : job.mode = .join)
    (now : Instant) (remote : Version) : ∃ joined,
      (pool.takeId.1.addPeer (pool.dialedPeer now job remote)).register (pool.dialedPeer now job remote) = .ok joined ∧
        pool.finishDial now job (.ok remote) = { joined with jobs := pool.jobs.erase job } := by
  let met := pool.takeId.1.addPeer (pool.dialedPeer now job remote)
  have hspoken : 0 < pool.spokenFor := List.countP_pos_iff.2 ⟨job, hjob, by simp [hmode]⟩
  have hroom : met.count < met.config.maxClients := by
    have hcount : met.count = pool.count := count_meet rfl
    have hseats := s.seats
    show met.count < pool.config.maxClients
    omega
  have hqueued : job.addr ∈ pool.book.queued := s.dialed.subset (List.mem_map_of_mem hjob)
  have hfree : job.addr ∉ met.book.addresses .connected := fun hc =>
    w.book.disjoint .queued .connected (by decide) hqueued hc
  refine ⟨_, register_of_free hroom rfl hfree, ?_⟩
  have hregister : ({ met with jobs := pool.jobs.erase job } : Pool).register (pool.dialedPeer now job remote) = .ok _ :=
    register_of_free hroom rfl hfree
  unfold Pool.finishDial
  dsimp only
  rw [hmode]
  dsimp only
  split
  · rename_i joined heq
    exact Except.ok.inj (heq.symm.trans hregister)
  · rename_i heq
    cases heq.symm.trans hregister
  · rename_i heq
    cases heq.symm.trans hregister

theorem finishDial (s : pool.Provides) (w : pool.WellFormed) (hjob : job ∈ pool.jobs) (now : Instant)
    (outcome : DialOutcome) : (pool.finishDial now job outcome).Provides := by
  cases outcome with
  | error e => exact s.settle w hjob false
  | ok remote =>
    let met := pool.takeId.1.addPeer (pool.dialedPeer now job remote)
    have hmet : met.count = pool.count := count_meet rfl
    cases hmode : job.mode with
    | join =>
      obtain ⟨joined, hjoined, heq⟩ := s.exists_joined w hjob hmode now remote
      have hcount : joined.count ≤ met.count + 1 := count_register_le (w.meet rfl rfl).distinct hjoined
      obtain ⟨-, book, rfl, ⟨hl, -⟩ | ⟨a, hl, -, rfl⟩⟩ := register_eq_ok hjoined
      · cases hl
      · cases hl
        rw [heq]
        exact s.close w hjob rfl rfl rfl (by rwa [hmode, if_pos rfl, ← hmet])
    | probe =>
      have hended : pool.finishDial now job (.ok remote) = { met.modify pool.nextId (·.disconnect .shutdown) with
          jobs := pool.jobs.erase job, book := pool.book.markKnown job.addr true } := by
        unfold Pool.finishDial
        dsimp only
        rw [hmode]
        rfl
      have hcount := count_modify_le (f := (·.disconnect .shutdown)) (fun _ h => h) pool.nextId met
      rw [hended]
      exact s.close w hjob rfl rfl (AddressBook.queued_markKnown true w.book)
        (hcount.trans (hmet ▸ Nat.le_add_right _ _))

/-! ## Runs -/

theorem penalise (s : pool.Provides) (w : pool.WellFormed) (id : PeerId) (f : Peer → Peer)
    (hf : ∀ q, (f q).seat = q.seat) (c : Prop) [Decidable c] :
    (if c then ((pool.modify id f).replace id, true) else (pool.modify id f, false)).1.Provides := by
  have hcounted : (pool.modify id f).Provides := s.talks w (talks_touch fun q _ => hf q)
  have hmove : Move False pool (pool.modify id f) := .touch id f fun q _ => hf q
  split
  · exact hcounted.replace (hmove.wellFormed w) id
  · exact hcounted

theorem penaliseError (s : pool.Provides) (w : pool.WellFormed) (id : PeerId) : (pool.penaliseError id).1.Provides := by
  unfold Pool.penaliseError
  cases pool.peer? id with
  | none => exact s
  | some p => exact s.penalise w id Peer.addError (fun _ => rfl) (maxErrors < p.addError.weight.errors)

theorem penaliseTimeout (s : pool.Provides) (w : pool.WellFormed) (id : PeerId) :
    (pool.penaliseTimeout id).1.Provides := by
  unfold Pool.penaliseTimeout
  cases pool.peer? id with
  | none => exact s
  | some p => exact s.penalise w id Peer.addTimeout (fun _ => rfl) (maxTimeouts < p.addTimeout.weight.timeouts)

end Provides

namespace Operation

/-- Nobody but the pool has an address dialed, and nobody joins who was not dialed. -/
def Unprompted : Operation → Prop
  | register _ | churn _ (.connect _) | churn _ (.arrive ..) => False
  | _ => True

end Operation

namespace Provides

theorem churn (s : pool.Provides) (w : pool.WellFormed) (now : Instant) {c : Churn}
    (hdue : (Operation.churn now c).Due pool) (hown : (Operation.churn now c).Unprompted) :
    (c.run now pool).Provides := by
  have hseat : ∀ {id : PeerId} {f : Peer → Peer}, (∀ q, (f q).seat = q.seat) → (pool.modify id f).Provides :=
    fun hf => s.talks w (talks_touch fun q _ => hf q)
  cases c with
  | arrive | connect => exact hown.elim
  | raise | flush | shut | hangUp => exact hseat fun _ => rfl
  | leave id reason => exact s.sessionEnded w id reason
  | replace id => exact s.replace w id
  | addresses found => exact addAddresses found s
  | check => exact s.check w
  | query => exact s.talks w (talks_sendEach _ _ pool)
  | dialed job outcome => exact s.finishDial w hdue now outcome
  | disconnectAll => exact s.disconnectAll

section
variable [Digest]

theorem handle (s : pool.Provides) (w : pool.WellFormed) (now : Instant) (sink : RelaySink) (event : PoolEvent) :
    (pool.handle now sink event).Provides := by
  cases event with
  | addresses peer found => exact addAddresses found s
  | addressRequest peer =>
    show (pool.answerAddressRequest now peer).Provides
    unfold answerAddressRequest
    split
    · exact s
    · exact s.talks w (talks_sendEach _ _ pool)
  | inventory peer inventory =>
    unfold Pool.handle
    dsimp only
    split
    · exact s
    · split
      · exact s
      · exact s.talks w (talks_withPeer (seat_getData now .tx _) peer pool)
  | dataRequest peer inventory =>
    unfold Pool.handle
    dsimp only
    split
    · exact s
    · split
      · exact s
      · exact s.talks w (talks_serve peer _ pool)
  | transaction peer tx => exact s.talks w (talks_relayFrom now sink tx (some peer) pool)
  | disconnected peer addr reason => exact s.sessionEnded w peer reason

theorem operation (s : pool.Provides) (w : pool.WellFormed) {op : Operation} (hdue : op.Due pool)
    (hown : op.Unprompted) : (op.run pool).Provides := by
  cases op with
  | register => exact hown.elim
  | churn now c => exact s.churn w now hdue hown
  | meet => exact s.meet rfl
  | settle job healthy => exact s.settle w hdue healthy
  | penaliseError id => exact s.penaliseError w id
  | penaliseTimeout id => exact s.penaliseTimeout w id
  | handle now sink event => exact s.handle w now sink event
  | relay now sink tx origin => exact s.talks w (talks_relayFrom now sink tx origin pool)
  | persisted => exact s.of_count_le rfl rfl rfl (Nat.le_refl _)
  | reorder known =>
    show (if known.Perm pool.book.known then _ else pool).Provides
    split
    · exact s.of_count_le rfl rfl rfl (Nat.le_refl _)
    · exact s

theorem run {ops : List Operation} : ∀ {pool : Pool}, pool.Provides → pool.WellFormed → Orderly pool ops →
    (∀ op ∈ ops, op.Unprompted) → (pool.run ops).Provides := by
  induction ops with
  | nil => exact fun s _ _ _ => s
  | cons op ops ih =>
    intro pool s w h hown
    have hstep := s.operation w h.1 (hown op (List.mem_cons_self ..))
    exact ih hstep ((w.moves_operation op).wellFormed w) h.2 fun op hop => hown op (List.mem_cons_of_mem _ hop)

end

end Provides

theorem provides_fresh (config : PoolConfig) (nonce : UInt32) : (fresh config nonce).Provides :=
  ⟨.refl _, Nat.zero_le _⟩

/-! ## The dials of a check -/

theorem jobs_enqueueAll (mode : DialMode) : ∀ (addresses : List SocketAddress) (pool : Pool),
    (pool.enqueueAll mode addresses).jobs = pool.jobs ++ addresses.map (DialJob.mk · mode)
  | [], pool => (List.append_nil _).symm
  | a :: addresses, pool => by
    have hrest := jobs_enqueueAll mode addresses (pool.enqueue a mode)
    exact hrest.trans (List.append_assoc ..)

/-- A check that probes finds the pool full, and probes few. -/
theorem jobs_check (pool : Pool) : ∃ added, pool.check.jobs = pool.jobs ++ added ∧
    (∀ job ∈ added, job.mode = .probe → pool.config.maxClients ≤ pool.count + pool.book.queued.length) ∧
      added.countP (·.mode = .probe) ≤ probesPerCheck := by
  have hjobs : pool.check.jobs = pool.refill.jobs := by
    rcases pool.check_cases with h | h <;> rw [h]
  rw [hjobs]
  unfold refill
  dsimp only
  split
  · rename_i hroom
    refine ⟨_, jobs_enqueueAll _ _ pool, fun job hjob hprobe => ?_, ?_⟩
    · obtain ⟨a, -, rfl⟩ := List.mem_map.1 hjob
      cases hprobe
    · rw [List.countP_map]
      exact Nat.le_trans (Nat.le_of_eq (List.countP_eq_zero.2 fun _ _ => by simp)) (Nat.zero_le _)
  · rename_i hfull
    refine ⟨_, jobs_enqueueAll _ _ pool, fun _ _ _ => by omega, List.countP_le_length.trans ?_⟩
    rw [List.length_map]
    exact List.length_take_le ..

/-- A pool that is left to itself gives no seat away twice: every dial that is to join and gets through
finds a seat. Of a full pool a check probes a few addresses at most. -/
theorem never_overcommitted [Digest] (config : PoolConfig) (nonce : UInt32) {ops : List Operation}
    (h : Orderly (fresh config nonce) ops) (hown : ∀ op ∈ ops, op.Unprompted) :
    let pool := (fresh config nonce).run ops
    pool.count + pool.spokenFor ≤ config.maxClients ∧
      (∀ job ∈ pool.jobs, job.mode = .join → ∀ now remote, ∃ joined,
        (pool.takeId.1.addPeer (pool.dialedPeer now job remote)).register (pool.dialedPeer now job remote) = .ok joined ∧
          pool.finishDial now job (.ok remote) = { joined with jobs := pool.jobs.erase job }) ∧
      ∃ added, pool.check.jobs = pool.jobs ++ added ∧
        (∀ job ∈ added, job.mode = .probe → config.maxClients ≤ pool.count + pool.book.queued.length) ∧
          added.countP (·.mode = .probe) ≤ probesPerCheck := by
  intro pool
  have hfresh := wellFormed_fresh config nonce
  obtain ⟨w, hconfig⟩ : pool.WellFormed ∧ pool.config = config := hfresh.run ops
  have s : pool.Provides := (provides_fresh config nonce).run hfresh h hown
  clear_value pool
  subst hconfig
  exact ⟨s.seats, fun job hjob hmode now remote => s.exists_joined w hjob hmode now remote, pool.jobs_check⟩

/-- One seat and two addresses: the first is dialed to join, the second only probed. -/
theorem never_overcommitted_of_one :
    let config := { PoolConfig.default with maxClients := 1 }
    let first := Scripted.address 1
    let second := Scripted.address 2
    let job : DialJob := ⟨first, .join⟩
    let remote := Scripted.version 1 10333 0
    let ops : List Operation := [.churn 0 (.addresses [first, second]), .churn 0 .check]
    let pool := (fresh config 0).run ops
    Orderly (fresh config 0) ops ∧ (∀ op ∈ ops, op.Unprompted) ∧ pool.jobs = [job, ⟨second, .probe⟩] ∧
      pool.count + pool.spokenFor ≤ 1 ∧
      (∃ joined,
        (pool.takeId.1.addPeer (pool.dialedPeer 0 job remote)).register (pool.dialedPeer 0 job remote) = .ok joined ∧
          pool.finishDial 0 job (.ok remote) = { joined with jobs := pool.jobs.erase job }) ∧
      ∃ added, pool.check.jobs = pool.jobs ++ added ∧
        (∀ job ∈ added, job.mode = .probe → 1 ≤ pool.count + pool.book.queued.length) ∧
          added.countP (·.mode = .probe) ≤ probesPerCheck := by
  intro config first second job remote ops pool
  have horderly : Orderly (fresh config 0) ops := ⟨trivial, trivial, trivial⟩
  have hown : ∀ op ∈ ops, op.Unprompted := by
    intro op hop
    simp only [ops, List.mem_cons, List.not_mem_nil, or_false] at hop
    rcases hop with rfl | rfl <;> trivial
  have hjobs : pool.jobs = [job, ⟨second, .probe⟩] := by decide
  obtain ⟨hseats, hjoins, hprobes⟩ := never_overcommitted config 0 horderly hown
  exact ⟨horderly, hown, hjobs, hseats, hjoins job (by rw [hjobs]; exact List.mem_cons_self ..) rfl 0 remote, hprobes⟩

end Pool

end ChainSync
