import ChainSync.Hash.Sha256
import ChainSync.Pool.Events
import ChainSync.Proofs.Run
import ChainSync.Proofs.Seats

/-!
# Runs of the pool

Anything may happen to a pool at any time: peers shake hands, join and
leave, addresses are found, dials end, and known addresses come in any
order. Each operation is a chain of moves, so what every move keeps holds
after every run.
-/

namespace ChainSync.Pool

def settle (job : DialJob) (healthy : Bool) (pool : Pool) : Pool :=
  { pool with
    jobs := pool.jobs.erase job
    book := if healthy then pool.book.markKnown job.addr true else pool.book.markBad job.addr }

inductive Operation
  | churn (now : Instant) (c : Churn)
  /-- A handshake is done; the peer may ask to join later. -/
  | meet (now : Instant) (addr : SocketAddress) (inbound : Bool) (remote : Version)
  | register (id : PeerId)
  | settle (job : DialJob) (healthy : Bool)
  | penaliseError (id : PeerId)
  | penaliseTimeout (id : PeerId)
  | handle (now : Instant) (sink : RelaySink) (event : PoolEvent)
  | relay (now : Instant) (sink : RelaySink) (tx : Transaction) (origin : Option PeerId)
  | persisted (block : Block)
  /-- Known addresses are in no order of their own. -/
  | reorder (known : List (SocketAddress × Bool))

namespace Operation

def Forgets : Operation → Prop
  | churn _ .disconnectAll => True
  | churn _ (.leave _ reason) => reason = .shutdown
  | handle _ _ (.disconnected _ _ reason) => reason = .shutdown
  | _ => False

variable [Digest]

def run (pool : Pool) : Operation → Pool
  | churn now c => c.run now pool
  | meet now addr inbound remote =>
    let (pool, id) := pool.takeId
    pool.addPeer ((Peer.connecting id addr inbound now).activate remote)
  | register id => ((pool.find? id).bind fun p => (pool.register p).toOption).getD pool
  | settle job healthy => pool.settle job healthy
  | penaliseError id => (pool.penaliseError id).1
  | penaliseTimeout id => (pool.penaliseTimeout id).1
  | handle now sink event => pool.handle now sink event
  | relay now sink tx origin => (pool.relayFrom now sink tx origin).1
  | persisted block => pool.blockPersisted block
  | reorder known => if known.Perm pool.book.known then { pool with book := { pool.book with known } } else pool

end Operation

def run [Digest] (pool : Pool) (operations : List Operation) : Pool :=
  operations.foldl Operation.run pool

variable {forgets : Prop} {pool pool' : Pool} {id : PeerId} {p : Peer}

/-! ## Peers -/

theorem of_peer? (h : pool.peer? id = some p) : p ∈ pool.peers ∧ p.id = id ∧ p.pooled = true := by
  refine ⟨List.mem_of_find?_eq_some h, ?_⟩
  have := List.find?_some h
  simpa using this

theorem moves_withPeer {f : Peer → Peer × Except NetError Unit} (hf : ∀ p, (f p).1.seat = p.seat) (id : PeerId)
    (pool : Pool) : Moves forgets pool (pool.withPeer id f).1 := by
  unfold withPeer
  cases h : pool.find? id with
  | none => exact .refl
  | some p =>
    apply Relation.ReflTransGen.single
    apply Move.touch
    intro q hq
    rw [h, Option.some.injEq] at hq
    exact hq ▸ hf p

theorem seat_send (m : Message) (p : Peer) : (p.send m).1.seat = p.seat := by
  unfold Peer.send
  split_ifs <;> rfl

theorem seat_getData (now : Instant) (kind : InventoryKind) (hashes : List Hash) (p : Peer) :
    (p.getData now kind hashes).1.seat = p.seat := by
  unfold Peer.getData
  split
  · rfl
  · dsimp only
    rw [seat_send]
    split <;> rfl

theorem moves_sendEach (m : Message) : ∀ (ids : List PeerId) (pool : Pool),
    Moves forgets pool (pool.sendEach ids m)
  | [], _ => .refl
  | id :: ids, pool => by
    have hsend : Moves forgets pool (pool.withPeer id (·.send m)).1 := moves_withPeer (seat_send m) id pool
    exact hsend.trans (moves_sendEach m ids _)

theorem moves_serve (id : PeerId) : ∀ (txs : List Transaction) (pool : Pool), Moves forgets pool (pool.serve id txs)
  | [], _ => .refl
  | tx :: txs, pool => by
    have hsend : Moves forgets pool (pool.withPeer id (·.send (.tx tx))).1 := moves_withPeer (seat_send _) id pool
    unfold serve
    cases hr : pool.withPeer id (·.send (.tx tx)) with
    | mk pool' result =>
      rw [hr] at hsend
      cases result with
      | ok => exact hsend.trans (moves_serve id txs pool')
      | error => exact hsend

theorem moves_register (hp : p ∈ pool.peers) : Moves forgets pool ((pool.register p).toOption.getD pool) := by
  cases h : pool.register p with
  | ok pool' => exact .single (.join p hp h)
  | error => exact .refl

/-! ## Addresses -/

theorem moves_addAddress (a : SocketAddress) (pool : Pool) : Moves forgets pool (pool.addAddress a).1 := by
  unfold addAddress
  split
  · exact .refl
  · rename_i h
    have hnew : ¬pool.book.isTracked a = true := by simp_all
    split
    · exact .single (.dial a .join fun hc => hnew (AddressBook.isTracked_iff.2 ⟨_, hc⟩))
    · exact .single (.park a hnew)

theorem moves_addAddresses : ∀ (found : List SocketAddress) (pool : Pool),
    Moves forgets pool (pool.addAddresses found).1
  | [], _ => .refl
  | a :: found, pool => (moves_addAddress a pool).trans (moves_addAddresses found _)

theorem moves_connectTo (a : SocketAddress) (pool : Pool) : Moves forgets pool (pool.connectTo a).1 := by
  unfold connectTo
  split
  · exact .refl
  · rename_i h
    have hfree : ¬pool.book.isConnected a = true := by simp_all
    rw [AddressBook.isConnected_iff] at hfree
    exact .single (.dial a .join hfree)

theorem moves_enqueueAll (mode : DialMode) : ∀ (addresses : List SocketAddress) (pool : Pool),
    (∀ a ∈ addresses, a ∉ pool.book.addresses .connected) → Moves forgets pool (pool.enqueueAll mode addresses)
  | [], _, _ => .refl
  | a :: addresses, pool, h => by
    have hdial : Moves forgets pool (pool.enqueue a mode) := .single (.dial a mode (h a (List.mem_cons_self ..)))
    exact hdial.trans (moves_enqueueAll mode addresses _ fun b hb => h b (List.mem_cons_of_mem _ hb))

def refill (pool : Pool) : Pool :=
  let room := pool.config.maxClients - (pool.count + pool.book.queued.length)
  if 0 < room then pool.enqueueAll .join (pool.candidates.take room)
  else pool.enqueueAll .probe (((pool.book.known.filter (!·.2)).map (·.1)).take probesPerCheck)

/-- Whether it joins or probes, only known addresses are dialed. -/
theorem refill_dials (pool : Pool) : ∃ mode addresses, pool.refill = pool.enqueueAll mode addresses ∧
    ∀ a ∈ addresses, a ∈ pool.book.addresses .known := by
  have hknown : ∀ {l : List (SocketAddress × Bool)} {n : Nat}, (∀ e ∈ l, e ∈ pool.book.known) →
      ∀ a ∈ (l.map (·.1)).take n, a ∈ pool.book.addresses .known := by
    intro l n hl a ha
    obtain ⟨e, he, rfl⟩ := List.mem_map.1 (List.mem_of_mem_take ha)
    exact List.mem_map_of_mem (hl e he)
  unfold refill
  dsimp only
  split
  · refine ⟨_, _, rfl, hknown fun e he => ?_⟩
    exact (List.mem_append.1 he).elim List.mem_of_mem_filter List.mem_of_mem_filter
  · exact ⟨_, _, rfl, hknown fun e he => List.mem_of_mem_filter he⟩

theorem check_eq (pool : Pool) : pool.check =
    if pool.count < pool.refill.config.minClients && pool.refill.book.known.isEmpty &&
        pool.refill.book.queued.isEmpty && !pool.refill.book.bad.isEmpty then
      { pool.refill with book := pool.refill.book.recycle }
    else pool.refill :=
  rfl

theorem check_cases (pool : Pool) :
    pool.check = pool.refill ∨ pool.check = { pool.refill with book := pool.refill.book.recycle } := by
  rw [check_eq]
  split
  · exact .inr rfl
  · exact .inl rfl

theorem WellFormed.moves_check (w : pool.WellFormed) : Moves forgets pool pool.check := by
  obtain ⟨mode, addresses, hrefill, hknown⟩ := pool.refill_dials
  have hdials : Moves forgets pool pool.refill :=
    hrefill ▸ moves_enqueueAll mode addresses pool fun a ha => w.not_connected (hknown a ha)
  rcases pool.check_cases with h | h
  · rw [h]
    exact hdials
  · rw [h]
    exact hdials.tail .recycle

/-! ## Departures -/

theorem moves_sessionEnded {reason : DisconnectReason} (h : reason = .shutdown → forgets) (id : PeerId)
    (pool : Pool) : Moves forgets pool (pool.sessionEnded id reason) := by
  unfold sessionEnded
  cases hp : pool.peer? id with
  | none => exact .refl
  | some p =>
    obtain ⟨hmem, -, hpooled⟩ := of_peer? hp
    exact .single (.leave p reason _ hmem hpooled (fun _ => ⟨rfl, rfl⟩) h)

theorem pickKnown?_mem {a : SocketAddress} (h : pool.book.pickKnown? = some a) : a ∈ pool.book.addresses .known := by
  unfold AddressBook.pickKnown? at h
  obtain ⟨e, he, rfl⟩ := Option.map_eq_some_iff.1 h
  refine List.mem_map_of_mem ?_
  rcases Option.or_eq_some_iff.1 he with he | ⟨-, he⟩
  · exact List.mem_of_find?_eq_some he
  · exact List.mem_of_head? he

theorem WellFormed.moves_replace (w : pool.WellFormed) (id : PeerId) : Moves forgets pool (pool.replace id) := by
  unfold replace
  cases hp : pool.peer? id with
  | none => exact .refl
  | some p =>
    obtain ⟨hmem, -, hpooled⟩ := of_peer? hp
    have hleave : Moves forgets pool (pool.remove p (·.disconnect .replaced) AddressBook.markBad) :=
      .single (.leave p .replaced _ hmem hpooled (fun _ => ⟨rfl, rfl⟩) (fun h => nomatch h))
    dsimp only
    cases ha : (pool.remove p (·.disconnect .replaced) AddressBook.markBad).book.pickKnown? with
    | none => exact hleave
    | some a => exact hleave.tail (.dial a .join ((hleave.wellFormed w).not_connected (pickKnown?_mem ha)))

/-- A peer that did something wrong may be replaced for it. -/
theorem WellFormed.moves_penalise (w : pool.WellFormed) (id : PeerId) (f : Peer → Peer)
    (hf : ∀ q, (f q).seat = q.seat) (c : Prop) [Decidable c] :
    Moves forgets pool (if c then ((pool.modify id f).replace id, true) else (pool.modify id f, false)).1 := by
  have hcount : Move forgets pool (pool.modify id f) := .touch id f fun q _ => hf q
  split
  · exact .head hcount ((hcount.wellFormed w).moves_replace id)
  · exact .single hcount

theorem WellFormed.moves_penaliseError (w : pool.WellFormed) (id : PeerId) :
    Moves forgets pool (pool.penaliseError id).1 := by
  unfold penaliseError
  cases pool.peer? id with
  | none => exact .refl
  | some p => exact w.moves_penalise id Peer.addError (fun _ => rfl) (maxErrors < p.addError.weight.errors)

theorem WellFormed.moves_penaliseTimeout (w : pool.WellFormed) (id : PeerId) :
    Moves forgets pool (pool.penaliseTimeout id).1 := by
  unfold penaliseTimeout
  cases pool.peer? id with
  | none => exact .refl
  | some p => exact w.moves_penalise id Peer.addTimeout (fun _ => rfl) (maxTimeouts < p.addTimeout.weight.timeouts)

/-! ## Dials -/

def EndsDial (forgets : Prop) (job : DialJob) (pool pool' : Pool) : Prop :=
  ∃ before, Moves forgets pool before ∧ job.addr ∉ before.book.queued ∧
    pool' = { before with jobs := before.jobs.erase job }

variable {job : DialJob}

theorem EndsDial.moves (e : EndsDial forgets job pool pool') : Moves forgets pool pool' := by
  obtain ⟨before, hmoves, hqueued, rfl⟩ := e
  exact hmoves.tail (.finish job hqueued)

theorem EndsDial.not_queued (e : EndsDial forgets job pool pool') : job.addr ∉ pool'.book.queued := by
  obtain ⟨before, -, hqueued, rfl⟩ := e
  exact hqueued

theorem Moves.endsDial {book : AddressBook} (m : Moves forgets pool pool') (w : pool.WellFormed)
    (h : pool'.book.Marks job.addr book) :
    EndsDial forgets job pool { pool' with jobs := pool'.jobs.erase job, book } :=
  ⟨{ pool' with book }, m.tail (.mark job.addr book h), fun hq => (h.of_queued (m.wellFormed w).book hq).2 rfl, rfl⟩

theorem register_jobs_eq_ok {jobs : List DialJob} (h : ({ pool with jobs } : Pool).register p = .ok pool') :
    ∃ joined, pool.register p = .ok joined ∧ pool' = { joined with jobs } := by
  unfold register at h ⊢
  change (if pool.config.maxClients ≤ pool.count then _ else _) = _ at h
  split at h
  · cases h
  · rename_i hroom
    rw [if_neg hroom]
    cases hl : p.listenAddr? with
    | none =>
      simp only [hl] at h
      exact ⟨_, rfl, (Except.ok.inj h).symm⟩
    | some a =>
      simp only [hl] at h
      split at h
      · cases h
      · rename_i hfree
        exact ⟨_, if_neg hfree, (Except.ok.inj h).symm⟩

theorem WellFormed.endsDial_settle (w : pool.WellFormed) (job : DialJob) (healthy : Bool) :
    EndsDial forgets job pool (pool.settle job healthy) := by
  have hmoves : Moves forgets pool pool := .refl
  cases healthy with
  | true => exact hmoves.endsDial w (AddressBook.marks_markKnown job.addr true pool.book)
  | false => exact hmoves.endsDial w (AddressBook.marks_markBad job.addr pool.book)

theorem WellFormed.endsDial_finishDial (w : pool.WellFormed) (now : Instant) (job : DialJob)
    (outcome : DialOutcome) : EndsDial forgets job pool (pool.finishDial now job outcome) := by
  unfold finishDial
  cases outcome with
  | error e =>
    have hmoves : Moves forgets pool pool := .refl
    exact hmoves.endsDial w (AddressBook.marks_markBad job.addr pool.book)
  | ok remote =>
    let p := (Peer.connecting pool.nextId job.addr false now).activate remote
    let met := pool.takeId.1.addPeer p
    have hmet : Moves forgets pool met := .single (.meet p rfl rfl)
    have hhung : Moves forgets pool (met.modify p.id (·.disconnect .shutdown)) := hmet.tail (.touch _ _ fun _ _ => rfl)
    have hknown := hhung.endsDial w (AddressBook.marks_markKnown job.addr true met.book)
    have hbad := hhung.endsDial w (AddressBook.marks_markBad job.addr met.book)
    dsimp only
    split
    · exact hknown
    · split
      · rename_i joined heq
        obtain ⟨before, hbefore, rfl⟩ : ∃ before, met.register p = .ok before ∧
            joined = { before with jobs := pool.jobs.erase job } := register_jobs_eq_ok heq
        have hjoin : Move forgets met before := .join p (List.mem_append_right _ (List.mem_singleton_self _)) hbefore
        obtain ⟨-, book, rfl, ⟨hl, -⟩ | ⟨a, hl, -, rfl⟩⟩ := register_eq_ok hbefore
        · cases hl
        · cases hl
          exact ⟨_, hmet.tail hjoin, fun hq => (AddressBook.mem_drop.1 hq).2 rfl, rfl⟩
      · exact hknown
      · exact hbad

/-! ## Runs -/

theorem WellFormed.moves_churn (w : pool.WellFormed) (now : Instant) (c : Churn) [Digest] :
    Moves (Operation.Forgets (.churn now c)) pool (c.run now pool) := by
  cases c with
  | arrive addr inbound remote =>
    let p := (Peer.connecting pool.nextId addr inbound now).activate remote
    let met := pool.takeId.1.addPeer p
    have hmet : Moves (Operation.Forgets (.churn now (.arrive addr inbound remote))) pool met :=
      .single (.meet p rfl rfl)
    unfold Churn.run
    dsimp only
    split
    · rename_i joined hr
      exact hmet.tail (.join p (List.mem_append_right _ (List.mem_singleton_self _)) hr)
    · exact hmet.tail (.touch _ _ fun _ _ => rfl)
  | raise id height => exact .single (.touch id _ fun _ _ => rfl)
  | flush id => exact .single (.touch id _ fun _ _ => rfl)
  | shut id => exact .single (.touch id _ fun _ _ => rfl)
  | hangUp id reason => exact .single (.touch id _ fun _ _ => rfl)
  | leave id reason => exact moves_sessionEnded (fun h => h) id pool
  | replace id => exact w.moves_replace id
  | addresses found => exact moves_addAddresses found pool
  | connect a => exact moves_connectTo a pool
  | check => exact w.moves_check
  | query => exact moves_sendEach _ _ pool
  | dialed job outcome => exact (w.endsDial_finishDial now job outcome).moves
  | disconnectAll => exact .single (.clear trivial)

section
variable [Digest]

theorem moves_relayFrom (now : Instant) (sink : RelaySink) (tx : Transaction) (origin : Option PeerId) (pool : Pool) :
    Moves forgets pool (pool.relayFrom now sink tx origin).1 := by
  unfold relayFrom
  have hsubmit : Moves forgets pool { pool with relay := (pool.relay.submit sink tx).1 } := .single (.relay _)
  dsimp only
  split
  · exact hsubmit.trans (moves_sendEach _ _ _)
  · exact hsubmit

theorem moves_handle (now : Instant) (sink : RelaySink) (event : PoolEvent) (pool : Pool) :
    Moves (Operation.Forgets (.handle now sink event)) pool (pool.handle now sink event) := by
  cases event with
  | addresses peer found => exact moves_addAddresses found pool
  | addressRequest peer =>
    show Moves _ pool (pool.answerAddressRequest now peer)
    unfold answerAddressRequest
    split
    · exact .refl
    · exact moves_sendEach _ _ pool
  | inventory peer inventory =>
    unfold handle
    dsimp only
    split
    · exact .refl
    · split
      · exact .refl
      · exact moves_withPeer (seat_getData now .tx _) peer pool
  | dataRequest peer inventory =>
    unfold handle
    dsimp only
    split
    · exact .refl
    · split
      · exact .refl
      · exact moves_serve peer _ pool
  | transaction peer tx => exact moves_relayFrom now sink tx (some peer) pool
  | disconnected peer addr reason => exact moves_sessionEnded (fun h => h) peer pool

theorem WellFormed.moves_operation (w : pool.WellFormed) (op : Operation) : Moves op.Forgets pool (op.run pool) := by
  cases op with
  | churn now c => exact w.moves_churn now c
  | meet now addr inbound remote => exact .single (.meet _ rfl rfl)
  | register id =>
    show Moves _ pool (((pool.find? id).bind fun p => (pool.register p).toOption).getD pool)
    cases hp : pool.find? id with
    | none => exact .refl
    | some p => exact moves_register (List.mem_of_find?_eq_some hp)
  | settle job healthy => exact (w.endsDial_settle job healthy).moves
  | penaliseError id => exact w.moves_penaliseError id
  | penaliseTimeout id => exact w.moves_penaliseTimeout id
  | handle now sink event => exact moves_handle now sink event pool
  | relay now sink tx origin => exact moves_relayFrom now sink tx origin pool
  | persisted block => exact .single (.relay _)
  | reorder known =>
    show Moves _ pool (if known.Perm pool.book.known then _ else pool)
    split
    · rename_i h
      exact .single (.reorder known h)
    · exact .refl

theorem WellFormed.run (w : pool.WellFormed) (ops : List Operation) :
    (pool.run ops).WellFormed ∧ (pool.run ops).config = pool.config := by
  induction ops generalizing pool with
  | nil => exact ⟨w, rfl⟩
  | cons op ops ih =>
    have hstep := w.moves_operation op
    obtain ⟨hw, hconfig⟩ := ih (hstep.wellFormed w)
    exact ⟨hw, hconfig.trans hstep.config_eq⟩

/-- No address stands at two places, the connected ones are those of the pooled peers that listen, and
there are never too many peers. -/
theorem book_fits_peers (config : PoolConfig) (nonce : UInt32) (ops : List Operation) :
    let pool := (fresh config nonce).run ops
    pool.book.Sound ∧ (pool.pooledPeers.map Peer.id).Nodup ∧
      (∀ a id, Assoc.get? a pool.book.connected = some id ↔
        ∃ p ∈ pool.pooledPeers, p.id = id ∧ p.listenAddr? = some a) ∧
      pool.count ≤ config.maxClients := by
  intro pool
  obtain ⟨w, hconfig⟩ : pool.WellFormed ∧ pool.config = config := (wellFormed_fresh config nonce).run ops
  refine ⟨w.book, (List.filter_sublist.map Peer.id).nodup w.distinct, fun a id => ?_, hconfig ▸ w.room⟩
  rw [Assoc.get?_eq_some_iff (w.book.nodup .connected), w.index]
  constructor
  · intro h
    obtain ⟨p, hp, heq⟩ := List.mem_map.1 h
    refine ⟨p, List.mem_filter.2 ⟨hp, ?_⟩, congrArg Seat.id heq, congrArg Seat.listen heq⟩
    exact congrArg Seat.pooled heq
  · rintro ⟨p, hp, rfl, hl⟩
    obtain ⟨hmem, hpooled⟩ := List.mem_filter.1 hp
    rw [← hl, ← hpooled]
    exact List.mem_map_of_mem hmem

/-- A queued address waits for a dial, the end of a dial ends the wait, and nothing short of a shutdown
loses an address. -/
theorem no_address_lost (config : PoolConfig) (nonce : UInt32) (ops : List Operation) :
    let pool := (fresh config nonce).run ops
    (∀ a, pool.book.isQueued a = true → ∃ job ∈ pool.jobs, job.addr = a) ∧
      (∀ job ∈ pool.jobs,
        (∀ now outcome, (pool.finishDial now job outcome).book.isQueued job.addr = false) ∧
          ∀ healthy, (pool.settle job healthy).book.isQueued job.addr = false) ∧
      ∀ op : Operation, ¬op.Forgets →
        ∀ a, pool.book.isTracked a = true → (op.run pool).book.isTracked a = true := by
  intro pool
  have w : pool.WellFormed := ((wellFormed_fresh config nonce).run ops).1
  have hended : ∀ {job : DialJob} {pool' : Pool}, EndsDial True job pool pool' →
      pool'.book.isQueued job.addr = false := by
    intro job pool' e
    apply Bool.eq_false_iff.2
    intro h
    exact e.not_queued (AddressBook.isQueued_iff.1 h)
  refine ⟨fun a ha => w.dials a (AddressBook.isQueued_iff.1 ha), fun job _ => ⟨?_, ?_⟩, fun op hop => ?_⟩
  · intro now outcome
    exact hended (w.endsDial_finishDial now job outcome)
  · intro healthy
    exact hended (w.endsDial_settle job healthy)
  · exact (w.moves_operation op).keeps w hop

end

theorem no_address_lost_first :
    let a := Scripted.address 1
    let job : DialJob := ⟨a, .join⟩
    let pool := (fresh .default 0).run [.churn 0 (.addresses [a])]
    let check := Operation.churn 0 .check
    pool.book.isQueued a = true ∧ (∃ job ∈ pool.jobs, job.addr = a) ∧ job ∈ pool.jobs ∧
      (pool.finishDial 0 job (.error .connectionClosed)).book.isQueued a = false ∧
      (pool.settle job true).book.isQueued a = false ∧
      ¬check.Forgets ∧ pool.book.isTracked a = true ∧ (check.run pool).book.isTracked a = true := by
  intro a job pool check
  obtain ⟨hdial, hended, hkept⟩ := no_address_lost .default 0 [.churn 0 (.addresses [a])]
  have hqueued : pool.book.isQueued a = true := by decide
  have hjob : job ∈ pool.jobs := by decide
  have hforgets : ¬check.Forgets := fun h => h
  have htracked : pool.book.isTracked a = true := by decide
  obtain ⟨hfinished, hsettled⟩ := hended job hjob
  exact ⟨hqueued, hdial a hqueued, hjob, hfinished 0 _, hsettled true, hforgets, htracked,
    hkept check hforgets a htracked⟩

end ChainSync.Pool
