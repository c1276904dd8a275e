import ChainSync.Proofs.PoolRun

/-!
# How a local address gets into the book

An address that reaches the node itself is refused where addresses are
discovered and where a connection is asked for, but not where a peer says
that it listens there. So what the pool holds of local addresses is owed to
peers that it had.
-/

namespace ChainSync

/-! ## Addresses that come to be tracked -/

namespace AddressBook

variable {a x : SocketAddress} {b b' : AddressBook}

def Gets (a : SocketAddress) (b b' : AddressBook) : Prop :=
  ∀ x, b'.isTracked x = true → x = a ∨ b.isTracked x = true

theorem gets_of_mem (h : ∀ x t, x ∈ b'.addresses t → x = a ∨ x ∈ b.addresses t) : b.Gets a b' := by
  intro x hx
  obtain ⟨t, ht⟩ := isTracked_iff.1 hx
  exact (h x t ht).imp_right fun hb => isTracked_iff.2 ⟨t, hb⟩

theorem Puts.gets {s : Standing} (p : Puts a s b b') : b.Gets a b' := by
  apply gets_of_mem
  intro x t ht
  rw [p.mem] at ht
  by_cases hx : x = a
  · exact Or.inl hx
  · exact Or.inr (by rwa [if_neg hx] at ht)

theorem Marks.gets (m : b.Marks a b') : b.Gets a b' := by
  cases m with
  | held => exact fun _ hx => Or.inr hx
  | put _ p => exact p.gets

theorem gets_enqueue (a : SocketAddress) (b : AddressBook) : b.Gets a (b.enqueue a) := by
  apply gets_of_mem
  intro x t ht
  cases t with
  | queued => exact List.mem_insert_iff.1 ht
  | known =>
    rw [addresses, enqueue, keys_erase, mem_drop] at ht
    exact Or.inr ht.1
  | bad => exact Or.inr (mem_drop.1 ht).1
  | connected => exact Or.inr ht

theorem gets_park (a : SocketAddress) (b : AddressBook) : b.Gets a (b.park a) := by
  apply gets_of_mem
  intro x t ht
  cases t with
  | known => exact Assoc.mem_keys_set.1 ht
  | queued | bad | connected => exact Or.inr ht

theorem unlink_keeps (a : SocketAddress) (id : PeerId) (b : AddressBook) : (b.unlink a id).Keeps b := by
  apply keeps_of_mem
  intro x t ht
  by_cases h : Assoc.get? a b.connected = some id
  · exact ⟨t, ((mem_unlink h).1 ht).1⟩
  · rw [unlink, if_neg h] at ht
    exact ⟨t, ht⟩

theorem recycle_keeps (b : AddressBook) : b.recycle.Keeps b := by
  apply keeps_of_mem
  intro x t ht
  rcases mem_recycle.1 ht with ⟨-, h⟩ | ⟨-, h⟩
  · exact ⟨_, h⟩
  · exact ⟨_, h⟩

end AddressBook

namespace Pool

/-! ## What the pool holds -/

/-- The address stands in the book, or a dial of it has not ended. -/
def Holds (pool : Pool) (x : SocketAddress) : Prop :=
  pool.book.isTracked x = true ∨ ∃ job ∈ pool.jobs, job.addr = x

structure Adds (source : SocketAddress → Prop) (pool pool' : Pool) : Prop where
  config : pool'.config = pool.config
  held : ∀ x, pool'.Holds x → pool.Holds x ∨ source x

variable {source : SocketAddress → Prop} {start pool pool' : Pool} {a : SocketAddress} {p : Peer}

theorem Adds.refl (pool : Pool) : Adds source pool pool :=
  ⟨rfl, fun _ h => Or.inl h⟩

theorem Adds.trans (h : Adds source start pool) (h' : Adds source pool pool') : Adds source start pool' :=
  ⟨h'.config.trans h.config, fun x hx => (h'.held x hx).elim (h.held x) Or.inr⟩

theorem Adds.isLocal_eq (h : Adds source pool pool') (x : SocketAddress) : pool'.isLocal x = pool.isLocal x := by
  unfold isLocal
  rw [h.config]

theorem adds_book {book : AddressBook} (h : ∀ x, book.isTracked x = true → pool.Holds x ∨ source x) :
    Adds source pool { pool with book } :=
  ⟨rfl, fun x hx => hx.elim (h x) fun hjob => Or.inl (Or.inr hjob)⟩

theorem adds_gets {book : AddressBook} (h : pool.book.Gets a book) (ha : pool.Holds a ∨ source a) :
    Adds source pool { pool with book } := by
  apply adds_book
  intro x hx
  rcases h x hx with rfl | hx
  · exact ha
  · exact Or.inl (Or.inl hx)

theorem adds_keeps {book : AddressBook} (h : book.Keeps pool.book) : Adds source pool { pool with book } :=
  adds_book fun x hx => Or.inl (Or.inl (h x hx))

theorem Adds.enqueue (h : Adds source start pool) (mode : DialMode) (ha : start.Holds a ∨ source a) :
    Adds source start (pool.enqueue a mode) := by
  refine ⟨h.config, fun x hx => ?_⟩
  rcases hx with hx | ⟨job, hjob, rfl⟩
  · rcases AddressBook.gets_enqueue a pool.book x hx with rfl | hx
    · exact ha
    · exact h.held x (Or.inl hx)
  · rcases List.mem_append.1 hjob with hjob | hjob
    · exact h.held _ (Or.inr ⟨job, hjob, rfl⟩)
    · rw [List.mem_singleton.1 hjob]
      exact ha

theorem adds_erase (job : DialJob) (pool : Pool) : Adds source pool { pool with jobs := pool.jobs.erase job } :=
  ⟨rfl, fun _ hx => Or.inl (hx.imp_right fun ⟨other, h, heq⟩ => ⟨other, List.mem_of_mem_erase h, heq⟩)⟩

theorem adds_modify (id : PeerId) (f : Peer → Peer) (pool : Pool) : Adds source pool (pool.modify id f) :=
  ⟨rfl, fun _ h => Or.inl h⟩

theorem adds_withPeer (id : PeerId) (f : Peer → Peer × Except NetError Unit) (pool : Pool) :
    Adds source pool (pool.withPeer id f).1 := by
  unfold withPeer
  split
  · exact .refl pool
  · exact adds_modify id _ pool

theorem adds_sendEach (m : Message) : ∀ (ids : List PeerId) (pool : Pool), Adds source pool (pool.sendEach ids m)
  | [], pool => .refl pool
  | id :: ids, pool => (adds_withPeer id (·.send m) pool).trans (adds_sendEach m ids _)

theorem adds_serve (id : PeerId) : ∀ (txs : List Transaction) (pool : Pool), Adds source pool (pool.serve id txs)
  | [], pool => .refl pool
  | tx :: txs, pool => by
    have hsend : Adds source pool (pool.withPeer id (·.send (.tx tx))).1 := adds_withPeer id _ pool
    unfold serve
    split
    · rename_i heq
      rw [heq] at hsend
      exact hsend.trans (adds_serve id txs _)
    · rename_i heq
      rw [heq] at hsend
      exact hsend

/-! ## Discovery -/

section
variable (hlocal : ∀ x, pool.isLocal x = false → source x)
include hlocal

theorem adds_addAddress (a : SocketAddress) : Adds source pool (pool.addAddress a).1 := by
  unfold addAddress
  by_cases h : (pool.isLocal a || pool.book.isTracked a) = true
  · rw [if_pos h]
    exact .refl pool
  · have ha : source a := hlocal a (by simp_all)
    rw [if_neg h]
    split
    · exact (Adds.refl pool).enqueue .join (Or.inr ha)
    · exact adds_gets (AddressBook.gets_park a pool.book) (Or.inr ha)

theorem adds_connectTo (a : SocketAddress) : Adds source pool (pool.connectTo a).1 := by
  unfold connectTo
  by_cases h : (pool.isLocal a || pool.book.isConnected a || pool.book.isQueued a) = true
  · rw [if_pos h]
    exact .refl pool
  · rw [if_neg h]
    exact (Adds.refl pool).enqueue .join (Or.inr (hlocal a (by simp_all)))

end

theorem adds_addAddresses : ∀ (found : List SocketAddress) {pool : Pool},
    (∀ x, pool.isLocal x = false → source x) → Adds source pool (pool.addAddresses found).1
  | [], pool, _ => .refl pool
  | a :: found, pool, hlocal => by
    have hfirst : Adds source pool (pool.addAddress a).1 := adds_addAddress hlocal a
    exact hfirst.trans (adds_addAddresses found fun x hx => hlocal x (by rwa [hfirst.isLocal_eq] at hx))

/-! ## Maintenance and departures -/

theorem Adds.enqueueAll (mode : DialMode) : ∀ (addresses : List SocketAddress) {pool : Pool},
    Adds source start pool → (∀ a ∈ addresses, start.Holds a) → Adds source start (pool.enqueueAll mode addresses)
  | [], _, h, _ => h
  | a :: addresses, _, h, hheld =>
    enqueueAll mode addresses (h.enqueue mode (Or.inl (hheld a (List.mem_cons_self ..))))
      fun b hb => hheld b (List.mem_cons_of_mem _ hb)

theorem adds_check (pool : Pool) : Adds source pool pool.check := by
  obtain ⟨mode, addresses, hrefill, hknown⟩ := pool.refill_dials
  have hdials : Adds source pool pool.refill :=
    hrefill ▸ (Adds.refl pool).enqueueAll mode addresses fun a ha =>
      Or.inl (AddressBook.isTracked_iff.2 ⟨.known, hknown a ha⟩)
  rcases pool.check_cases with h | h
  · rw [h]
    exact hdials
  · rw [h]
    exact hdials.trans (adds_keeps pool.refill.book.recycle_keeps)

theorem WellFormed.adds_remove (w : pool.WellFormed) (hp : p ∈ pool.peers) (hpooled : p.pooled = true)
    (f : Peer → Peer) (reason : DisconnectReason) : Adds source pool (pool.remove p f (standing reason)) := by
  obtain ⟨book, heq, ⟨-, rfl⟩ | ⟨a, hl, rfl⟩⟩ := remove_eq p f (standing reason) pool
  · rw [heq]
    exact adds_modify _ _ pool
  · rw [heq]
    have hheld : pool.Holds a := Or.inl (AddressBook.isTracked_iff.2 ⟨.connected, w.mem_connected hp hpooled hl⟩)
    have hunlinked := AddressBook.unlink_keeps a p.id pool.book
    refine ⟨rfl, (adds_book fun x hx => Or.inl ?_ : Adds source pool { pool with book := _ }).held⟩
    rcases marks_standing reason a (pool.book.unlink a p.id) with m | ⟨-, hsame⟩
    · rcases m.gets x hx with rfl | hx
      · exact hheld
      · exact Or.inl (hunlinked x hx)
    · rw [hsame] at hx
      exact Or.inl (hunlinked x hx)

theorem WellFormed.adds_sessionEnded (w : pool.WellFormed) (id : PeerId) (reason : DisconnectReason) :
    Adds source pool (pool.sessionEnded id reason) := by
  unfold sessionEnded
  cases hp : pool.peer? id with
  | none => exact .refl pool
  | some p =>
    obtain ⟨hmem, -, hpooled⟩ := of_peer? hp
    exact w.adds_remove hmem hpooled _ reason

theorem WellFormed.adds_replace (w : pool.WellFormed) (id : PeerId) : Adds source pool (pool.replace id) := by
  unfold replace
  cases hp : pool.peer? id with
  | none => exact .refl pool
  | some p =>
    obtain ⟨hmem, -, hpooled⟩ := of_peer? hp
    have hremoved : Adds source pool (pool.remove p (·.disconnect .replaced) AddressBook.markBad) :=
      w.adds_remove hmem hpooled _ .replaced
    dsimp only
    cases ha : (pool.remove p (·.disconnect .replaced) AddressBook.markBad).book.pickKnown? with
    | none => exact hremoved
    | some a =>
      have hknown := AddressBook.isTracked_iff.2 ⟨.known, pickKnown?_mem ha⟩
      exact hremoved.enqueue .join (hremoved.held a (Or.inl hknown))

theorem WellFormed.adds_penalise (w : pool.WellFormed) (id : PeerId) (f : Peer → Peer)
    (hf : ∀ q, (f q).seat = q.seat) (c : Prop) [Decidable c] :
    Adds source pool (if c then ((pool.modify id f).replace id, true) else (pool.modify id f, false)).1 := by
  have hcount : Adds source pool (pool.modify id f) := adds_modify id f pool
  have hcounted : (pool.modify id f).WellFormed :=
    (Move.touch id f fun q _ => hf q : Move True pool (pool.modify id f)).wellFormed w
  split
  · exact hcount.trans (hcounted.adds_replace id)
  · exact hcount

theorem WellFormed.adds_penaliseError (w : pool.WellFormed) (id : PeerId) :
    Adds source pool (pool.penaliseError id).1 := by
  unfold penaliseError
  cases pool.peer? id with
  | none => exact .refl pool
  | some p => exact w.adds_penalise id Peer.addError (fun _ => rfl) (maxErrors < p.addError.weight.errors)

theorem WellFormed.adds_penaliseTimeout (w : pool.WellFormed) (id : PeerId) :
    Adds source pool (pool.penaliseTimeout id).1 := by
  unfold penaliseTimeout
  cases pool.peer? id with
  | none => exact .refl pool
  | some p => exact w.adds_penalise id Peer.addTimeout (fun _ => rfl) (maxTimeouts < p.addTimeout.weight.timeouts)

/-! ## Joining -/

theorem adds_register (h : pool.register p = .ok pool') (hsource : ∀ a, p.listenAddr? = some a → source a) :
    Adds source pool pool' := by
  obtain ⟨-, book, rfl, ⟨-, rfl⟩ | ⟨a, hl, -, rfl⟩⟩ := register_eq_ok h
  · exact adds_modify _ _ pool
  · exact ⟨rfl, (adds_gets (AddressBook.puts_link a p.id pool.book).gets (Or.inr (hsource a hl))).held⟩

theorem mem_pooledPeers_of_register (hp : p ∈ pool.peers) (h : pool.register p = .ok pool') :
    { p with pooled := true } ∈ pool'.pooledPeers := by
  obtain ⟨-, book, rfl, -⟩ := register_eq_ok h
  refine List.mem_filter.2 ⟨List.mem_map.2 ⟨p, hp, ?_⟩, rfl⟩
  simp

/-! ## Dials -/

section
variable {job : DialJob} (hjob : job ∈ pool.jobs)
include hjob

theorem adds_settle (healthy : Bool) : Adds source pool (pool.settle job healthy) := by
  have hheld : pool.Holds job.addr := Or.inr ⟨job, hjob, rfl⟩
  have hbook : Adds source pool
      { pool with book := if healthy then pool.book.markKnown job.addr true else pool.book.markBad job.addr } := by
    cases healthy with
    | true => exact adds_gets (AddressBook.marks_markKnown job.addr true pool.book).gets (Or.inl hheld)
    | false => exact adds_gets (AddressBook.marks_markBad job.addr pool.book).gets (Or.inl hheld)
  exact hbook.trans (adds_erase job _)

theorem adds_finishDial (now : Instant) (outcome : DialOutcome) :
    Adds source pool (pool.finishDial now job outcome) := by
  have hheld : pool.Holds job.addr := Or.inr ⟨job, hjob, rfl⟩
  have hmarked : ∀ {book : AddressBook}, pool.book.Marks job.addr book →
      Adds source pool { pool with jobs := pool.jobs.erase job, book } := fun m =>
    (adds_gets m.gets (Or.inl hheld)).trans (adds_erase job _)
  unfold finishDial
  cases outcome with
  | error e => exact hmarked (AddressBook.marks_markBad job.addr pool.book)
  | ok remote =>
    have hknown := hmarked (AddressBook.marks_markKnown job.addr true pool.book)
    have hbad := hmarked (AddressBook.marks_markBad job.addr pool.book)
    dsimp only
    split
    · exact ⟨rfl, hknown.held⟩
    · split
      · rename_i joined heq
        -- who was dialed listens at the address that was dialed
        obtain ⟨-, book, rfl, ⟨hl, -⟩ | ⟨a, hl, -, rfl⟩⟩ := register_eq_ok heq
        · cases hl
        · cases hl
          exact ⟨rfl, ((adds_gets (AddressBook.puts_link job.addr _ pool.book).gets (Or.inl hheld)).trans
            (adds_erase job _)).held⟩
      · exact ⟨rfl, hknown.held⟩
      · exact ⟨rfl, hbad.held⟩

end

/-! ## Operations -/

namespace Operation

def Due (pool : Pool) : Operation → Prop
  | settle job _ => job ∈ pool.jobs
  | churn _ (.dialed job _) => job ∈ pool.jobs
  | _ => True

def Source (pool pool' : Pool) (x : SocketAddress) : Prop :=
  pool.isLocal x = false ∨ ∃ p ∈ pool'.pooledPeers, p.listenAddr? = some x

end Operation

open Operation (Source)

theorem adds_joined (hp : p ∈ pool.peers) (h : pool.register p = .ok pool') :
    Adds (Source start pool') pool pool' := by
  apply adds_register h
  intro a hl
  exact Or.inr ⟨_, mem_pooledPeers_of_register hp h, hl⟩

theorem WellFormed.adds_churn (w : pool.WellFormed) (now : Instant) (c : Churn)
    (hdue : (Operation.churn now c).Due pool) : Adds (Source pool (c.run now pool)) pool (c.run now pool) := by
  cases c with
  | arrive addr inbound remote =>
    unfold Churn.run
    dsimp only
    split
    · rename_i joined hr
      have hjoined : Adds (Source pool joined) _ joined :=
        adds_joined (List.mem_append_right _ (List.mem_singleton_self _)) hr
      exact ⟨hjoined.config, hjoined.held⟩
    · exact ⟨rfl, fun _ h => Or.inl h⟩
  | raise | flush | shut | hangUp => exact adds_modify _ _ pool
  | leave id reason => exact w.adds_sessionEnded id reason
  | replace id => exact w.adds_replace id
  | addresses found => exact adds_addAddresses found fun _ => Or.inl
  | connect a => exact adds_connectTo (fun _ => Or.inl) a
  | check => exact adds_check pool
  | query => exact adds_sendEach _ _ pool
  | dialed job outcome => exact adds_finishDial hdue now outcome
  | disconnectAll =>
    refine ⟨rfl, (adds_keeps (AddressBook.keeps_of_mem ?_) : Adds _ pool { pool with book := _ }).held⟩
    intro x t ht
    cases t with
    | connected => cases ht
    | queued => exact ⟨.queued, ht⟩
    | known => exact ⟨.known, ht⟩
    | bad => exact ⟨.bad, ht⟩

section
variable [Digest]

theorem adds_relayFrom (now : Instant) (sink : RelaySink) (tx : Transaction) (origin : Option PeerId) (pool : Pool) :
    Adds source pool (pool.relayFrom now sink tx origin).1 := by
  have hsubmit : Adds source pool { pool with relay := (pool.relay.submit sink tx).1 } := ⟨rfl, fun _ h => Or.inl h⟩
  unfold relayFrom
  dsimp only
  split
  · exact hsubmit.trans (adds_sendEach _ _ _)
  · exact hsubmit

theorem WellFormed.adds_handle (w : pool.WellFormed) (now : Instant) (sink : RelaySink) (event : PoolEvent) :
    Adds (Source pool (pool.handle now sink event)) pool (pool.handle now sink event) := by
  cases event with
  | addresses peer found => exact adds_addAddresses found fun _ => Or.inl
  | addressRequest peer =>
    show Adds _ pool (pool.answerAddressRequest now peer)
    unfold answerAddressRequest
    split
    · exact .refl pool
    · exact adds_sendEach _ _ pool
  | inventory peer inventory =>
    unfold handle
    dsimp only
    split
    · exact .refl pool
    · split
      · exact .refl pool
      · exact adds_withPeer peer _ pool
  | dataRequest peer inventory =>
    unfold handle
    dsimp only
    split
    · exact .refl pool
    · split
      · exact .refl pool
      · exact adds_serve peer _ pool
  | transaction peer tx => exact adds_relayFrom now sink tx (some peer) pool
  | disconnected peer addr reason => exact w.adds_sessionEnded peer reason

theorem WellFormed.adds_operation (w : pool.WellFormed) (op : Operation) (hdue : op.Due pool) :
    Adds (Source pool (op.run pool)) pool (op.run pool) := by
  cases op with
  | churn now c => exact w.adds_churn now c hdue
  | meet => exact ⟨rfl, fun _ h => Or.inl h⟩
  | register id =>
    cases hp : pool.find? id with
    | none =>
      simp only [Operation.run, hp, Option.bind_none, Option.getD_none]
      exact .refl pool
    | some p =>
      simp only [Operation.run, hp, Option.bind_some]
      cases hr : pool.register p with
      | ok joined => exact adds_joined (List.mem_of_find?_eq_some hp) hr
      | error => exact .refl pool
  | settle job healthy => exact adds_settle hdue healthy
  | penaliseError id => exact w.adds_penaliseError id
  | penaliseTimeout id => exact w.adds_penaliseTimeout id
  | handle now sink event => exact w.adds_handle now sink event
  | relay now sink tx origin => exact adds_relayFrom now sink tx origin pool
  | persisted => exact ⟨rfl, fun _ h => Or.inl h⟩
  | reorder known =>
    show Adds _ pool (if known.Perm pool.book.known then _ else pool)
    split
    · rename_i h
      exact adds_keeps (AddressBook.keeps_of_mem fun x t ht => ⟨t, (AddressBook.mem_reorder h).1 ht⟩)
    · exact .refl pool

/-! ## Runs -/

def Orderly : Pool → List Operation → Prop
  | _, [] => True
  | pool, op :: ops => op.Due pool ∧ Orderly (op.run pool) ops

/-- A local address that the pool holds was held before, or a pooled peer listened there since. -/
theorem WellFormed.local_held (w : pool.WellFormed) {ops : List Operation} (h : Orderly pool ops)
    {x : SocketAddress} (hlocal : pool.isLocal x = true) (hx : (pool.run ops).Holds x) :
    pool.Holds x ∨ ∃ earlier later, ops = earlier ++ later ∧
      ∃ p ∈ (pool.run earlier).pooledPeers, p.listenAddr? = some x := by
  -- either the rest of the run brings the address in, or the first operation does
  induction ops generalizing pool with
  | nil => exact Or.inl hx
  | cons op ops ih =>
    have hstep := w.adds_operation op h.1
    have hsame : (op.run pool).isLocal x = true := by rw [hstep.isLocal_eq, hlocal]
    rcases ih ((w.moves_operation op).wellFormed w) h.2 hsame hx with hheld | ⟨earlier, later, rfl, hpooled⟩
    · rcases hstep.held x hheld with hheld | hsource | hpooled
      · exact Or.inl hheld
      · exact absurd hlocal (by simp [hsource])
      · exact Or.inr ⟨[op], ops, rfl, hpooled⟩
    · exact Or.inr ⟨op :: earlier, later, rfl, hpooled⟩

/-- A local address waits for a dial only if a pooled peer said earlier that it listens there. -/
theorem local_queued_was_advertised (config : PoolConfig) (nonce : UInt32) {ops : List Operation}
    (h : Orderly (fresh config nonce) ops) {a : SocketAddress}
    (hlocal : ((fresh config nonce).run ops).isLocal a = true)
    (hqueued : ((fresh config nonce).run ops).book.isQueued a = true) :
    ∃ earlier later, ops = earlier ++ later ∧
      ∃ p ∈ ((fresh config nonce).run earlier).pooledPeers, p.listenAddr? = some a := by
  have w := wellFormed_fresh config nonce
  have hsame : (fresh config nonce).isLocal a = true := by
    rw [← hlocal, isLocal, isLocal, (w.run ops).2]
  have hheld : ((fresh config nonce).run ops).Holds a :=
    Or.inl (AddressBook.isTracked_iff.2 ⟨.queued, AddressBook.isQueued_iff.1 hqueued⟩)
  refine (w.local_held h hsame hheld).resolve_left ?_
  simp [Holds, fresh, AddressBook.isTracked, AddressBook.isConnected, AddressBook.empty, Assoc.contains, Assoc.get?]

end

end Pool

namespace Scripted

def listeningConfig : PoolConfig :=
  { PoolConfig.default with bindAddress := some (address 1) }

def selfAdvertised : List Pool.Operation :=
  [.churn 0 (.arrive (address 1) true (version 1 10333 0)), .churn 0 (.leave 1 .closed), .churn 0 .check]

theorem selfAdvertised_queued :
    let pool := (Pool.fresh listeningConfig 0).run selfAdvertised
    pool.isLocal (address 1) = true ∧ pool.book.isQueued (address 1) = true := by
  decide

end Scripted

namespace Pool

open Scripted

/-- The entry points refuse the address, and yet it comes to be dialed. -/
theorem local_queued_after_all :
    let start := Pool.fresh listeningConfig 0
    let pool := start.run selfAdvertised
    (start.addAddress (address 1)).2 = false ∧ (start.connectTo (address 1)).2 = false ∧
      pool.isLocal (address 1) = true ∧ pool.book.isQueued (address 1) = true := by
  exact ⟨by decide, by decide, selfAdvertised_queued⟩

theorem local_queued_was_advertised_inbound :
    let start := Pool.fresh listeningConfig 0
    let pool := start.run selfAdvertised
    Orderly start selfAdvertised ∧ pool.isLocal (address 1) = true ∧ pool.book.isQueued (address 1) = true ∧
      ∃ earlier later, selfAdvertised = earlier ++ later ∧
        ∃ p ∈ (start.run earlier).pooledPeers, p.listenAddr? = some (address 1) := by
  intro start pool
  have horderly : Orderly start selfAdvertised := by simp [selfAdvertised, Orderly, Operation.Due]
  obtain ⟨hlocal, hqueued⟩ := selfAdvertised_queued
  exact ⟨horderly, hlocal, hqueued, local_queued_was_advertised listeningConfig 0 horderly hlocal hqueued⟩

end Pool

end ChainSync
