import ChainSync.Proofs.AddressBook
import ChainSync.Proofs.Peers
import Mathlib.Logic.Relation

/-!
# Seats in the pool

Of a peer only its id, where it listens and whether it is pooled matter to
the address book: its seat. Every operation of the pool is a chain of moves,
each of which changes a seat, an address or a dial in one way; what all moves
keep, every run keeps.
-/

namespace ChainSync

structure Seat where
  id : PeerId
  listen : Option SocketAddress
  pooled : Bool

def Peer.seat (p : Peer) : Seat :=
  ⟨p.id, p.listenAddr?, p.pooled⟩

namespace Pool

def seats (pool : Pool) : List Seat :=
  pool.peers.map Peer.seat

structure WellFormed (pool : Pool) : Prop where
  book : pool.book.Sound
  distinct : (pool.peers.map Peer.id).Nodup
  used : ∀ p ∈ pool.peers, p.id < pool.nextId
  index : ∀ a id, (a, id) ∈ pool.book.connected ↔ ⟨id, some a, true⟩ ∈ pool.seats
  room : pool.count ≤ pool.config.maxClients
  dials : ∀ a ∈ pool.book.queued, ∃ job ∈ pool.jobs, job.addr = a

variable {pool pool' : Pool} {id : PeerId} {p : Peer} {a : SocketAddress}

/-! ## Taking and leaving a seat -/

def setPooled (id : PeerId) (v : Bool) (seats : List Seat) : List Seat :=
  seats.map fun s => if s.id = id then { s with pooled := v } else s

theorem count_eq (pool : Pool) : pool.count = pool.seats.countP Seat.pooled := by
  rw [count, pooledPeers, seats, List.countP_map, List.countP_eq_length_filter]
  rfl

theorem map_id_setPooled (id : PeerId) (v : Bool) (seats : List Seat) :
    (setPooled id v seats).map Seat.id = seats.map Seat.id := by
  unfold setPooled
  rw [List.map_map]
  apply List.map_congr_left
  intro s _
  by_cases hid : s.id = id
  · simp [hid]
  · simp [hid]

theorem mem_setPooled {id' : PeerId} {v b : Bool} {l : Option SocketAddress} {seats : List Seat} :
    ⟨id', l, b⟩ ∈ setPooled id v seats ↔
      if id' = id then b = v ∧ ∃ c, ⟨id', l, c⟩ ∈ seats else ⟨id', l, b⟩ ∈ seats := by
  unfold setPooled
  rw [List.mem_map]
  constructor
  · rintro ⟨⟨k, m, c⟩, hs, heq⟩
    by_cases hk : k = id
    · rw [if_pos hk] at heq
      cases heq
      rw [if_pos hk]
      exact ⟨rfl, c, hs⟩
    · rw [if_neg hk] at heq
      cases heq
      rwa [if_neg hk]
  · intro h
    by_cases hid : id' = id
    · rw [if_pos hid] at h
      obtain ⟨rfl, c, hs⟩ := h
      exact ⟨_, hs, by rw [if_pos hid]⟩
    · rw [if_neg hid] at h
      exact ⟨_, h, by rw [if_neg hid]⟩

theorem setPooled_of_absent {v : Bool} {seats : List Seat} (h : id ∉ seats.map Seat.id) :
    setPooled id v seats = seats := by
  refine (List.map_congr_left fun s hs => ?_).trans (List.map_id seats)
  have hne : s.id ≠ id := fun he => h (he ▸ List.mem_map_of_mem hs)
  simp [hne]

theorem countP_setPooled_le (v : Bool) : ∀ {seats : List Seat}, (seats.map Seat.id).Nodup →
    (setPooled id v seats).countP Seat.pooled ≤ seats.countP Seat.pooled + 1
  | [], _ => Nat.zero_le _
  | s :: seats, hd => by
    rw [List.map_cons, List.nodup_cons] at hd
    rw [setPooled, List.map_cons, ← setPooled]
    by_cases hid : s.id = id
    · rw [setPooled_of_absent (hid ▸ hd.1), if_pos hid]
      simp only [List.countP_cons]
      split <;> omega
    · have := countP_setPooled_le v hd.2
      rw [if_neg hid]
      simp only [List.countP_cons]
      omega

theorem countP_setPooled_false_le (id : PeerId) (seats : List Seat) :
    (setPooled id false seats).countP Seat.pooled ≤ seats.countP Seat.pooled := by
  unfold setPooled
  rw [List.countP_map]
  refine List.countP_mono_left fun s _ hs => ?_
  by_cases hid : s.id = id
  · simp [hid] at hs
  · simpa [hid] using hs

theorem seats_modify_pooled {f : Peer → Peer} {v : Bool} (h : ∀ q, (f q).seat = { q.seat with pooled := v }) :
    (pool.modify id f).seats = setPooled id v pool.seats := by
  unfold seats modify setPooled
  rw [List.map_map, List.map_map]
  apply List.map_congr_left
  intro q _
  by_cases hid : q.id = id
  · exact (congrArg Peer.seat (if_pos hid)).trans ((h q).trans (if_pos hid).symm)
  · exact (congrArg Peer.seat (if_neg hid)).trans (if_neg hid).symm

theorem seats_touch (hd : (pool.peers.map Peer.id).Nodup) {f : Peer → Peer}
    (h : ∀ q, pool.find? id = some q → (f q).seat = q.seat) : (pool.modify id f).seats = pool.seats := by
  unfold seats modify
  rw [List.map_map]
  apply List.map_congr_left
  intro q hq
  by_cases hid : q.id = id
  · exact (congrArg Peer.seat (if_pos hid)).trans (h q (hid ▸ find?_of_mem hd hq))
  · exact congrArg Peer.seat (if_neg hid)

theorem ids_seats (pool : Pool) : pool.seats.map Seat.id = pool.peers.map Peer.id :=
  List.map_map

/-! ## Moves -/

/-- One change of a pool, which may forget an address only if it `forgets`. -/
inductive Move (forgets : Prop) : Pool → Pool → Prop
  | touch {pool : Pool} (id : PeerId) (f : Peer → Peer) (h : ∀ q, pool.find? id = some q → (f q).seat = q.seat) :
      Move forgets pool (pool.modify id f)
  | relay {pool : Pool} (relay : RelayPool) : Move forgets pool { pool with relay }
  | meet {pool : Pool} (p : Peer) (hid : p.id = pool.nextId) (hpooled : p.pooled = false) :
      Move forgets pool (pool.takeId.1.addPeer p)
  | dial {pool : Pool} (a : SocketAddress) (mode : DialMode) (h : a ∉ pool.book.addresses .connected) :
      Move forgets pool (pool.enqueue a mode)
  | park {pool : Pool} (a : SocketAddress) (h : ¬pool.book.isTracked a = true) :
      Move forgets pool { pool with book := pool.book.park a }
  | reorder {pool : Pool} (known : List (SocketAddress × Bool)) (h : known.Perm pool.book.known) :
      Move forgets pool { pool with book := { pool.book with known } }
  | recycle {pool : Pool} : Move forgets pool { pool with book := pool.book.recycle }
  | mark {pool : Pool} (a : SocketAddress) (book : AddressBook) (h : pool.book.Marks a book) :
      Move forgets pool { pool with book }
  | finish {pool : Pool} (job : DialJob) (h : job.addr ∉ pool.book.queued) :
      Move forgets pool { pool with jobs := pool.jobs.erase job }
  | join {pool pool' : Pool} (p : Peer) (hp : p ∈ pool.peers) (h : pool.register p = .ok pool') :
      Move forgets pool pool'
  | leave {pool : Pool} (p : Peer) (reason : DisconnectReason) (f : Peer → Peer) (hp : p ∈ pool.peers)
      (hpooled : p.pooled = true) (hf : ∀ q, (f q).id = q.id ∧ (f q).listenAddr? = q.listenAddr?)
      (hforgets : reason = .shutdown → forgets) : Move forgets pool (pool.remove p f (standing reason))
  | clear {pool : Pool} (hforgets : forgets) : Move forgets pool pool.disconnectAll

abbrev Moves (forgets : Prop) : Pool → Pool → Prop :=
  Relation.ReflTransGen (Move forgets)

/-! ## What every move keeps -/

theorem WellFormed.of_seats_eq (w : pool.WellFormed) (hseats : pool'.seats = pool.seats)
    (hconfig : pool'.config = pool.config) (hnext : pool'.nextId = pool.nextId)
    (hbook : pool'.book.Sound) (hconnected : pool'.book.connected = pool.book.connected)
    (hdials : ∀ a ∈ pool'.book.queued, ∃ job ∈ pool'.jobs, job.addr = a) : pool'.WellFormed where
  book := hbook
  distinct := by rw [← ids_seats, hseats, ids_seats]; exact w.distinct
  used := by
    intro q hq
    have hseat : q.seat ∈ pool.seats := hseats ▸ List.mem_map_of_mem hq
    obtain ⟨p, hp, heq⟩ := List.mem_map.1 hseat
    have hid : p.id = q.id := congrArg Seat.id heq
    rw [hnext, ← hid]
    exact w.used p hp
  index := by rw [hseats, hconnected]; exact w.index
  room := by rw [count_eq, hseats, hconfig, ← count_eq]; exact w.room
  dials := hdials

theorem WellFormed.setPooled (w : pool.WellFormed) {f : Peer → Peer} {v : Bool} {book : AddressBook}
    (hf : ∀ q, (f q).seat = { q.seat with pooled := v })
    (hroom : (setPooled id v pool.seats).countP Seat.pooled ≤ pool.config.maxClients) (hbook : book.Sound)
    (hindex : ∀ a k, (a, k) ∈ book.connected ↔ ⟨k, some a, true⟩ ∈ Pool.setPooled id v pool.seats)
    (hdials : ∀ a ∈ book.queued, a ∈ pool.book.queued) : ({ pool.modify id f with book } : Pool).WellFormed where
  book := hbook
  distinct := by
    have hseats : (pool.modify id f).seats = _ := seats_modify_pooled hf
    show ((pool.modify id f).peers.map Peer.id).Nodup
    rw [← ids_seats, hseats, map_id_setPooled, ids_seats]
    exact w.distinct
  used := by
    intro q hq
    obtain ⟨p, hp, rfl⟩ := List.mem_map.1 hq
    by_cases hid : p.id = id
    · rw [if_pos hid, show (f p).id = p.id from congrArg Seat.id (hf p)]
      exact w.used p hp
    · rw [if_neg hid]
      exact w.used p hp
  index := by
    intro a k
    rw [show ({ pool.modify id f with book } : Pool).seats = _ from seats_modify_pooled hf]
    exact hindex a k
  room := by
    rw [count_eq, show ({ pool.modify id f with book } : Pool).seats = _ from seats_modify_pooled hf]
    exact hroom
  dials := fun a ha => w.dials a (hdials a ha)

/-! ## Joining -/

theorem mem_connected_link (h : a ∉ pool.book.addresses .connected) {e : SocketAddress × PeerId} :
    e ∈ (pool.book.link a id).connected ↔ e = (a, id) ∨ e ∈ pool.book.connected := by
  refine ⟨Assoc.of_mem_set, ?_⟩
  rintro (rfl | he)
  · exact Assoc.mem_set_self a id _
  · refine Assoc.mem_set_of_ne ?_ he
    rintro rfl
    exact h (Assoc.mem_keys.2 ⟨e.2, he⟩)

theorem register_eq_ok (h : pool.register p = .ok pool') : pool.count < pool.config.maxClients ∧
    ∃ book, pool' = { pool.modify p.id (fun q => { q with pooled := true }) with book } ∧
      ((p.listenAddr? = none ∧ book = pool.book) ∨
        ∃ a, p.listenAddr? = some a ∧ a ∉ pool.book.addresses .connected ∧ book = pool.book.link a p.id) := by
  unfold register at h
  split at h
  · cases h
  · rename_i hroom
    refine ⟨Nat.not_le.1 hroom, ?_⟩
    cases hl : p.listenAddr? with
    | none =>
      simp only [hl, Except.ok.injEq] at h
      exact ⟨_, h.symm, .inl ⟨rfl, rfl⟩⟩
    | some a =>
      simp only [hl] at h
      split at h
      · cases h
      · rename_i hconnected
        rw [AddressBook.isConnected_iff] at hconnected
        exact ⟨_, (Except.ok.inj h).symm, .inr ⟨a, rfl, hconnected, rfl⟩⟩

theorem WellFormed.mem_seats (w : pool.WellFormed) (hp : p ∈ pool.peers) {l : Option SocketAddress} :
    (∃ c, ⟨p.id, l, c⟩ ∈ pool.seats) ↔ l = p.listenAddr? := by
  constructor
  · rintro ⟨c, hs⟩
    obtain ⟨q, hq, heq⟩ := List.mem_map.1 hs
    obtain rfl := eq_of_id_eq w.distinct hq hp (congrArg Seat.id heq)
    exact (congrArg Seat.listen heq).symm
  · rintro rfl
    exact ⟨p.pooled, List.mem_map_of_mem hp⟩

theorem WellFormed.mem_setPooled (w : pool.WellFormed) (hp : p ∈ pool.peers) {v b : Bool} {k : PeerId}
    {l : Option SocketAddress} : ⟨k, l, b⟩ ∈ Pool.setPooled p.id v pool.seats ↔
      if k = p.id then b = v ∧ l = p.listenAddr? else ⟨k, l, b⟩ ∈ pool.seats := by
  rw [Pool.mem_setPooled]
  by_cases hk : k = p.id
  · subst hk
    rw [if_pos rfl, if_pos rfl, w.mem_seats hp]
  · rw [if_neg hk, if_neg hk]

theorem WellFormed.of_connected (w : pool.WellFormed) (hp : p ∈ pool.peers) (h : (a, p.id) ∈ pool.book.connected) :
    some a = p.listenAddr? :=
  (w.mem_seats hp).1 ⟨true, (w.index a p.id).1 h⟩

theorem WellFormed.index_link (w : pool.WellFormed) (hp : p ∈ pool.peers) (hl : p.listenAddr? = some a)
    (ha : a ∉ pool.book.addresses .connected) (b : SocketAddress) (k : PeerId) :
    (b, k) ∈ (pool.book.link a p.id).connected ↔ ⟨k, some b, true⟩ ∈ Pool.setPooled p.id true pool.seats := by
  rw [mem_connected_link ha, w.mem_setPooled hp, Prod.mk.injEq]
  by_cases hk : k = p.id
  · subst hk
    rw [if_pos rfl, hl, Option.some.injEq]
    refine ⟨?_, fun hb => .inl ⟨hb.2, rfl⟩⟩
    rintro (⟨rfl, -⟩ | hb)
    · exact ⟨rfl, rfl⟩
    · exact ⟨rfl, Option.some.inj (hl ▸ w.of_connected hp hb)⟩
  · rw [if_neg hk, w.index]
    exact ⟨fun h => h.resolve_left fun he => hk he.2, .inr⟩

theorem WellFormed.join (w : pool.WellFormed) (hp : p ∈ pool.peers) (h : pool.register p = .ok pool') :
    pool'.WellFormed := by
  obtain ⟨hroom, book, rfl, hbook⟩ := register_eq_ok h
  have hcount : (Pool.setPooled p.id true pool.seats).countP Seat.pooled ≤ pool.config.maxClients := by
    have hd : (pool.seats.map Seat.id).Nodup := ids_seats pool ▸ w.distinct
    have : (Pool.setPooled p.id true pool.seats).countP Seat.pooled ≤ _ + 1 := countP_setPooled_le true hd
    rw [count_eq] at hroom
    omega
  obtain ⟨hl, rfl⟩ | ⟨a, hl, ha, rfl⟩ := hbook
  · refine w.setPooled (fun _ => rfl) hcount w.book (fun b k => ?_) (fun _ h => h)
    rw [w.mem_setPooled hp]
    by_cases hk : k = p.id
    · subst hk
      rw [if_pos rfl, hl]
      exact ⟨fun hb => ⟨rfl, hl ▸ w.of_connected hp hb⟩, fun hb => absurd hb.2 (by simp)⟩
    · rw [if_neg hk, w.index]
  · have hlink := AddressBook.puts_link a p.id pool.book
    refine w.setPooled (fun _ => rfl) hcount (hlink.sound w.book) (w.index_link hp hl ha) fun b hb => ?_
    exact (AddressBook.mem_drop.1 hb).1

/-! ## Leaving -/

theorem remove_eq (p : Peer) (f : Peer → Peer) (g : SocketAddress → AddressBook → AddressBook) (pool : Pool) :
    ∃ book, pool.remove p f g = { pool.modify p.id (fun q => { f q with pooled := false }) with book } ∧
      ((p.listenAddr? = none ∧ book = pool.book) ∨
        ∃ a, p.listenAddr? = some a ∧ book = g a (pool.book.unlink a p.id)) := by
  unfold remove
  dsimp only
  cases p.listenAddr? with
  | none => exact ⟨_, rfl, .inl ⟨rfl, rfl⟩⟩
  | some a => exact ⟨_, rfl, .inr ⟨a, rfl, rfl⟩⟩

theorem marks_standing (reason : DisconnectReason) (a : SocketAddress) (b : AddressBook) :
    b.Marks a (standing reason a b) ∨ (reason = .shutdown ∧ standing reason a b = b) := by
  cases reason with
  | protocolViolation | replaced => exact .inl (AddressBook.marks_markBad a b)
  | closed | stalled => exact .inl (AddressBook.marks_markKnown a false b)
  | shutdown => exact .inr ⟨rfl, rfl⟩

theorem standing_spec (reason : DisconnectReason) (a : SocketAddress) {b : AddressBook} (hb : b.Sound) :
    (standing reason a b).Sound ∧ (standing reason a b).connected = b.connected ∧
      ∀ x ∈ (standing reason a b).queued, x ∈ b.queued := by
  obtain m | ⟨-, heq⟩ := marks_standing reason a b
  · exact ⟨m.sound hb, m.connected_eq, fun x hx => (m.of_queued hb hx).1⟩
  · rw [heq]
    exact ⟨hb, rfl, fun _ h => h⟩

theorem WellFormed.connected (w : pool.WellFormed) (hp : p ∈ pool.peers) (hpooled : p.pooled = true)
    (hl : p.listenAddr? = some a) : Assoc.get? a pool.book.connected = some p.id := by
  rw [Assoc.get?_eq_some_iff (w.book.nodup .connected), w.index, ← hl, ← hpooled]
  exact List.mem_map_of_mem hp

theorem WellFormed.mem_connected (w : pool.WellFormed) (hp : p ∈ pool.peers) (hpooled : p.pooled = true)
    (hl : p.listenAddr? = some a) : a ∈ pool.book.addresses .connected :=
  Assoc.mem_keys.2 ⟨p.id, Assoc.mem_of_get? (w.connected hp hpooled hl)⟩

theorem WellFormed.index_unlink (w : pool.WellFormed) (hp : p ∈ pool.peers) (hpooled : p.pooled = true)
    (hl : p.listenAddr? = some a) (b : SocketAddress) (k : PeerId) :
    (b, k) ∈ (pool.book.unlink a p.id).connected ↔ ⟨k, some b, true⟩ ∈ Pool.setPooled p.id false pool.seats := by
  have hget := w.connected hp hpooled hl
  rw [AddressBook.unlink, if_pos hget, Assoc.mem_erase, w.mem_setPooled hp]
  by_cases hk : k = p.id
  · subst hk
    rw [if_pos rfl]
    refine ⟨fun hb => absurd (w.of_connected hp hb.1) ?_, fun hb => absurd hb.1 (by simp)⟩
    rw [hl, Option.some.injEq]
    exact hb.2
  · rw [if_neg hk, w.index]
    refine ⟨And.left, fun hb => ⟨hb, ?_⟩⟩
    -- an address has one entry, and this one's is the peer that leaves
    rintro rfl
    have hother := (Assoc.get?_eq_some_iff (w.book.nodup .connected)).2 ((w.index b k).2 hb)
    exact hk (Option.some.inj (hother.symm.trans hget))

theorem seat_unpooled {f : Peer → Peer} (hf : ∀ q, (f q).id = q.id ∧ (f q).listenAddr? = q.listenAddr?)
    (q : Peer) : ({ f q with pooled := false } : Peer).seat = { q.seat with pooled := false } := by
  obtain ⟨hid, hl⟩ := hf q
  show Seat.mk (f q).id (f q).listenAddr? false = ⟨q.id, q.listenAddr?, false⟩
  rw [hid, hl]

theorem WellFormed.leave (w : pool.WellFormed) (hp : p ∈ pool.peers) (hpooled : p.pooled = true)
    (reason : DisconnectReason) {f : Peer → Peer}
    (hf : ∀ q, (f q).id = q.id ∧ (f q).listenAddr? = q.listenAddr?) :
    (pool.remove p f (standing reason)).WellFormed := by
  have hseat := seat_unpooled hf
  have hcount : (Pool.setPooled p.id false pool.seats).countP Seat.pooled ≤ pool.config.maxClients := by
    refine Nat.le_trans (countP_setPooled_false_le p.id pool.seats) ?_
    rw [← count_eq]
    exact w.room
  obtain ⟨book, heq, ⟨hl, rfl⟩ | ⟨a, hl, rfl⟩⟩ := remove_eq p f (standing reason) pool
  · rw [heq]
    refine w.setPooled hseat hcount w.book (fun b k => ?_) (fun _ h => h)
    rw [w.mem_setPooled hp]
    by_cases hk : k = p.id
    · subst hk
      rw [if_pos rfl]
      exact ⟨fun hb => absurd (w.of_connected hp hb) (by simp [hl]), fun hb => absurd hb.1 (by simp)⟩
    · rw [if_neg hk, w.index]
  · rw [heq]
    obtain ⟨hbook, hconnected, hqueued⟩ := standing_spec reason a (w.book.unlink a p.id)
    refine w.setPooled hseat hcount hbook (fun b k => ?_) (fun b hb => ?_)
    · rw [hconnected]
      exact w.index_unlink hp hpooled hl b k
    · have hb := hqueued b hb
      rwa [AddressBook.unlink, if_pos (w.connected hp hpooled hl)] at hb

/-! ## Every move -/

theorem seats_addPeer (p : Peer) (pool : Pool) : (pool.takeId.1.addPeer p).seats = pool.seats ++ [p.seat] :=
  List.map_append

theorem WellFormed.meet (w : pool.WellFormed) (hid : p.id = pool.nextId) (hpooled : p.pooled = false) :
    (pool.takeId.1.addPeer p).WellFormed where
  book := w.book
  distinct := by
    rw [← ids_seats, seats_addPeer, List.map_append, ids_seats]
    refine w.distinct.append (List.nodup_singleton _) ?_
    intro k hk hk'
    obtain ⟨q, hq, rfl⟩ := List.mem_map.1 hk
    have hused := w.used q hq
    rw [show q.id = p.id from List.mem_singleton.1 hk', hid] at hused
    exact Nat.lt_irrefl _ hused
  used := by
    intro q hq
    show q.id < pool.nextId + 1
    rcases List.mem_append.1 hq with hq | hq
    · exact Nat.lt_succ_of_lt (w.used q hq)
    · rw [List.mem_singleton.1 hq, hid]
      exact Nat.lt_succ_self _
  index := by
    intro a k
    rw [seats_addPeer, List.mem_append, List.mem_singleton]
    refine (w.index a k).trans ⟨.inl, fun h => h.resolve_right fun heq => ?_⟩
    exact absurd ((congrArg Seat.pooled heq).trans hpooled) (by simp)
  room := by
    have hseat : ¬p.seat.pooled = true := by rw [show p.seat.pooled = false from hpooled]; simp
    rw [count_eq, seats_addPeer, List.countP_append, List.countP_singleton, if_neg hseat, ← count_eq]
    exact w.room
  dials := w.dials

theorem WellFormed.enqueue (w : pool.WellFormed) (mode : DialMode) (h : a ∉ pool.book.addresses .connected) :
    (pool.enqueue a mode).WellFormed := by
  refine w.of_seats_eq rfl rfl rfl ((AddressBook.puts_enqueue h).sound w.book) rfl fun b hb => ?_
  show ∃ job ∈ pool.jobs ++ [⟨a, mode⟩], job.addr = b
  rcases List.mem_insert_iff.1 hb with rfl | hb
  · exact ⟨_, List.mem_append_right _ (List.mem_singleton_self _), rfl⟩
  · obtain ⟨job, hjob, hab⟩ := w.dials b hb
    exact ⟨job, List.mem_append_left _ hjob, hab⟩

theorem WellFormed.clear (w : pool.WellFormed) : pool.disconnectAll.WellFormed := by
  have hids : pool.disconnectAll.peers.map Peer.id = pool.peers.map Peer.id := by
    unfold disconnectAll
    rw [List.map_map]
    apply List.map_congr_left
    intro q _
    by_cases hq : q.pooled = true
    · simp [hq, Peer.disconnect]
    · simp [hq]
  have hpooled : ∀ s ∈ pool.disconnectAll.seats, ¬s.pooled = true := by
    intro s hs
    obtain ⟨_, hq, rfl⟩ := List.mem_map.1 hs
    obtain ⟨q, -, rfl⟩ := List.mem_map.1 hq
    by_cases hq : q.pooled = true
    · simp [hq, Peer.seat]
    · simp [hq, Peer.seat]
  constructor
  case book =>
    apply w.book.of_sublist
    intro t
    cases t with
    | connected => exact List.nil_sublist _
    | _ => exact .refl _
  case distinct => exact hids ▸ w.distinct
  case used =>
    intro q hq
    have hid : q.id ∈ pool.peers.map Peer.id := hids ▸ List.mem_map_of_mem hq
    obtain ⟨p, hp, heq⟩ := List.mem_map.1 hid
    exact heq ▸ w.used p hp
  case index =>
    intro a k
    exact iff_of_false List.not_mem_nil fun h => hpooled _ h rfl
  case room =>
    rw [count_eq, List.countP_eq_zero.2 hpooled]
    exact Nat.zero_le _
  case dials => exact w.dials

theorem wellFormed_fresh (config : PoolConfig) (nonce : UInt32) : (fresh config nonce).WellFormed where
  book := ⟨fun t => by cases t <;> exact List.nodup_nil, fun t _ _ x hx => by cases t <;> cases hx⟩
  distinct := List.nodup_nil
  used := fun _ h => nomatch h
  index := fun _ _ => iff_of_false List.not_mem_nil List.not_mem_nil
  room := Nat.zero_le _
  dials := fun _ h => nomatch h

theorem WellFormed.not_connected (w : pool.WellFormed) (h : a ∈ pool.book.addresses .known) :
    a ∉ pool.book.addresses .connected :=
  fun hc => w.book.disjoint .known .connected (by decide) h hc

variable {forgets : Prop}

theorem Move.wellFormed (m : Move forgets pool pool') (w : pool.WellFormed) : pool'.WellFormed := by
  cases m with
  | touch id f h => exact w.of_seats_eq (seats_touch w.distinct h) rfl rfl w.book rfl w.dials
  | relay => exact w.of_seats_eq rfl rfl rfl w.book rfl w.dials
  | meet p hid hpooled => exact w.meet hid hpooled
  | dial a mode h => exact w.enqueue mode h
  | park a h => exact w.of_seats_eq rfl rfl rfl ((AddressBook.puts_park h).sound w.book) rfl w.dials
  | reorder known h => exact w.of_seats_eq rfl rfl rfl (w.book.reorder h) rfl w.dials
  | recycle => exact w.of_seats_eq rfl rfl rfl w.book.recycle rfl w.dials
  | mark a book m =>
    exact w.of_seats_eq rfl rfl rfl (m.sound w.book) m.connected_eq
      fun b hb => w.dials b (m.of_queued w.book hb).1
  | finish job h =>
    refine w.of_seats_eq rfl rfl rfl w.book rfl fun b hb => ?_
    obtain ⟨other, hother, hb'⟩ := w.dials b hb
    refine ⟨other, (List.mem_erase_of_ne ?_).2 hother, hb'⟩
    rintro rfl
    exact h (hb' ▸ hb)
  | join p hp h => exact w.join hp h
  | leave p reason f hp hpooled hf => exact w.leave hp hpooled reason hf
  | clear => exact w.clear

theorem Move.keeps (m : Move forgets pool pool') (w : pool.WellFormed) (hforgets : ¬forgets) :
    pool.book.Keeps pool'.book := by
  cases m with
  | dial a _ h => exact (AddressBook.puts_enqueue h).keeps
  | park a h => exact (AddressBook.puts_park h).keeps
  | reorder known h => exact AddressBook.keeps_reorder h
  | recycle => exact AddressBook.keeps_recycle _
  | mark a book m => exact m.keeps
  | join p hp h =>
    obtain ⟨-, book, rfl, ⟨-, rfl⟩ | ⟨a, -, -, rfl⟩⟩ := register_eq_ok h
    · exact .refl _
    · exact (AddressBook.puts_link a p.id pool.book).keeps
  | leave p reason f hp hpooled hf hshut =>
    obtain ⟨book, heq, ⟨-, rfl⟩ | ⟨a, hl, rfl⟩⟩ := remove_eq p f (standing reason) pool
    · rw [heq]
      exact .refl _
    · rw [heq]
      obtain m | ⟨hreason, -⟩ := marks_standing reason a (pool.book.unlink a p.id)
      · exact AddressBook.keeps_unlink_marks (w.connected hp hpooled hl) m
      · exact absurd (hshut hreason) hforgets
  | clear h => exact absurd h hforgets
  | touch | relay | meet | finish => exact .refl _

theorem Moves.wellFormed (m : Moves forgets pool pool') (w : pool.WellFormed) : pool'.WellFormed := by
  induction m with
  | refl => exact w
  | tail _ m ih => exact m.wellFormed ih

theorem Moves.keeps (m : Moves forgets pool pool') (w : pool.WellFormed) (hforgets : ¬forgets) :
    pool.book.Keeps pool'.book := by
  induction m with
  | refl => exact .refl _
  | tail ms m ih => exact ih.trans (m.keeps (Moves.wellFormed ms w) hforgets)

theorem Move.config_eq (m : Move forgets pool pool') : pool'.config = pool.config := by
  cases m with
  | join p hp h =>
    obtain ⟨-, book, rfl, -⟩ := register_eq_ok h
    rfl
  | leave p reason f =>
    obtain ⟨book, heq, -⟩ := remove_eq p f (standing reason) pool
    rw [heq]
    rfl
  | _ => rfl

theorem Moves.config_eq (m : Moves forgets pool pool') : pool'.config = pool.config := by
  induction m with
  | refl => rfl
  | tail _ m ih => exact m.config_eq.trans ih

end Pool

end ChainSync
