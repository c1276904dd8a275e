import ChainSync.Proofs.Outboxes
import ChainSync.Proofs.Peers
import ChainSync.Proofs.Selection

/-!
# What the pool is told and charged with

Two things about peers are kept count of here: the messages that are queued
to them and the timeouts that they are charged with. An operation either
queues one message to one peer or none at all, and only a charge counts.
-/

namespace ChainSync

def Message.onlyTo (id : PeerId) (m : Message) (k : PeerId) : List Message :=
  if k = id then [m] else []

namespace Pool

def Within (bound : PeerId → Nat) (pool : Pool) : Prop :=
  ∀ p ∈ pool.peers, p.weight.timeouts ≤ bound p.id

/-- What a piece of history tells the peers, and how many timeouts it charges them with at most. -/
structure Deals (told : PeerId → List Message) (charged : PeerId → Nat) (pool pool' : Pool) : Prop where
  keyed : pool.Keyed → pool'.Keyed
  outbox : ∀ id, pool'.outboxOf id = pool.outboxOf id ++ told id
  within : ∀ bound, pool.Within bound → pool'.Within fun id => bound id + charged id

abbrev silent : PeerId → List Message := fun _ => []

abbrev free : PeerId → Nat := fun _ => 0

def charge (ids : List PeerId) (pool : Pool) : Pool :=
  ids.foldl (fun pool id => (pool.penaliseTimeout id).1) pool

variable {pool pool' : Pool} {id : PeerId}

theorem Deals.refl (pool : Pool) : pool.Deals silent free pool :=
  ⟨fun hk => hk, fun _ => (List.append_nil _).symm, fun _ h => h⟩

theorem Deals.trans {told told' : PeerId → List Message} {charged charged' : PeerId → Nat} {pool'' : Pool}
    (d : pool.Deals told charged pool') (d' : pool'.Deals told' charged' pool'') :
    pool.Deals (fun id => told id ++ told' id) (fun id => charged id + charged' id) pool'' where
  keyed := fun hk => d'.keyed (d.keyed hk)
  outbox := fun id => by rw [d'.outbox, d.outbox, List.append_assoc]
  within := fun bound h p hp => by
    have := d'.within _ (d.within bound h) p hp
    simpa only [Nat.add_assoc] using this

section
variable {f : Peer → Peer} {c : Nat}

theorem deals_modify (id : PeerId) (hid : ∀ p, (f p).id = p.id) (hbox : ∀ p, (f p).outbox = p.outbox)
    (htimeouts : ∀ p, (f p).weight.timeouts ≤ p.weight.timeouts + c) (pool : Pool) :
    pool.Deals silent (fun k => if k = id then c else 0) (pool.modify id f) where
  keyed := (quiet_modify id hid hbox pool).keyed
  outbox := by
    intro k
    have hfind : (pool.modify id f).find? k = (pool.find? k).map fun p => if p.id = id then f p else p := by
      refine find?_of_map rfl (fun p => ?_) k
      split
      · exact hid p
      · rfl
    have hsame : (Peer.outbox ∘ fun p => if p.id = id then f p else p) = Peer.outbox := by
      funext p
      show (if p.id = id then f p else p).outbox = p.outbox
      split
      · exact hbox p
      · rfl
    rw [outboxOf, hfind, Option.map_map, hsame, List.append_nil, outboxOf]
  within := by
    intro bound h q hq
    obtain ⟨p, hp, rfl⟩ := List.mem_map.1 hq
    by_cases hpid : p.id = id
    · have := h p hp
      have := htimeouts p
      simp only [hpid, if_true, hid] at *
      omega
    · simp only [hpid, if_false]
      exact h p hp

theorem deals_of_peers_eq (hpeers : pool'.peers = pool.peers) (hnext : pool'.nextId = pool.nextId) :
    pool.Deals silent free pool' where
  keyed := fun hk => ⟨hpeers ▸ hk.distinct, hnext ▸ hpeers ▸ hk.used⟩
  outbox := fun id => by rw [List.append_nil, outboxOf, outboxOf, find?, find?, hpeers]
  within := fun bound h p hp => h p (hpeers ▸ hp)

end

/-! ## Charges -/

theorem Deals.thenFree {told : PeerId → List Message} {charged : PeerId → Nat} {pool'' : Pool}
    (d : pool.Deals told charged pool') (d' : pool'.Deals silent free pool'') : pool.Deals told charged pool'' := by
  have := d.trans d'
  simpa only [silent, free, List.append_nil, Nat.add_zero] using this

theorem deals_remove (p : Peer) {f : Peer → Peer} (g : SocketAddress → AddressBook → AddressBook)
    (hid : ∀ q, (f q).id = q.id) (hbox : ∀ q, (f q).outbox = q.outbox) (hweight : ∀ q, (f q).weight = q.weight)
    (pool : Pool) : pool.Deals silent free (pool.remove p f g) := by
  obtain ⟨book, heq, -⟩ := remove_eq p f g pool
  have hleft := deals_modify (f := fun q => { f q with pooled := false }) (c := 0) p.id hid hbox
    (fun q => Nat.le_of_eq (congrArg Weight.timeouts (hweight q))) pool
  rw [heq]
  simp only [ite_self] at hleft
  exact hleft.thenFree (deals_of_peers_eq rfl rfl)

theorem deals_replace (id : PeerId) (pool : Pool) : pool.Deals silent free (pool.replace id) := by
  unfold replace
  cases pool.peer? id with
  | none => exact .refl pool
  | some p =>
    have hleft := deals_remove p (f := (·.disconnect .replaced)) AddressBook.markBad (fun _ => rfl) (fun _ => rfl)
      (fun _ => rfl) pool
    dsimp only
    split
    · exact hleft
    · exact hleft.thenFree (deals_of_peers_eq rfl rfl)

theorem deals_penaliseTimeout (id : PeerId) (pool : Pool) :
    pool.Deals silent (fun k => if k = id then 1 else 0) (pool.penaliseTimeout id).1 := by
  unfold penaliseTimeout
  cases pool.peer? id with
  | none =>
    have hsame := Deals.refl pool
    exact ⟨hsame.keyed, hsame.outbox, fun bound h p hp => (h p hp).trans (Nat.le_add_right _ _)⟩
  | some p =>
    have hcount := deals_modify (f := Peer.addTimeout) (c := 1) id (fun _ => rfl) (fun _ => rfl)
      (fun q => Nat.min_le_left _ _) pool
    dsimp only
    split
    · exact hcount.thenFree (deals_replace id _)
    · exact hcount

theorem deals_charge : ∀ {ids : List PeerId}, ids.Nodup → ∀ pool : Pool,
    pool.Deals silent (fun k => if k ∈ ids then 1 else 0) (pool.charge ids)
  | [], _, pool => .refl pool
  | id :: ids, hd, pool => by
    obtain ⟨hnew, hd⟩ := List.nodup_cons.1 hd
    have hall := (deals_penaliseTimeout id pool).trans (deals_charge hd (pool.penaliseTimeout id).1)
    have hcharged : (fun k => (if k = id then 1 else 0) + if k ∈ ids then 1 else 0) =
        fun k => if k ∈ id :: ids then 1 else 0 := by
      funext k
      by_cases hk : k = id
      · simp [hk, hnew]
      · simp [hk]
    rw [hcharged] at hall
    exact hall

theorem outboxOf_charge {ids : List PeerId} (hd : ids.Nodup) (pool : Pool) (id : PeerId) :
    (pool.charge ids).outboxOf id = pool.outboxOf id :=
  ((deals_charge hd pool).outbox id).trans (List.append_nil _)

/-! ## Queueing a message -/

end Pool

theorem Peer.send_eq (m : Message) (p : Peer) :
    (∃ e, p.send m = (p, .error e)) ∨ p.send m = ({ p with outbox := p.outbox ++ [m] }, .ok ()) := by
  unfold send
  split
  · exact .inl ⟨_, rfl⟩
  · split
    · exact .inl ⟨_, rfl⟩
    · split
      · exact .inl ⟨_, rfl⟩
      · exact .inr rfl

namespace Pool

variable {pool : Pool} {p q : Peer}

theorem deals_put (hfind : pool.find? p.id = some p) (hid : q.id = p.id) {ms : List Message}
    (hbox : q.outbox = p.outbox ++ ms) (htimeouts : q.weight.timeouts = p.weight.timeouts) :
    pool.Deals (fun k => if k = p.id then ms else []) free (pool.modify p.id fun _ => q) where
  keyed := fun hk => hk.put hid
  outbox := by
    intro k
    rw [outboxOf, find?_put hfind hid]
    by_cases hk : k = p.id
    · rw [if_pos hk, if_pos hk, outboxOf, hk, hfind]
      exact hbox
    · rw [if_neg hk, if_neg hk, List.append_nil, outboxOf]
  within := by
    intro bound h r hr
    obtain ⟨o, ho, rfl⟩ := List.mem_map.1 hr
    by_cases hoid : o.id = p.id
    · rw [if_pos hoid, htimeouts, hid]
      exact h p (List.mem_of_find?_eq_some hfind)
    · rw [if_neg hoid]
      exact h o ho

theorem withPeer_of_mem (hd : (pool.peers.map Peer.id).Nodup) (hp : p ∈ pool.peers)
    (f : Peer → Peer × Except NetError Unit) :
    pool.withPeer p.id f = (pool.modify p.id fun _ => (f p).1, (f p).2) := by
  unfold withPeer
  rw [find?_of_mem hd hp]

theorem withPeer_request {f : Peer → Peer × Except NetError Unit} {m : Message} {now : Instant}
    (hf : ∀ q, f q = (q.noteRequest now).send m) (hk : pool.Keyed) (hp : p ∈ pool.peers) :
    (∃ pool' e, pool.withPeer p.id f = (pool', .error e) ∧ pool.Deals silent free pool') ∨
      ∃ pool', pool.withPeer p.id f = (pool', .ok ()) ∧ pool.Deals (m.onlyTo p.id) free pool' := by
  have hfind := find?_of_mem hk.distinct hp
  rw [withPeer_of_mem hk.distinct hp, hf]
  obtain ⟨e, h⟩ | h := (p.noteRequest now).send_eq m
  · have hnoted := deals_put (q := p.noteRequest now) hfind rfl (List.append_nil _).symm rfl
    simp only [ite_self] at hnoted
    rw [h]
    exact .inl ⟨_, e, rfl, hnoted⟩
  · have hqueued := deals_put (q := { p.noteRequest now with outbox := p.outbox ++ [m] }) hfind rfl rfl rfl
    rw [h]
    exact .inr ⟨_, rfl, hqueued⟩

end Pool

end ChainSync
