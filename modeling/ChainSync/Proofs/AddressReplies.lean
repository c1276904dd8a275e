import ChainSync.Proofs.Deals
import ChainSync.Proofs.LookAhead
import ChainSync.Proofs.PoolRun
import Mathlib.Data.Set.Card

/-!
# Answers to requests for addresses

A peer that asks for addresses is told where the other peers listen and which
addresses are known. Nothing checks that this names no address twice and does
not name the peer to itself: it holds because every address stands at one
place of the book, and every listed peer is its own entry.
-/

namespace ChainSync.Pool

def Offers (pool : Pool) (id : PeerId) (a : SocketAddress) : Prop :=
  (∃ q ∈ pool.pooledPeers, q.id ≠ id ∧ q.listenAddr? = some a) ∨ a ∈ pool.book.addresses .known

def offered (pool : Pool) (id : PeerId) : List SocketAddress :=
  Assoc.keys (pool.book.connected.filter (·.2 ≠ id)) ++ Assoc.keys pool.book.known

structure Answers (pool : Pool) (p : Peer) (reply : List SocketAddress) : Prop where
  fits : reply.length ≤ maxAddresses
  distinct : reply.Nodup
  offered : ∀ a ∈ reply, pool.Offers p.id a
  foreign : ∀ a ∈ reply, p.listenAddr? ≠ some a
  healthy : ∀ a ∈ reply, a ∉ pool.book.addresses .bad ∧ a ∉ pool.book.addresses .queued
  complete : {a | pool.Offers p.id a}.encard ≤ maxAddresses → ∀ a, pool.Offers p.id a → a ∈ reply

variable {pool : Pool} {p : Peer} {id : PeerId} {a : SocketAddress}

theorem WellFormed.mem_connected_iff (w : pool.WellFormed) :
    (a, id) ∈ pool.book.connected ↔ ∃ q ∈ pool.pooledPeers, q.id = id ∧ q.listenAddr? = some a := by
  rw [w.index]
  constructor
  · intro h
    obtain ⟨q, hq, heq⟩ := List.mem_map.1 h
    exact ⟨q, List.mem_filter.2 ⟨hq, congrArg Seat.pooled heq⟩, congrArg Seat.id heq, congrArg Seat.listen heq⟩
  · rintro ⟨q, hq, rfl, hl⟩
    obtain ⟨hmem, hpooled⟩ := List.mem_filter.1 hq
    rw [← hl, ← hpooled]
    exact List.mem_map_of_mem hmem

theorem mem_keys_others : a ∈ Assoc.keys (pool.book.connected.filter (·.2 ≠ id)) ↔
    ∃ k, (a, k) ∈ pool.book.connected ∧ k ≠ id := by
  simp [Assoc.mem_keys]

theorem WellFormed.mem_offered (w : pool.WellFormed) : a ∈ pool.offered id ↔ pool.Offers id a := by
  rw [Pool.offered, List.mem_append, mem_keys_others]
  refine or_congr_left ⟨?_, ?_⟩
  · rintro ⟨k, hk, hne⟩
    obtain ⟨q, hq, rfl, hl⟩ := w.mem_connected_iff.1 hk
    exact ⟨q, hq, hne, hl⟩
  · rintro ⟨q, hq, hne, hl⟩
    exact ⟨q.id, w.mem_connected_iff.2 ⟨q, hq, rfl, hl⟩, hne⟩

theorem WellFormed.nodup_offered (w : pool.WellFormed) (id : PeerId) : (pool.offered id).Nodup := by
  have hsub : (Assoc.keys (pool.book.connected.filter (·.2 ≠ id))).Sublist (pool.book.addresses .connected) :=
    List.filter_sublist.map Prod.fst
  refine (hsub.nodup (w.book.nodup .connected)).append (w.book.nodup .known) fun a ha hknown => ?_
  exact w.book.disjoint .connected .known (by decide) (hsub.subset ha) hknown

theorem standing_offered (h : a ∈ pool.offered id) :
    ∃ s, (s = .connected ∨ s = .known) ∧ a ∈ pool.book.addresses s := by
  rcases List.mem_append.1 h with h | h
  · obtain ⟨k, hk, -⟩ := mem_keys_others.1 h
    exact ⟨.connected, .inl rfl, Assoc.mem_keys.2 ⟨k, hk⟩⟩
  · exact ⟨.known, .inr rfl, h⟩

theorem WellFormed.listenAddr_not_offered (w : pool.WellFormed) (hp : p ∈ pool.pooledPeers)
    (hl : p.listenAddr? = some a) : a ∉ pool.offered p.id := by
  have hown : (a, p.id) ∈ pool.book.connected := w.mem_connected_iff.2 ⟨p, hp, rfl, hl⟩
  have hget := Assoc.get?_eq_some_iff (k := a) (b := p.id) (w.book.nodup .connected)
  intro h
  rcases List.mem_append.1 h with h | h
  · obtain ⟨k, hk, hne⟩ := mem_keys_others.1 h
    have hother := (Assoc.get?_eq_some_iff (w.book.nodup .connected)).2 hk
    exact hne (Option.some.inj (hother.symm.trans (hget.2 hown)))
  · exact w.book.disjoint .connected .known (by decide) (Assoc.mem_keys.2 ⟨p.id, hown⟩) h

/-- Whatever order the book has, the first of the addresses on offer are an answer. -/
theorem WellFormed.answers (w : pool.WellFormed) (hp : p ∈ pool.pooledPeers) {order : List SocketAddress}
    (horder : order.Perm (pool.offered p.id)) : pool.Answers p (order.take maxAddresses) := by
  have hnodup : order.Nodup := horder.nodup_iff.2 (w.nodup_offered p.id)
  have hmem : ∀ a ∈ order.take maxAddresses, a ∈ pool.offered p.id := fun a ha =>
    horder.subset (List.mem_of_mem_take ha)
  constructor
  case fits => exact List.length_take_le ..
  case distinct => exact (List.take_sublist ..).nodup hnodup
  case offered => exact fun a ha => w.mem_offered.1 (hmem a ha)
  case foreign => exact fun a ha hl => w.listenAddr_not_offered hp hl (hmem a ha)
  case healthy =>
    intro a ha
    obtain ⟨s, hs, hmem⟩ := standing_offered (hmem a ha)
    constructor
    · exact w.book.disjoint s .bad (by rintro rfl; simp at hs) hmem
    · exact w.book.disjoint s .queued (by rintro rfl; simp at hs) hmem
  case complete =>
    intro hfew a ha
    have hset : {a | pool.Offers p.id a} = (order.toFinset : Set SocketAddress) := by
      ext b
      rw [Set.mem_ofPred_eq, ← w.mem_offered, List.coe_toFinset, Set.mem_ofPred_eq, horder.mem_iff]
    rw [hset, Set.encard_coe_eq_coe_finsetCard, List.toFinset_card_of_nodup hnodup, Nat.cast_le] at hfew
    rw [List.take_of_length_le hfew]
    exact horder.mem_iff.2 (w.mem_offered.2 ha)

/-! ## Sending it -/

theorem send_of_hasRoom (hstate : p.state ≠ .disconnected) (hroom : p.HasRoom) (m : Message) :
    p.send m = ({ p with outbox := p.outbox ++ [m] }, .ok ()) := by
  unfold Peer.send
  rw [if_neg hstate, if_neg (not_not_intro hroom.1), if_neg (Nat.not_le.2 hroom.2)]

theorem WellFormed.outboxOf_answered (w : pool.WellFormed) (hp : p ∈ pool.pooledPeers)
    (hstate : p.state ≠ .disconnected) (hroom : p.HasRoom) (now : Instant) : ∃ entries : List AddressEntry,
      entries.map (·.address) = (pool.offered p.id).take maxAddresses ∧
        ∀ id, (pool.answerAddressRequest now p.id).outboxOf id =
          pool.outboxOf id ++ (Message.addr entries).onlyTo p.id id := by
  obtain ⟨hmem, hpooled⟩ := List.mem_filter.1 hp
  let entries : List AddressEntry :=
    (pool.addressesFor p.id).map fun a => ⟨(now / 1000000).toUInt32, fullNode, a⟩
  have hsent : pool.answerAddressRequest now p.id =
      pool.modify p.id fun _ => { p with outbox := p.outbox ++ [.addr entries] } := by
    unfold answerAddressRequest
    rw [peer?_of_mem w.distinct hmem hpooled]
    show (pool.withPeer p.id (·.send (.addr entries))).1 = _
    rw [withPeer_of_mem w.distinct hmem, send_of_hasRoom hstate hroom]
  refine ⟨entries, ?_, fun id => ?_⟩
  · rw [List.map_map]
    exact List.map_id _
  · have hqueued := deals_put (q := { p with outbox := p.outbox ++ [.addr entries] })
      (find?_of_mem w.distinct hmem) rfl rfl rfl
    rw [hsent]
    exact hqueued.outbox id

/-- A pooled peer that asks for addresses gets one message, with each address on offer at most once, without
its own and any that is bad or only queued, and with all that are on offer if the message holds them. -/
theorem address_request_answered [Digest] (config : PoolConfig) (nonce : UInt32) (ops : List Operation) :
    let pool := (fresh config nonce).run ops
    ∀ p ∈ pool.pooledPeers, p.state ≠ .disconnected → p.HasRoom →
      (∀ now sink, ∃ entries : List AddressEntry,
        pool.Answers p (entries.map (·.address)) ∧
          ∀ id, (pool.handle now sink (.addressRequest p.id)).outboxOf id =
            pool.outboxOf id ++ (Message.addr entries).onlyTo p.id id) ∧
      ∀ order : List SocketAddress, order.Perm (pool.offered p.id) → pool.Answers p (order.take maxAddresses) := by
  intro pool p hp hstate hroom
  have w : pool.WellFormed := ((wellFormed_fresh config nonce).run ops).1
  refine ⟨fun now sink => ?_, fun order horder => w.answers hp horder⟩
  obtain ⟨entries, hlisted, hsent⟩ := w.outboxOf_answered hp hstate hroom now
  exact ⟨entries, hlisted ▸ w.answers hp (.refl _), hsent⟩

/-- An inbound peer that listens at another port, an outbound one, and an address of each kind. -/
theorem address_request_answered_inbound :
    let asker := (Peer.connecting 1 (Scripted.address 1) true 0).activate (Scripted.version 7 2001 0)
    let p := { asker with pooled := true }
    let ops : List Operation :=
      [.churn 0 (.arrive (Scripted.address 1) true (Scripted.version 7 2001 0)),
        .churn 0 (.arrive (Scripted.address 2) false (Scripted.version 8 10333 0)),
        .churn 0 (.addresses [Scripted.address 3, Scripted.address 4, Scripted.address 5]),
        .settle ⟨Scripted.address 3, .join⟩ true, .settle ⟨Scripted.address 4, .join⟩ false]
    let pool := (fresh .default 0).run ops
    p ∈ pool.pooledPeers ∧ p.state ≠ .disconnected ∧ p.HasRoom ∧ p.listenAddr? ≠ some p.addr ∧
      pool.offered p.id = [Scripted.address 2, Scripted.address 3] ∧
      (∀ now sink, ∃ entries : List AddressEntry, pool.Answers p (entries.map (·.address)) ∧
        ∀ id, (pool.handle now sink (.addressRequest p.id)).outboxOf id =
          pool.outboxOf id ++ (Message.addr entries).onlyTo p.id id) ∧
      pool.Answers p [Scripted.address 3, Scripted.address 2] := by
  intro asker p ops pool
  have hp : p ∈ pool.pooledPeers := by decide
  have hstate : p.state ≠ .disconnected := by decide
  have hroom : p.HasRoom := ⟨rfl, by decide⟩
  have hoffered : pool.offered p.id = [Scripted.address 2, Scripted.address 3] := by decide
  obtain ⟨hreply, horder⟩ := address_request_answered .default 0 ops p hp hstate hroom
  have hswapped : [Scripted.address 3, Scripted.address 2].Perm (pool.offered p.id) := by
    rw [hoffered]
    exact .swap ..
  exact ⟨hp, hstate, hroom, by decide, hoffered, hreply, horder _ hswapped⟩

end ChainSync.Pool
