import ChainSync.Pool.Relay
import ChainSync.Pool.Basic
import Mathlib.Data.List.Nodup

/-!
# Peers under requests and answers

Asking a peer, taking its messages out and noting its speed change what
waits for the peer and how the pool ranks it. The rest of what the pool
knows of its peers, their error counts included, stays (`roster`).
-/

namespace ChainSync

structure Profile where
  id : PeerId
  pooled : Bool
  state : PeerState
  bestHeight : Nat
  outboxOpen : Bool
  errors : Nat
  timeouts : Nat

def Peer.profile (p : Peer) : Profile :=
  ⟨p.id, p.pooled, p.state, p.bestHeight, p.outboxOpen, p.weight.errors, p.weight.timeouts⟩

def Peer.asked (now : Instant) (m : Message) (p : Peer) : Peer :=
  { p.noteRequest now with outbox := p.outbox ++ [m] }

namespace Pool

def roster (pool : Pool) : List Profile :=
  pool.peers.map Peer.profile

def queued (pool : Pool) : List (PeerId × Message) :=
  pool.peers.flatMap fun p => p.outbox.map fun m => (p.id, m)

def counters (pool : Pool) : List (PeerId × Nat × Nat) :=
  pool.peers.map fun p => (p.id, p.weight.errors, p.weight.timeouts)

structure Serves (top : Nat) (pool : Pool) : Prop where
  distinct : (pool.peers.map Peer.id).Nodup
  someone : ∃ p ∈ pool.peers, p.pooled = true ∧ p.state = .active
  active : ∀ p ∈ pool.peers, p.pooled = true → p.state = .active → p.bestHeight = top ∧ p.outboxOpen = true

variable {pool pool' : Pool} {top : Nat}

theorem mem_queued {x : PeerId × Message} : x ∈ pool.queued ↔ ∃ p ∈ pool.peers, p.id = x.1 ∧ x.2 ∈ p.outbox := by
  obtain ⟨id, m⟩ := x
  simp only [queued, List.mem_flatMap, List.mem_map, Prod.mk.injEq]
  constructor
  · rintro ⟨p, hp, m', hm, rfl, rfl⟩
    exact ⟨p, hp, rfl, hm⟩
  · rintro ⟨p, hp, hid, hm⟩
    exact ⟨p, hp, m, hm, hid, rfl⟩

/-! ## What a roster tells -/

theorem ids_of_roster_eq (h : pool'.roster = pool.roster) : pool'.peers.map Peer.id = pool.peers.map Peer.id := by
  have := congrArg (List.map Profile.id) h
  simpa [roster, Function.comp_def, Peer.profile] using this

theorem counters_of_roster_eq (h : pool'.roster = pool.roster) : pool'.counters = pool.counters := by
  have := congrArg (List.map fun x : Profile => (x.id, x.errors, x.timeouts)) h
  simpa [roster, counters, Function.comp_def, Peer.profile] using this

theorem Serves.of_roster_eq (s : pool.Serves top) (h : pool'.roster = pool.roster) : pool'.Serves top := by
  have hback : ∀ p' ∈ pool'.peers, ∃ p ∈ pool.peers, p.profile = p'.profile := by
    intro p' hp'
    have : p'.profile ∈ pool.roster := h ▸ List.mem_map_of_mem hp'
    exact List.mem_map.1 this
  constructor
  case distinct => exact ids_of_roster_eq h ▸ s.distinct
  case someone =>
    obtain ⟨p, hp, hpooled, hstate⟩ := s.someone
    have : p.profile ∈ pool'.roster := h ▸ List.mem_map_of_mem hp
    obtain ⟨p', hp', heq⟩ := List.mem_map.1 this
    exact ⟨p', hp', (congrArg Profile.pooled heq).trans hpooled, (congrArg Profile.state heq).trans hstate⟩
  case active =>
    intro p' hp' hpooled hstate
    obtain ⟨p, hp, heq⟩ := hback p' hp'
    obtain ⟨h1, h2⟩ := s.active p hp ((congrArg Profile.pooled heq).trans hpooled)
      ((congrArg Profile.state heq).trans hstate)
    exact ⟨(congrArg Profile.bestHeight heq).symm.trans h1, (congrArg Profile.outboxOpen heq).symm.trans h2⟩

/-! ## Changing one peer -/

theorem roster_modify (id : PeerId) {f : Peer → Peer} (hf : ∀ p, (f p).profile = p.profile) (pool : Pool) :
    (pool.modify id f).roster = pool.roster := by
  unfold roster modify
  rw [List.map_map]
  apply List.map_congr_left
  intro p _
  by_cases hp : p.id = id
  · simp [hp, hf]
  · simp [hp]

theorem eq_of_id_eq (hd : (pool.peers.map Peer.id).Nodup) {p q : Peer} (hp : p ∈ pool.peers) (hq : q ∈ pool.peers)
    (h : p.id = q.id) : p = q :=
  List.inj_on_of_nodup_map hd hp hq h

theorem find?_of_mem (hd : (pool.peers.map Peer.id).Nodup) {p : Peer} (hp : p ∈ pool.peers) :
    pool.find? p.id = some p := by
  obtain ⟨q, hq⟩ : ∃ q, pool.find? p.id = some q :=
    Option.isSome_iff_exists.1 (List.find?_isSome.2 ⟨p, hp, by simp⟩)
  have hid : q.id = p.id := by simpa using List.find?_some hq
  rw [hq, eq_of_id_eq hd (List.mem_of_find?_eq_some hq) hp hid]

/-! ## Asking -/

section
variable (s : pool.Serves top) {p : Peer} (hp : p ∈ pool.peers) (hpooled : p.pooled = true)
  (hstate : p.state = .active) (hroom : p.outbox.length < outboxCapacity) (now : Instant) (m : Message)
include s hp hpooled hstate hroom

theorem Serves.withPeer_ask : pool.withPeer p.id (fun q => (q.noteRequest now).send m) =
    (pool.modify p.id (Peer.asked now m), .ok ()) := by
  have hopen := (s.active p hp hpooled hstate).2
  have hfull : ¬outboxCapacity ≤ (p.noteRequest now).outbox.length := Nat.not_le.2 hroom
  have hsend : (p.noteRequest now).send m = (p.asked now m, .ok ()) := by
    unfold Peer.send
    rw [if_neg (by simp [Peer.noteRequest, hstate]), if_neg (by simp [Peer.noteRequest, hopen]), if_neg hfull]
    rfl
  unfold withPeer
  rw [find?_of_mem s.distinct hp]
  dsimp only
  rw [hsend]
  have hpeers : (pool.modify p.id fun _ => p.asked now m) = pool.modify p.id (Peer.asked now m) := by
    unfold modify
    congr 1
    apply List.map_congr_left
    intro q hq
    by_cases hid : q.id = p.id
    · rw [if_pos hid, if_pos hid, eq_of_id_eq s.distinct hq hp hid]
    · rw [if_neg hid, if_neg hid]
  rw [hpeers]

end

theorem roster_asked (id : PeerId) (now : Instant) (m : Message) (pool : Pool) :
    (pool.modify id (Peer.asked now m)).roster = pool.roster :=
  roster_modify id (f := Peer.asked now m) (fun _ => rfl) pool

theorem mem_queued_asked {p : Peer} (hp : p ∈ pool.peers) (now : Instant) (m : Message) {x : PeerId × Message} :
    x ∈ (pool.modify p.id (Peer.asked now m)).queued ↔ x ∈ pool.queued ∨ x = (p.id, m) := by
  simp only [mem_queued, modify, List.mem_map]
  constructor
  · rintro ⟨_, ⟨q, hq, rfl⟩, hid, hm⟩
    by_cases hqp : q.id = p.id
    · rw [if_pos hqp] at hid hm
      rcases List.mem_append.1 hm with hm | hm
      · exact Or.inl ⟨q, hq, hid, hm⟩
      · exact Or.inr (Prod.ext (hid.symm.trans hqp) (List.mem_singleton.1 hm))
    · rw [if_neg hqp] at hid hm
      exact Or.inl ⟨q, hq, hid, hm⟩
  · rintro (⟨q, hq, hid, hm⟩ | rfl)
    · refine ⟨_, ⟨q, hq, rfl⟩, ?_⟩
      by_cases hqp : q.id = p.id
      · rw [if_pos hqp]
        exact ⟨hid, List.mem_append_left _ hm⟩
      · rw [if_neg hqp]
        exact ⟨hid, hm⟩
    · refine ⟨_, ⟨p, hp, rfl⟩, ?_⟩
      rw [if_pos rfl]
      exact ⟨rfl, List.mem_append_right _ (List.mem_singleton.2 rfl)⟩

theorem length_outbox_asked {k : Nat} (hk : ∀ q ∈ pool.peers, q.outbox.length ≤ k) (id : PeerId) (now : Instant)
    (m : Message) : ∀ q ∈ (pool.modify id (Peer.asked now m)).peers, q.outbox.length ≤ k + 1 := by
  intro q' hq'
  obtain ⟨q, hq, rfl⟩ := List.mem_map.1 hq'
  have := hk q hq
  by_cases hid : q.id = id
  · rw [if_pos hid]
    simp only [Peer.asked, List.length_append, List.length_singleton]
    omega
  · rw [if_neg hid]
    omega

theorem getData_block {hashes : List Hash} (hne : hashes ≠ []) (now : Instant) (p : Peer) :
    p.getData now .block hashes = (p.noteRequest now).send (.getdata ⟨.block, hashes⟩) := by
  unfold Peer.getData
  rw [if_neg (by simpa using hne)]
  rfl

/-! ## Whom to ask -/

theorem of_nextPeer? {now : Instant} {height : Nat} {p : Peer} (h : pool.nextPeer? now height = some p) :
    p ∈ pool.peers ∧ p.pooled = true ∧ p.state = .active ∧ height ≤ p.bestHeight := by
  have hmem := List.mem_mergeSort.1 (List.mem_of_find?_eq_some h)
  obtain ⟨hpool, hactive⟩ := List.mem_filter.1 hmem
  obtain ⟨hp, hpooled⟩ := List.mem_filter.1 hpool
  exact ⟨hp, hpooled, by simpa [Peer.isActive] using hactive, by simpa using List.find?_some h⟩

theorem Serves.exists_nextPeer? (s : pool.Serves top) (now : Instant) {height : Nat} (h : height ≤ top) :
    ∃ p, pool.nextPeer? now height = some p := by
  obtain ⟨p, hp, hpooled, hstate⟩ := s.someone
  refine Option.isSome_iff_exists.1 (List.find?_isSome.2 ⟨p, ?_, ?_⟩)
  · refine List.mem_mergeSort.2 (List.mem_filter.2 ⟨List.mem_filter.2 ⟨hp, hpooled⟩, ?_⟩)
    simp [Peer.isActive, hstate]
  · simpa [(s.active p hp hpooled hstate).1] using h

theorem Serves.nextPeer?_eq_none (s : pool.Serves top) (now : Instant) {height : Nat} (h : top < height) :
    pool.nextPeer? now height = none := by
  rcases hp : pool.nextPeer? now height with _ | p
  · rfl
  · obtain ⟨hmem, hpooled, hstate, hheight⟩ := of_nextPeer? hp
    rw [(s.active p hmem hpooled hstate).1] at hheight
    omega

/-! ## Taking messages out -/

theorem length_outbox_of_idle (h : pool.queued = []) : ∀ q ∈ pool.peers, q.outbox.length ≤ 0 := by
  intro q hq
  have hbox := List.flatMap_eq_nil_iff.1 h q hq
  rw [List.map_eq_nil_iff] at hbox
  rw [hbox]
  exact Nat.le_refl 0

def flushEach (ids : List PeerId) (pool : Pool) : Pool :=
  ids.foldl (fun pool id => pool.modify id (·.drain.1)) pool

theorem roster_flush (id : PeerId) (pool : Pool) : (pool.modify id (·.drain.1)).roster = pool.roster :=
  roster_modify id (f := fun p => p.drain.1) (fun _ => rfl) pool

theorem of_mem_queued_flush {id : PeerId} {x : PeerId × Message} (h : x ∈ (pool.modify id (·.drain.1)).queued) :
    x ∈ pool.queued ∧ x.1 ≠ id := by
  obtain ⟨_, hp, hid, hm⟩ := mem_queued.1 h
  obtain ⟨q, hq, rfl⟩ := List.mem_map.1 hp
  by_cases hqid : q.id = id
  · rw [if_pos hqid] at hm
    cases hm
  · rw [if_neg hqid] at hid hm
    exact ⟨mem_queued.2 ⟨q, hq, hid, hm⟩, fun h => hqid (hid.trans h)⟩

theorem of_mem_queued_flushEach {x : PeerId × Message} {ids : List PeerId} (h : x ∈ (pool.flushEach ids).queued) :
    x ∈ pool.queued ∧ x.1 ∉ ids := by
  induction ids generalizing pool with
  | nil => exact ⟨h, List.not_mem_nil⟩
  | cons id ids ih =>
    obtain ⟨hx, hids⟩ := ih h
    obtain ⟨hx, hid⟩ := of_mem_queued_flush hx
    exact ⟨hx, fun hmem => (List.mem_cons.1 hmem).elim hid hids⟩

theorem queued_flushEach {ids : List PeerId} (h : ∀ p ∈ pool.peers, p.id ∈ ids) : (pool.flushEach ids).queued = [] := by
  refine List.eq_nil_iff_forall_not_mem.2 fun x hx => ?_
  obtain ⟨hx, hid⟩ := of_mem_queued_flushEach hx
  obtain ⟨p, hp, heq, -⟩ := mem_queued.1 hx
  exact hid (heq ▸ h p hp)

end Pool

end ChainSync
