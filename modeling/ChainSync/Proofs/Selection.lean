import ChainSync.Pool.Basic

/-!
# Whom to ask

Peers are ranked by weight, heaviest first, and of those that are high enough
the first is asked. A retry goes to one that failed least, and of these to
the heaviest: the scan of the ranking keeps, at every step, a peer that is
preferred to all those behind it.
-/

namespace ChainSync

def Peer.Outweighs (now : Instant) (p q : Peer) : Prop :=
  (q.weight.value now).rank ≤ (p.weight.value now).rank

namespace Pool

def Reaches (height : Nat) (pool : Pool) (p : Peer) : Prop :=
  p ∈ pool.pooledPeers ∧ p.isActive = true ∧ height ≤ p.bestHeight

/-- Whether a retry that goes to `p` could not do better with `q`. -/
def Prefers (now : Instant) (failures : PeerId → Nat) (p q : Peer) : Prop :=
  failures p.id < failures q.id ∨ failures p.id = failures q.id ∧ p.Outweighs now q

variable {now : Instant} {height : Nat} {failures : PeerId → Nat} {pool : Pool} {p q r : Peer}

theorem Reaches.mem (h : pool.Reaches height p) : p ∈ pool.peers :=
  (List.mem_filter.1 h.1).1

/-! ## The ranking -/

def eligible (now : Instant) (height : Nat) (pool : Pool) : List Peer :=
  (pool.ranked now).filter (height ≤ ·.bestHeight)

theorem mem_eligible : p ∈ pool.eligible now height ↔ pool.Reaches height p := by
  rw [eligible, List.mem_filter, ranked, List.mem_mergeSort, List.mem_filter, decide_eq_true_eq, and_assoc]
  rfl

theorem eligible_eq_nil_iff : pool.eligible now height = [] ↔ ∀ p, ¬pool.Reaches height p := by
  rw [List.eq_nil_iff_forall_not_mem]
  exact forall_congr' fun _ => not_congr mem_eligible

theorem pairwise_eligible (now : Instant) (height : Nat) (pool : Pool) :
    (pool.eligible now height).Pairwise (Peer.Outweighs now) := by
  have hsorted : (pool.ranked now).Pairwise fun p q =>
      decide ((q.weight.value now).rank ≤ (p.weight.value now).rank) := by
    refine List.pairwise_mergeSort ?_ ?_ _
    · intro p q r hpq hqr
      simp only [decide_eq_true_eq] at hpq hqr ⊢
      exact Int.le_trans hqr hpq
    · intro p q
      simp only [Bool.or_eq_true, decide_eq_true_eq]
      exact Int.le_total _ _
  exact (hsorted.imp of_decide_eq_true).sublist List.filter_sublist

theorem nextPeer?_eq (now : Instant) (height : Nat) (pool : Pool) :
    pool.nextPeer? now height = (pool.eligible now height).head? :=
  (List.head?_filter ..).symm

/-! ## Preference -/

theorem Prefers.refl (p : Peer) : Prefers now failures p p :=
  .inr ⟨rfl, Int.le_refl _⟩

theorem Prefers.trans (h : Prefers now failures p q) (h' : Prefers now failures q r) : Prefers now failures p r := by
  rcases h with hlt | ⟨heq, hweight⟩ <;> rcases h' with hlt' | ⟨heq', hweight'⟩
  · exact .inl (Nat.lt_trans hlt hlt')
  · exact .inl (heq' ▸ hlt)
  · exact .inl (heq ▸ hlt')
  · exact .inr ⟨heq.trans heq', Int.le_trans hweight' hweight⟩

/-- The peer ahead in the ranking is preferred unless it failed more. -/
theorem Prefers.of_ranked (hfailures : failures p.id ≤ failures q.id) (hweight : p.Outweighs now q) :
    Prefers now failures p q :=
  (Nat.lt_or_eq_of_le hfailures).imp_right fun heq => ⟨heq, hweight⟩

theorem Prefers.failures_le (h : Prefers now failures p q) : failures p.id ≤ failures q.id := by
  rcases h with hlt | ⟨heq, -⟩
  · exact Nat.le_of_lt hlt
  · exact Nat.le_of_eq heq

theorem leastFailed_eq_none_iff : ∀ {best : Option Peer} {peers : List Peer},
    leastFailed failures best peers = none ↔ best = none ∧ peers = []
  | best, [] => by simp [leastFailed]
  | best, p :: peers => by
    unfold leastFailed
    split
    · simp
    · cases best with
      | none => simp [leastFailed_eq_none_iff]
      | some b => simp [leastFailed_eq_none_iff]

/-- The best one seen so far has failed, and stands for all that were ranked ahead of the rest. -/
theorem leastFailed_spec : ∀ (best : Option Peer) (peers : List Peer), (∀ b ∈ best, 0 < failures b.id) →
    (best.toList ++ peers).Pairwise (Peer.Outweighs now) → leastFailed failures best peers = some p →
      p ∈ best.toList ++ peers ∧ ∀ q ∈ best.toList ++ peers, Prefers now failures p q
  | best, [], _, _, h => by
    obtain rfl : best = some p := h
    refine ⟨List.mem_singleton_self p, fun q hq => ?_⟩
    rw [List.mem_singleton.1 hq]
    exact .refl p
  | best, r :: peers, hbest, hranked, h => by
    unfold leastFailed at h
    split at h
    · -- nobody who did not fail at all is ahead of this one
      rename_i hnone
      obtain rfl : r = p := Option.some.inj h
      refine ⟨List.mem_append_right _ (List.mem_cons_self ..), fun q hq => ?_⟩
      rcases List.mem_append.1 hq with hq | hq
      · exact .inl (hnone ▸ hbest q (Option.mem_toList.1 hq))
      · rcases List.mem_cons.1 hq with rfl | hq
        · exact .refl q
        · have hrest := (List.pairwise_append.1 hranked).2.1
          exact .of_ranked (hnone ▸ Nat.zero_le _) (List.rel_of_pairwise_cons hrest hq)
    · rename_i hfailed
      cases best with
      | none =>
        have hr : ∀ b ∈ some r, 0 < failures b.id := by simpa using Nat.pos_of_ne_zero hfailed
        exact leastFailed_spec (some r) peers hr hranked h
      | some b =>
        have hb : 0 < failures b.id := hbest b rfl
        have hahead : b.Outweighs now r := List.rel_of_pairwise_cons hranked (List.mem_cons_self ..)
        dsimp only at h
        split at h
        · rename_i hfewer
          have hrest : (r :: peers).Pairwise (Peer.Outweighs now) := (List.pairwise_cons.1 hranked).2
          obtain ⟨hmem, hall⟩ := leastFailed_spec (some r) peers (by simpa using Nat.pos_of_ne_zero hfailed) hrest h
          refine ⟨List.mem_cons_of_mem _ hmem, fun q hq => ?_⟩
          rcases List.mem_cons.1 hq with rfl | hq
          · exact (hall r (List.mem_cons_self ..)).trans (.inl hfewer)
          · exact hall q hq
        · rename_i hnotfewer
          have hrest : (b :: peers).Pairwise (Peer.Outweighs now) :=
            hranked.sublist (.cons_cons b (List.sublist_cons_self r peers))
          obtain ⟨hmem, hall⟩ := leastFailed_spec (some b) peers (by simpa using hb) hrest h
          refine ⟨?_, fun q hq => ?_⟩
          · rcases List.mem_cons.1 hmem with rfl | hmem
            · exact List.mem_cons_self ..
            · exact List.mem_cons_of_mem _ (List.mem_cons_of_mem _ hmem)
          · rcases List.mem_cons.1 hq with rfl | hq
            · exact hall q (List.mem_cons_self ..)
            · rcases List.mem_cons.1 hq with rfl | hq
              · exact (hall b (List.mem_cons_self ..)).trans (.of_ranked (Nat.not_lt.1 hnotfewer) hahead)
              · exact hall q (List.mem_cons_of_mem _ hq)

/-! ## The choices -/

theorem retryPeer?_eq_none_iff : pool.retryPeer? now failures height = none ↔ ∀ p, ¬pool.Reaches height p := by
  rw [retryPeer?, leastFailed_eq_none_iff, ← @eligible_eq_nil_iff now]
  exact and_iff_right rfl

theorem of_retryPeer? (h : pool.retryPeer? now failures height = some p) :
    pool.Reaches height p ∧ ∀ q, pool.Reaches height q → Prefers now failures p q := by
  obtain ⟨hmem, hall⟩ := leastFailed_spec none _ nofun (pool.pairwise_eligible now height) h
  exact ⟨mem_eligible.1 hmem, fun q hq => hall q (mem_eligible.2 hq)⟩

theorem exists_retryPeer? (hq : pool.Reaches height q) (now : Instant) (failures : PeerId → Nat) :
    ∃ p, pool.retryPeer? now failures height = some p ∧ pool.Reaches height p ∧
      ∀ r, pool.Reaches height r → failures p.id ≤ failures r.id := by
  obtain ⟨p, hp⟩ := Option.ne_none_iff_exists'.1 fun hnone => retryPeer?_eq_none_iff.1 hnone q hq
  obtain ⟨hreaches, hprefers⟩ := of_retryPeer? hp
  exact ⟨p, hp, hreaches, fun r hr => (hprefers r hr).failures_le⟩

theorem mem_of_retryPeer? (h : pool.retryPeer? now failures height = some p) : p ∈ pool.peers :=
  (of_retryPeer? h).1.mem

/-- A request goes to the heaviest of the active peers that are high enough, and its retry to the heaviest of
those that failed it least, so to one that has not failed it if there is any. Nobody is asked only when nobody is
high enough. -/
theorem selection_is_best (pool : Pool) (now : Instant) (height : Nat) (failures : PeerId → Nat) :
    (pool.nextPeer? now height = none ↔ ∀ p, ¬pool.Reaches height p) ∧
    (∀ p, pool.nextPeer? now height = some p →
      pool.Reaches height p ∧ ∀ q, pool.Reaches height q → p.Outweighs now q) ∧
    (pool.retryPeer? now failures height = none ↔ ∀ p, ¬pool.Reaches height p) ∧
    ∀ p, pool.retryPeer? now failures height = some p →
      pool.Reaches height p ∧
      (∀ q, pool.Reaches height q → failures p.id ≤ failures q.id ∧
        (failures q.id = failures p.id → p.Outweighs now q)) ∧
      (0 < failures p.id → ∀ q, pool.Reaches height q → 0 < failures q.id) := by
  refine ⟨?_, fun p h => ?_, retryPeer?_eq_none_iff, fun p h => ?_⟩
  · rw [nextPeer?_eq, List.head?_eq_none_iff, eligible_eq_nil_iff]
  · rw [nextPeer?_eq] at h
    obtain ⟨behind, heq⟩ := List.head?_eq_some_iff.1 h
    have hranked := pool.pairwise_eligible now height
    rw [heq] at hranked
    refine ⟨mem_eligible.1 (List.mem_of_head? h), fun q hq => ?_⟩
    have hq : q ∈ pool.eligible now height := mem_eligible.2 hq
    rw [heq] at hq
    rcases List.mem_cons.1 hq with rfl | hq
    · exact Int.le_refl _
    · exact List.rel_of_pairwise_cons hranked hq
  · obtain ⟨hreaches, hall⟩ := of_retryPeer? h
    refine ⟨hreaches, fun q hq => ⟨(hall q hq).failures_le, fun hsame => ?_⟩, fun hfailed q hq => ?_⟩
    · rcases hall q hq with hlt | ⟨-, hweight⟩
      · exact absurd hsame.symm (Nat.ne_of_lt hlt)
      · exact hweight
    · exact Nat.lt_of_lt_of_le hfailed (hall q hq).failures_le

end Pool

end ChainSync
