import ChainSync.Proofs.PoolRun
import ChainSync.Proofs.Uncharged

/-!
# Maintenance of a short pool

A pool that is short of peers and still has an address to try comes to dial
one. A check makes bad addresses known only when there is nothing else, and
dials known ones only in the next check; so two checks are enough, whatever
order the known addresses come in.
-/

namespace ChainSync

namespace AddressBook

def HasSpare (b : AddressBook) : Prop :=
  b.queued ≠ [] ∨ b.known ≠ [] ∨ b.bad ≠ []

/-- How many checks a book with a spare address is away from a dial. -/
def checksToDial (b : AddressBook) : Nat :=
  if b.queued ≠ [] then 0
  else if b.known ≠ [] then 1
  else 2

variable {b : AddressBook}

theorem checksToDial_le_two (b : AddressBook) : b.checksToDial ≤ 2 := by
  unfold checksToDial
  split_ifs <;> decide

theorem checksToDial_eq_zero_iff : b.checksToDial = 0 ↔ b.queued ≠ [] := by
  unfold checksToDial
  split_ifs <;> simp_all

theorem checksToDial_le_one_iff : b.checksToDial ≤ 1 ↔ b.queued ≠ [] ∨ b.known ≠ [] := by
  unfold checksToDial
  split_ifs <;> simp_all

theorem known_recycle_ne_nil (h : b.bad ≠ []) : b.recycle.known ≠ [] := by
  obtain ⟨a, ha⟩ := List.exists_mem_of_ne_nil _ h
  have hmem : a ∈ b.recycle.addresses .known := mem_recycle.2 (.inl ⟨rfl, ha⟩)
  obtain ⟨e, he, -⟩ := List.mem_map.1 hmem
  exact List.ne_nil_of_mem he

theorem checksToDial_reorder {known : List (SocketAddress × Bool)} (h : known.Perm b.known) :
    ({ b with known } : AddressBook).checksToDial = b.checksToDial := by
  have hnil : known = [] ↔ b.known = [] := by
    rw [← List.length_eq_zero_iff, h.length_eq, List.length_eq_zero_iff]
  simp only [checksToDial, ne_eq, hnil]

theorem HasSpare.reorder {known : List (SocketAddress × Bool)} (s : b.HasSpare) (h : known.Perm b.known) :
    ({ b with known } : AddressBook).HasSpare :=
  s.imp_right (Or.imp_left fun hne hnil => hne (List.nil_perm.1 (hnil ▸ h)))

end AddressBook

namespace Pool

variable {pool : Pool}

namespace Operation

def Maintains : Operation → Prop
  | churn _ .check | reorder _ => True
  | _ => False

def isCheck : Operation → Bool
  | churn _ .check => true
  | _ => false

end Operation

/-! ## The dials of a check -/

theorem queued_enqueueAll_ne_nil (mode : DialMode) : ∀ (addresses : List SocketAddress) {pool : Pool},
    pool.book.queued ≠ [] ∨ addresses ≠ [] → (pool.enqueueAll mode addresses).book.queued ≠ []
  | [], _, h => h.resolve_right (fun hne => hne rfl)
  | a :: addresses, pool, _ => by
    have hqueued : a ∈ (pool.enqueue a mode).book.queued := List.mem_insert_self
    exact queued_enqueueAll_ne_nil mode addresses (.inl (List.ne_nil_of_mem hqueued))

theorem candidates_ne_nil (h : pool.book.known ≠ []) : pool.candidates ≠ [] := by
  obtain ⟨e, he⟩ := List.exists_mem_of_ne_nil _ h
  refine List.ne_nil_of_mem (List.mem_map_of_mem (a := e) ?_)
  cases hprobed : e.2 with
  | true => exact List.mem_append_left _ (List.mem_filter.2 ⟨he, hprobed⟩)
  | false => exact List.mem_append_right _ (List.mem_filter.2 ⟨he, by simp [hprobed]⟩)

theorem queued_refill_of_queued (h : pool.book.queued ≠ []) : pool.refill.book.queued ≠ [] := by
  obtain ⟨mode, addresses, hrefill, -⟩ := pool.refill_dials
  rw [hrefill]
  exact queued_enqueueAll_ne_nil mode addresses (.inl h)

theorem queued_refill_of_known (hroom : pool.count < pool.config.maxClients) (hqueued : pool.book.queued = [])
    (hknown : pool.book.known ≠ []) : pool.refill.book.queued ≠ [] := by
  have hopen : 0 < pool.config.maxClients - (pool.count + pool.book.queued.length) := by
    rw [hqueued, List.length_nil]
    omega
  unfold refill
  dsimp only
  rw [if_pos hopen]
  refine queued_enqueueAll_ne_nil _ _ (.inr ?_)
  rw [Ne, List.take_eq_nil_iff, not_or]
  exact ⟨Nat.ne_of_gt hopen, candidates_ne_nil hknown⟩

theorem refill_of_known_nil (h : pool.book.known = []) : pool.refill = pool := by
  obtain ⟨mode, addresses, hrefill, hknown⟩ := pool.refill_dials
  have hnone : addresses = [] := by
    refine List.eq_nil_iff_forall_not_mem.2 fun a ha => ?_
    obtain ⟨e, he, -⟩ := List.mem_map.1 (hknown a ha)
    rw [h] at he
    cases he
  rw [hrefill, hnone]
  rfl

/-! ## One check -/

theorem queued_check (pool : Pool) : pool.check.book.queued = pool.refill.book.queued := by
  rcases pool.check_cases with h | h <;> rw [h]
  rfl

theorem check_of_bad (hshort : pool.count < pool.config.minClients) (hqueued : pool.book.queued = [])
    (hknown : pool.book.known = []) (hbad : pool.book.bad ≠ []) :
    pool.check = { pool with book := pool.book.recycle } := by
  rw [check_eq, refill_of_known_nil hknown]
  exact if_pos (by simp [hshort, hknown, hqueued, hbad])

structure Short (pool : Pool) : Prop where
  fits : pool.WellFormed
  wanted : pool.count < pool.config.minClients
  free : pool.count < pool.config.maxClients
  spare : pool.book.HasSpare

def Dials (pool : Pool) : Prop :=
  ∃ job ∈ pool.jobs, pool.book.isQueued job.addr = true

namespace Short

variable {pool' : Pool}

theorem dials (s : pool.Short) (h : pool.book.checksToDial = 0) : pool.Dials := by
  obtain ⟨a, ha⟩ := List.exists_mem_of_ne_nil _ (AddressBook.checksToDial_eq_zero_iff.1 h)
  obtain ⟨job, hjob, rfl⟩ := s.fits.dials a ha
  exact ⟨job, hjob, AddressBook.isQueued_iff.2 ha⟩

theorem of_peers_eq (s : pool.Short) (hfits : pool'.WellFormed) (hpeers : pool'.peers = pool.peers)
    (hconfig : pool'.config = pool.config) (hspare : pool'.book.HasSpare) : pool'.Short := by
  have hcount : pool'.count = pool.count := by rw [count, count, pooledPeers, pooledPeers, hpeers]
  refine ⟨hfits, ?_, ?_, hspare⟩
  · rw [hcount, hconfig]
    exact s.wanted
  · rw [hcount, hconfig]
    exact s.free

/-- A check brings a dial nearer: what is bad becomes known, and what is known is queued. -/
theorem checksToDial_check (s : pool.Short) : pool.check.book.checksToDial ≤ pool.book.checksToDial - 1 := by
  by_cases hqueued : pool.book.queued = []
  · by_cases hknown : pool.book.known = []
    · have hbad : pool.book.bad ≠ [] :=
        (s.spare.resolve_left (fun h => h hqueued)).resolve_left (fun h => h hknown)
      have htwo : pool.book.checksToDial = 2 := by simp [AddressBook.checksToDial, hqueued, hknown]
      -- nobody to dial, so the check gets to its last step
      rw [check_of_bad s.wanted hqueued hknown hbad, htwo]
      exact AddressBook.checksToDial_le_one_iff.2 (.inr (AddressBook.known_recycle_ne_nil hbad))
    · have hzero : pool.check.book.checksToDial = 0 := by
        rw [AddressBook.checksToDial_eq_zero_iff, queued_check]
        exact queued_refill_of_known s.free hqueued hknown
      exact hzero ▸ Nat.zero_le _
  · have hzero : pool.check.book.checksToDial = 0 := by
      rw [AddressBook.checksToDial_eq_zero_iff, queued_check]
      exact queued_refill_of_queued hqueued
    exact hzero ▸ Nat.zero_le _

theorem check (s : pool.Short) : pool.check.Short := by
  have hmoves : Moves False pool pool.check := s.fits.moves_check
  refine s.of_peers_eq (hmoves.wellFormed s.fits) (peers_check pool) hmoves.config_eq ?_
  have hnear : pool.check.book.checksToDial ≤ 1 := by
    have := s.checksToDial_check
    have := pool.book.checksToDial_le_two
    omega
  exact (AddressBook.checksToDial_le_one_iff.1 hnear).imp_right .inl

/-! ## Any number of checks -/

section
variable [Digest]

theorem maintain (s : pool.Short) {op : Operation} (h : op.Maintains) :
    (op.run pool).Short ∧
      (op.run pool).book.checksToDial ≤ pool.book.checksToDial - if op.isCheck then 1 else 0 := by
  cases op with
  | churn now c =>
    cases c with
    | check => exact ⟨s.check, s.checksToDial_check⟩
    | _ => exact h.elim
  | reorder known =>
    by_cases hperm : known.Perm pool.book.known
    · have hfits : (Operation.run pool (.reorder known)).WellFormed :=
        (s.fits.moves_operation (.reorder known)).wellFormed s.fits
      have hrun : Operation.run pool (.reorder known) = { pool with book := { pool.book with known } } := if_pos hperm
      rw [hrun] at hfits ⊢
      exact ⟨s.of_peers_eq hfits rfl rfl (s.spare.reorder hperm),
        Nat.le_of_eq (AddressBook.checksToDial_reorder hperm)⟩
    · have hrun : Operation.run pool (.reorder known) = pool := if_neg hperm
      rw [hrun]
      exact ⟨s, Nat.le_refl _⟩
  | _ => exact h.elim

theorem run : ∀ (rest : List Operation) {pool : Pool}, pool.Short → (∀ op ∈ rest, op.Maintains) →
    (pool.run rest).Short ∧
      (pool.run rest).book.checksToDial ≤ pool.book.checksToDial - rest.countP Operation.isCheck
  | [], _, s, _ => ⟨s, Nat.le_refl _⟩
  | op :: rest, pool, s, h => by
    obtain ⟨hstep, hnearer⟩ := s.maintain (h op (List.mem_cons_self ..))
    obtain ⟨hrest, hnear⟩ := run rest hstep fun op hop => h op (List.mem_cons_of_mem _ hop)
    refine ⟨hrest, hnear.trans ?_⟩
    rw [List.countP_cons, Nat.add_comm, ← Nat.sub_sub]
    exact Nat.sub_le_sub_right hnearer _

end

end Short

/-- A pool that is short of peers and still has an address to try asks for a dial within two checks, in
whatever order the known addresses come meanwhile. -/
theorem two_checks_dial [Digest] (config : PoolConfig) (nonce : UInt32) (ops : List Operation) :
    let pool := (fresh config nonce).run ops
    pool.count < config.minClients → pool.count < config.maxClients → pool.book.HasSpare →
      pool.check.check.Dials ∧
        ∀ rest, (∀ op ∈ rest, Operation.Maintains op) → 2 ≤ rest.countP Operation.isCheck →
          (pool.run rest).Dials := by
  intro pool hwanted hfree hspare
  obtain ⟨w, hconfig⟩ : pool.WellFormed ∧ pool.config = config := (wellFormed_fresh config nonce).run ops
  clear_value pool
  subst hconfig
  have s : pool.Short := ⟨w, hwanted, hfree, hspare⟩
  have hle : pool.book.checksToDial ≤ 2 := pool.book.checksToDial_le_two
  refine ⟨?_, fun rest hrest htwo => ?_⟩
  · have hfirst := s.checksToDial_check
    have hsecond := s.check.checksToDial_check
    exact s.check.check.dials (by omega)
  · obtain ⟨hshort, hnear⟩ := s.run rest hrest
    exact hshort.dials (by omega)

/-- The only address failed its dial: the first check makes it known, and the second one dials it. -/
theorem two_checks_dial_failed :
    let a := Scripted.address 1
    let pool := (fresh .default 0).run [.churn 0 (.addresses [a]), .settle ⟨a, .join⟩ false]
    let rest : List Operation := [.churn 0 .check, .reorder [(a, false)], .churn 0 .check]
    pool.count < PoolConfig.default.minClients ∧ pool.count < PoolConfig.default.maxClients ∧
      pool.book.HasSpare ∧ (∀ op ∈ rest, op.Maintains) ∧ 2 ≤ rest.countP Operation.isCheck ∧
      pool.check.book.queued = [] ∧ pool.check.check.Dials ∧ (pool.run rest).Dials := by
  intro a pool rest
  have hwanted : pool.count < PoolConfig.default.minClients := by decide
  have hfree : pool.count < PoolConfig.default.maxClients := by decide
  have hspare : pool.book.HasSpare := .inr (.inr (by decide))
  have hrest : ∀ op ∈ rest, op.Maintains := by
    intro op hop
    simp only [rest, List.mem_cons, List.not_mem_nil, or_false] at hop
    rcases hop with rfl | rfl | rfl <;> trivial
  have htwo : 2 ≤ rest.countP Operation.isCheck := by decide
  obtain ⟨hdials, hrun⟩ := two_checks_dial .default 0 [.churn 0 (.addresses [a]), .settle ⟨a, .join⟩ false]
    hwanted hfree hspare
  exact ⟨hwanted, hfree, hspare, hrest, htwo, by decide, hdials, hrun rest hrest htwo⟩

end Pool

end ChainSync
