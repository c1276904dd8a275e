import ChainSync.Pool.Basic
import ChainSync.Proofs.Assoc
import Mathlib.Data.List.Nodup

/-!
# Where an address stands

An address is queued, known, bad or connected. A change of the book takes
one address from wherever it stands to a new place (`Puts`), so that no
address stands at two places and none is lost.
-/

namespace ChainSync

inductive Standing
  | queued
  | known
  | bad
  | connected
deriving DecidableEq

namespace AddressBook

def addresses (b : AddressBook) : Standing → List SocketAddress
  | .queued => b.queued
  | .known => Assoc.keys b.known
  | .bad => b.bad
  | .connected => Assoc.keys b.connected

structure Sound (b : AddressBook) : Prop where
  nodup : ∀ s, (b.addresses s).Nodup
  disjoint : ∀ s t, s ≠ t → (b.addresses s).Disjoint (b.addresses t)

def Keeps (b b' : AddressBook) : Prop :=
  ∀ x, b.isTracked x = true → b'.isTracked x = true

structure Puts (a : SocketAddress) (s : Standing) (b b' : AddressBook) : Prop where
  mem : ∀ x t, x ∈ b'.addresses t ↔ if x = a then t = s else x ∈ b.addresses t
  nodup : (∀ t, (b.addresses t).Nodup) → ∀ t, (b'.addresses t).Nodup

variable {a x : SocketAddress} {s t : Standing} {b b' b'' : AddressBook}

theorem isConnected_iff : b.isConnected a = true ↔ a ∈ b.addresses .connected :=
  Assoc.contains_iff_mem_keys

theorem isQueued_iff : b.isQueued a = true ↔ a ∈ b.addresses .queued := by
  simp [isQueued, addresses]

theorem isTracked_iff : b.isTracked a = true ↔ ∃ s, a ∈ b.addresses s := by
  simp only [isTracked, Bool.or_eq_true, List.contains_iff_mem, Assoc.contains_iff_mem_keys, isConnected_iff]
  constructor
  · rintro (((h | h) | h) | h)
    exacts [⟨.queued, h⟩, ⟨.bad, h⟩, ⟨.known, h⟩, ⟨.connected, h⟩]
  · rintro ⟨s, h⟩
    cases s with
    | queued => exact .inl (.inl (.inl h))
    | known => exact .inl (.inr h)
    | bad => exact .inl (.inl (.inr h))
    | connected => exact .inr h

theorem Keeps.refl (b : AddressBook) : b.Keeps b :=
  fun _ h => h

theorem Keeps.trans (h : b.Keeps b') (h' : b'.Keeps b'') : b.Keeps b'' :=
  fun x hx => h' x (h x hx)

theorem Puts.sound (p : Puts a s b b') (hb : b.Sound) : b'.Sound where
  nodup := p.nodup hb.nodup
  disjoint := by
    intro t u htu x ht hu
    rw [p.mem] at ht hu
    by_cases hx : x = a
    · rw [if_pos hx] at ht hu
      exact htu (ht.trans hu.symm)
    · rw [if_neg hx] at ht hu
      exact hb.disjoint t u htu ht hu

theorem keeps_of_mem (h : ∀ x t, x ∈ b.addresses t → ∃ u, x ∈ b'.addresses u) : b.Keeps b' := by
  intro x hx
  obtain ⟨t, ht⟩ := isTracked_iff.1 hx
  exact isTracked_iff.2 (h x t ht)

theorem Puts.keeps (p : Puts a s b b') : b.Keeps b' := by
  apply keeps_of_mem
  intro x t ht
  by_cases hx : x = a
  · exact ⟨s, (p.mem x s).2 (by rw [if_pos hx])⟩
  · exact ⟨t, (p.mem x t).2 (by rwa [if_neg hx])⟩

theorem Sound.of_sublist (hb : b.Sound) (h : ∀ t, (b'.addresses t).Sublist (b.addresses t)) : b'.Sound where
  nodup := fun t => (h t).nodup (hb.nodup t)
  disjoint := fun t u htu _ ht hu => hb.disjoint t u htu ((h t).subset ht) ((h u).subset hu)

theorem mem_drop {l : List SocketAddress} : x ∈ drop a l ↔ x ∈ l ∧ x ≠ a := by
  simp [drop]

theorem nodup_drop {l : List SocketAddress} (h : l.Nodup) : (drop a l).Nodup :=
  h.filter _

theorem drop_of_notMem {l : List SocketAddress} (h : a ∉ l) : drop a l = l := by
  refine List.filter_eq_self.2 fun x hx => ?_
  have hne : x ≠ a := fun he => h (he ▸ hx)
  simpa using hne

theorem keys_erase {β : Type} (a : SocketAddress) (l : List (SocketAddress × β)) :
    Assoc.keys (Assoc.erase a l) = drop a (Assoc.keys l) := by
  simp [Assoc.keys, Assoc.erase, drop, List.filter_map, Function.comp_def]

/-! ## To a new place -/

structure Gains (a : SocketAddress) (l l' : List SocketAddress) : Prop where
  mem : ∀ x, x ∈ l' ↔ x = a ∨ x ∈ l
  nodup : l.Nodup → l'.Nodup

theorem gains_insert (a : SocketAddress) (l : List SocketAddress) : Gains a l (l.insert a) :=
  ⟨fun _ => List.mem_insert_iff, List.Nodup.insert⟩

theorem gains_set {β : Type} (a : SocketAddress) (v : β) (l : List (SocketAddress × β)) :
    Gains a (Assoc.keys l) (Assoc.keys (Assoc.set a v l)) :=
  ⟨fun _ => Assoc.mem_keys_set, Assoc.nodup_keys_set⟩

theorem Gains.puts (g : Gains a (b.addresses s) (b'.addresses s))
    (h : ∀ t, t ≠ s → b'.addresses t = drop a (b.addresses t)) : Puts a s b b' where
  mem := by
    intro x t
    by_cases ht : t = s
    · subst ht
      rw [g.mem]
      by_cases hx : x = a <;> simp [hx]
    · rw [h t ht, mem_drop]
      by_cases hx : x = a <;> simp [hx, ht]
  nodup := by
    intro hb t
    by_cases ht : t = s
    · subst ht
      exact g.nodup (hb t)
    · rw [h t ht]
      exact nodup_drop (hb t)

theorem puts_enqueue (h : a ∉ b.addresses .connected) : Puts a .queued b (b.enqueue a) := by
  apply Gains.puts (gains_insert a b.queued)
  intro t ht
  cases t with
  | queued => exact absurd rfl ht
  | known => exact keys_erase a b.known
  | bad => rfl
  | connected => exact (drop_of_notMem h).symm

theorem puts_park (h : ¬b.isTracked a = true) : Puts a .known b (b.park a) := by
  have hno : ∀ t, a ∉ b.addresses t := fun t ht => h (isTracked_iff.2 ⟨t, ht⟩)
  apply Gains.puts (gains_set a false b.known)
  intro t ht
  cases t with
  | queued => exact (drop_of_notMem (hno .queued)).symm
  | known => exact absurd rfl ht
  | bad => exact (drop_of_notMem (hno .bad)).symm
  | connected => exact (drop_of_notMem (hno .connected)).symm

theorem puts_link (a : SocketAddress) (id : PeerId) (b : AddressBook) : Puts a .connected b (b.link a id) := by
  apply Gains.puts (gains_set a id b.connected)
  intro t ht
  cases t with
  | known => exact keys_erase a b.known
  | connected => exact absurd rfl ht
  | queued | bad => rfl

/-! ## Verdicts -/

/-- What the end of a dial or of a session says of an address: nothing while a peer holds it. -/
inductive Marks (a : SocketAddress) (b : AddressBook) : AddressBook → Prop
  | held (h : a ∈ b.addresses .connected) : Marks a b b
  | put {b' : AddressBook} {s : Standing} (hs : s = .known ∨ s = .bad) (p : Puts a s b b')
      (hconnected : b'.connected = b.connected) : Marks a b b'

theorem marks_markBad (a : SocketAddress) (b : AddressBook) : b.Marks a (b.markBad a) := by
  unfold markBad
  by_cases h : b.isConnected a = true
  · rw [if_pos h]
    exact .held (isConnected_iff.1 h)
  · rw [if_neg h]
    rw [isConnected_iff] at h
    refine .put (.inr rfl) (Gains.puts (gains_insert a b.bad) fun t ht => ?_) rfl
    cases t with
    | queued => rfl
    | known => exact keys_erase a b.known
    | bad => exact absurd rfl ht
    | connected => exact (drop_of_notMem h).symm

theorem marks_markKnown (a : SocketAddress) (probed : Bool) (b : AddressBook) :
    b.Marks a (b.markKnown a probed) := by
  unfold markKnown
  by_cases h : b.isConnected a = true
  · rw [if_pos h]
    exact .held (isConnected_iff.1 h)
  · rw [if_neg h]
    rw [isConnected_iff] at h
    refine .put (.inl rfl) (Gains.puts (gains_set a _ b.known) fun t ht => ?_) rfl
    cases t with
    | queued | bad => rfl
    | known => exact absurd rfl ht
    | connected => exact (drop_of_notMem h).symm

theorem Marks.sound (m : b.Marks a b') (hb : b.Sound) : b'.Sound := by
  cases m with
  | held => exact hb
  | put _ p => exact p.sound hb

theorem Marks.keeps (m : b.Marks a b') : b.Keeps b' := by
  cases m with
  | held => exact .refl b
  | put _ p => exact p.keeps

theorem Marks.isTracked (m : b.Marks a b') : b'.isTracked a = true := by
  cases m with
  | held h => exact isTracked_iff.2 ⟨_, h⟩
  | put _ p => exact isTracked_iff.2 ⟨_, (p.mem a _).2 (by rw [if_pos rfl])⟩

theorem Marks.connected_eq (m : b.Marks a b') : b'.connected = b.connected := by
  cases m with
  | held => rfl
  | put _ _ h => exact h

theorem Marks.of_queued (m : b.Marks a b') (hb : b.Sound) (h : x ∈ b'.queued) : x ∈ b.queued ∧ x ≠ a := by
  cases m with
  | held ha => exact ⟨h, fun hx => hb.disjoint .queued .connected (by decide) h (hx ▸ ha)⟩
  | put hs p =>
    have hx := (p.mem x .queued).1 h
    by_cases hxa : x = a
    · rw [if_pos hxa] at hx
      subst hx
      exact absurd hs (by decide)
    · rw [if_neg hxa] at hx
      exact ⟨hx, hxa⟩

/-! ## Back from a peer, and from the bad ones -/

theorem mem_unlink {id : PeerId} (h : Assoc.get? a b.connected = some id) :
    x ∈ (b.unlink a id).addresses t ↔ x ∈ b.addresses t ∧ (t = .connected → x ≠ a) := by
  rw [unlink, if_pos h]
  cases t <;> simp [addresses, keys_erase, mem_drop]

theorem Sound.unlink (hb : b.Sound) (a : SocketAddress) (id : PeerId) : (b.unlink a id).Sound := by
  unfold AddressBook.unlink
  by_cases h : Assoc.get? a b.connected = some id
  · rw [if_pos h]
    apply hb.of_sublist
    intro t
    cases t with
    | connected => exact List.Sublist.map _ List.filter_sublist
    | _ => exact .refl _
  · rw [if_neg h]
    exact hb

theorem keeps_unlink_marks {id : PeerId} (h : Assoc.get? a b.connected = some id)
    (m : (b.unlink a id).Marks a b') : b.Keeps b' := by
  intro x hx
  by_cases hxa : x = a
  · exact hxa ▸ m.isTracked
  · obtain ⟨t, ht⟩ := isTracked_iff.1 hx
    exact m.keeps x (isTracked_iff.2 ⟨t, (mem_unlink h).2 ⟨ht, fun _ => hxa⟩⟩)

theorem mem_keys_foldl_set {l : List SocketAddress} {known : List (SocketAddress × Bool)} :
    x ∈ Assoc.keys (l.foldl (fun known a => Assoc.set a false known) known) ↔ x ∈ Assoc.keys known ∨ x ∈ l := by
  induction l generalizing known with
  | nil => simp
  | cons a l ih => simp only [List.foldl_cons, ih, Assoc.mem_keys_set, List.mem_cons]; tauto

theorem nodup_keys_foldl_set {l : List SocketAddress} {known : List (SocketAddress × Bool)}
    (h : (Assoc.keys known).Nodup) : (Assoc.keys (l.foldl (fun known a => Assoc.set a false known) known)).Nodup := by
  induction l generalizing known with
  | nil => exact h
  | cons a l ih => exact ih (Assoc.nodup_keys_set h)

theorem mem_recycle : x ∈ b.recycle.addresses t ↔
    (t = .known ∧ x ∈ b.addresses .bad) ∨ (t ≠ .bad ∧ x ∈ b.addresses t) := by
  cases t <;> simp [recycle, addresses, mem_keys_foldl_set, or_comm]

theorem Sound.recycle (hb : b.Sound) : b.recycle.Sound where
  nodup := by
    intro t
    cases t with
    | queued => exact hb.nodup .queued
    | known => exact nodup_keys_foldl_set (hb.nodup .known)
    | bad => exact List.nodup_nil
    | connected => exact hb.nodup .connected
  disjoint := by
    intro t u htu x ht hu
    rw [mem_recycle] at ht hu
    rcases ht with ⟨rfl, ht⟩ | ⟨htb, ht⟩ <;> rcases hu with ⟨rfl, hu⟩ | ⟨hub, hu⟩
    · exact htu rfl
    · exact hb.disjoint .bad u (Ne.symm hub) ht hu
    · exact hb.disjoint t .bad htb ht hu
    · exact hb.disjoint t u htu ht hu

theorem keeps_recycle (b : AddressBook) : b.Keeps b.recycle := by
  apply keeps_of_mem
  intro x t ht
  by_cases hbad : t = .bad
  · exact ⟨.known, mem_recycle.2 (.inl ⟨rfl, hbad ▸ ht⟩)⟩
  · exact ⟨t, mem_recycle.2 (.inr ⟨hbad, ht⟩)⟩

/-! ## Another order -/

theorem mem_reorder {known : List (SocketAddress × Bool)} (h : known.Perm b.known) :
    x ∈ ({ b with known } : AddressBook).addresses t ↔ x ∈ b.addresses t := by
  cases t with
  | known => exact (h.map Prod.fst).mem_iff
  | _ => rfl

theorem Sound.reorder (hb : b.Sound) {known : List (SocketAddress × Bool)} (h : known.Perm b.known) :
    ({ b with known } : AddressBook).Sound where
  nodup := by
    intro t
    cases t with
    | queued => exact hb.nodup .queued
    | known => exact (h.map Prod.fst).nodup_iff.2 (hb.nodup .known)
    | bad => exact hb.nodup .bad
    | connected => exact hb.nodup .connected
  disjoint := fun t u htu x ht hu => hb.disjoint t u htu ((mem_reorder h).1 ht) ((mem_reorder h).1 hu)

theorem keeps_reorder {known : List (SocketAddress × Bool)} (h : known.Perm b.known) : b.Keeps { b with known } :=
  keeps_of_mem fun _ t ht => ⟨t, (mem_reorder h).2 ht⟩

end AddressBook

end ChainSync
