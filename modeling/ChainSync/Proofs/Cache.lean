import ChainSync.Sync.Cache

/-!
# The block cache as a set of heights

What each operation does to the entries, to the heights that are held and
to their number.
-/

namespace ChainSync.BlockCache

variable {c : BlockCache} {e : CachedBlock} {h k : Nat}

theorem contains_iff : c.contains h = true ↔ ∃ e ∈ c.entries, e.height = h := by
  simp [contains, get?]

theorem contains_of_mem (he : e ∈ c.entries) : c.contains e.height = true :=
  contains_iff.2 ⟨e, he, rfl⟩

theorem isFull_iff : c.isFull = true ↔ c.capacity ≤ c.size := by
  simp [isFull]

theorem mem_of_get? (he : c.get? h = some e) : e ∈ c.entries ∧ e.height = h :=
  ⟨List.mem_of_find?_eq_some he, by simpa using List.find?_some he⟩

theorem get?_eq_none_iff : c.get? h = none ↔ c.contains h = false := by
  simp [contains]

/-! ## Inserting -/

theorem mem_place {f : CachedBlock} : ∀ {l : List CachedBlock}, f ∈ place e l ↔ f = e ∨ f ∈ l
  | [] => by simp [place]
  | g :: rest => by
    unfold place
    by_cases hlt : e.height < g.height
    · simp [hlt]
    · rw [if_neg hlt, List.mem_cons, mem_place, List.mem_cons]
      constructor
      · rintro (h | h | h)
        · exact Or.inr (Or.inl h)
        · exact Or.inl h
        · exact Or.inr (Or.inr h)
      · rintro (h | h | h)
        · exact Or.inr (Or.inl h)
        · exact Or.inl h
        · exact Or.inr (Or.inr h)

theorem length_place : ∀ l : List CachedBlock, (place e l).length = l.length + 1
  | [] => rfl
  | g :: rest => by
    unfold place
    by_cases hlt : e.height < g.height
    · simp [hlt]
    · rw [if_neg hlt, List.length_cons, length_place rest, List.length_cons]

theorem contains_place :
    ({ c with entries := place e c.entries } : BlockCache).contains h = true ↔ h = e.height ∨ c.contains h = true := by
  simp only [contains_iff, mem_place]
  constructor
  · rintro ⟨f, rfl | hf, rfl⟩
    · exact Or.inl rfl
    · exact Or.inr ⟨f, hf, rfl⟩
  · rintro (rfl | ⟨f, hf, rfl⟩)
    · exact ⟨e, Or.inl rfl, rfl⟩
    · exact ⟨f, Or.inr hf, rfl⟩

theorem insert_of_free (hroom : c.size < c.capacity) (hfree : c.contains e.height = false) :
    c.insert e = ({ c with entries := place e c.entries }, true) := by
  have hfull : c.isFull = false := by simp [isFull, hroom]
  simp [insert, hfull, hfree]

theorem insert_cases (e : CachedBlock) (c : BlockCache) :
    (c.insert e).1 = c ∨ (c.insert e).1 = { c with entries := place e c.entries } := by
  unfold insert
  split
  · exact Or.inl rfl
  · exact Or.inr rfl

@[simp] theorem capacity_insert (e : CachedBlock) (c : BlockCache) : (c.insert e).1.capacity = c.capacity := by
  rcases insert_cases e c with h | h <;> rw [h]

theorem size_insert_le (e : CachedBlock) (c : BlockCache) : (c.insert e).1.size ≤ c.size + 1 := by
  rcases insert_cases e c with h | h <;> rw [h]
  · exact Nat.le_succ _
  · exact Nat.le_of_eq (length_place _)

theorem size_le_insert (e : CachedBlock) (c : BlockCache) : c.size ≤ (c.insert e).1.size := by
  rcases insert_cases e c with h | h
  · exact Nat.le_of_eq (by rw [h])
  · rw [h]
    exact Nat.le_trans (Nat.le_succ _) (Nat.le_of_eq (length_place _).symm)

theorem of_mem_insert {f : CachedBlock} (hf : f ∈ (c.insert e).1.entries) : f = e ∨ f ∈ c.entries := by
  rcases insert_cases e c with h | h <;> rw [h] at hf
  · exact Or.inr hf
  · exact mem_place.1 hf

/-! ## Removing -/

theorem mem_take {f : CachedBlock} : f ∈ (c.take h).1.entries ↔ f ∈ c.entries ∧ f.height ≠ h := by
  simp [take, erase]

theorem contains_take : (c.take h).1.contains k = true ↔ c.contains k = true ∧ k ≠ h := by
  simp only [contains_iff, mem_take]
  constructor
  · rintro ⟨f, ⟨hf, hne⟩, rfl⟩
    exact ⟨⟨f, hf, rfl⟩, hne⟩
  · rintro ⟨⟨f, hf, rfl⟩, hne⟩
    exact ⟨f, ⟨hf, hne⟩, rfl⟩

theorem take_sublist (h : Nat) (c : BlockCache) : (c.take h).1.entries.Sublist c.entries :=
  List.filter_sublist

theorem pruneThrough_sublist (h : Nat) (c : BlockCache) : (c.pruneThrough h).1.entries.Sublist c.entries :=
  List.filter_sublist

theorem contains_of_sublist {d : BlockCache} (hsub : d.entries.Sublist c.entries) (hfree : c.contains h = false) :
    d.contains h = false := by
  refine Bool.eq_false_iff.2 fun hcon => ?_
  obtain ⟨f, hf, rfl⟩ := contains_iff.1 hcon
  rw [contains_of_mem (hsub.subset hf)] at hfree
  cases hfree

theorem pruneThrough_of_above (habove : ∀ e ∈ c.entries, h < e.height) : (c.pruneThrough h).1 = c := by
  have hall : c.entries.filter (min (h + 1) maxWord ≤ ·.height) = c.entries := by
    rw [List.filter_eq_self]
    intro e he
    have := habove e he
    simp only [decide_eq_true_eq]
    omega
  unfold pruneThrough
  rw [hall]

/-! ## Heights in order -/

def Ordered (c : BlockCache) : Prop :=
  c.entries.Pairwise (·.height < ·.height)

theorem ordered_empty (capacity : Nat) : (empty capacity).Ordered :=
  List.Pairwise.nil

theorem Ordered.of_sublist {d : BlockCache} (hc : c.Ordered) (hsub : d.entries.Sublist c.entries) : d.Ordered :=
  List.Pairwise.sublist hsub hc

theorem pairwise_place : ∀ {l : List CachedBlock}, l.Pairwise (·.height < ·.height) →
    (∀ f ∈ l, f.height ≠ e.height) → (place e l).Pairwise (·.height < ·.height)
  | [], _, _ => List.pairwise_singleton _ _
  | g :: rest, hl, hfree => by
    obtain ⟨hg, hrest⟩ := List.pairwise_cons.1 hl
    have hne : g.height ≠ e.height := hfree g (List.mem_cons_self ..)
    unfold place
    by_cases hlt : e.height < g.height
    · rw [if_pos hlt]
      refine List.pairwise_cons.2 ⟨fun f hf => ?_, hl⟩
      rcases List.mem_cons.1 hf with rfl | hf
      · exact hlt
      · exact Nat.lt_trans hlt (hg f hf)
    · rw [if_neg hlt]
      refine List.pairwise_cons.2 ⟨fun f hf => ?_, pairwise_place hrest fun f hf => hfree f (List.mem_cons_of_mem _ hf)⟩
      rcases mem_place.1 hf with rfl | hf
      · omega
      · exact hg f hf

theorem Ordered.insert (hc : c.Ordered) (e : CachedBlock) : (c.insert e).1.Ordered := by
  unfold BlockCache.insert
  split
  · exact hc
  · rename_i hcond
    simp only [Bool.or_eq_true, not_or, Bool.not_eq_true] at hcond
    refine pairwise_place hc fun f hf heq => ?_
    rw [← heq, contains_of_mem hf] at hcond
    cases hcond.2

theorem Ordered.firstHeight?_any_le (hc : c.Ordered) :
    c.firstHeight?.any (· ≤ h) = true ↔ ∃ e ∈ c.entries, e.height ≤ h := by
  unfold Ordered at hc
  unfold firstHeight?
  cases hl : c.entries with
  | nil => simp
  | cons g rest =>
    rw [hl] at hc
    have hg := (List.pairwise_cons.1 hc).1
    simp only [List.head?_cons, Option.map_some, Option.any_some, decide_eq_true_eq]
    constructor
    · exact fun hle => ⟨g, List.mem_cons_self .., hle⟩
    · rintro ⟨e, he, hle⟩
      rcases List.mem_cons.1 he with rfl | he
      · exact hle
      · exact Nat.le_trans (Nat.le_of_lt (hg e he)) hle

/-! ## What lies above a height -/

def above (h : Nat) (c : BlockCache) : BlockCache :=
  { c with entries := c.entries.filter (h < ·.height) }

theorem mem_above : e ∈ (c.above h).entries ↔ e ∈ c.entries ∧ h < e.height := by
  simp [above]

theorem above_above (hle : h ≤ k) (c : BlockCache) : (c.above h).above k = c.above k := by
  unfold above
  dsimp only
  rw [List.filter_filter]
  congr 1
  refine List.filter_congr fun e _ => ?_
  simp only [← Bool.decide_and, decide_eq_decide]
  omega

theorem get?_above (hlt : h < k) (c : BlockCache) : (c.above h).get? k = c.get? k := by
  unfold get? above
  rw [List.find?_filter]
  congr 1
  funext e
  simp only [decide_eq_true_eq, decide_eq_decide]
  omega

theorem take_above (h : Nat) (c : BlockCache) :
    (c.above h).take (h + 1) = (c.above (h + 1), c.get? (h + 1)) := by
  refine Prod.ext ?_ (get?_above (Nat.lt_succ_self h) c)
  show (c.above h).erase (h + 1) = c.above (h + 1)
  unfold erase above
  dsimp only
  rw [List.filter_filter]
  congr 1
  refine List.filter_congr fun e _ => ?_
  simp only [← Bool.decide_and, decide_eq_decide]
  omega

theorem above_succ_of_free (hfree : c.get? (h + 1) = none) : c.above h = c.above (h + 1) := by
  unfold above
  congr 1
  refine List.filter_congr fun e he => ?_
  have hne : e.height ≠ h + 1 := by simpa using List.find?_eq_none.1 hfree e he
  simp only [decide_eq_decide]
  omega

theorem pruneThrough_eq_above (hheights : ∀ e ∈ c.entries, e.height < maxWord) (h : Nat) :
    (c.pruneThrough h).1 = c.above h := by
  unfold pruneThrough above
  dsimp only
  congr 1
  refine List.filter_congr fun e he => ?_
  have := hheights e he
  simp only [decide_eq_decide]
  omega

theorem size_above_lt_iff : (c.above h).size < c.size ↔ ∃ e ∈ c.entries, e.height ≤ h := by
  unfold size above
  rw [List.length_filter_lt_length_iff_exists]
  simp

end ChainSync.BlockCache
