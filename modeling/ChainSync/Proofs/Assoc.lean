import ChainSync.Assoc

/-! # Association lists: members, lookups and sizes -/

namespace ChainSync.Assoc

variable {α β : Type} [DecidableEq α] {k : α} {b : β} {l : List (α × β)}

theorem mem_of_get? : ∀ {l : List (α × β)}, get? k l = some b → (k, b) ∈ l
  | (a, c) :: rest, h => by
    unfold get? at h
    by_cases hk : a = k
    · rw [if_pos hk, Option.some.injEq] at h
      subst hk h
      exact List.mem_cons_self ..
    · rw [if_neg hk] at h
      exact List.mem_cons_of_mem _ (mem_of_get? h)

theorem get?_eq_none_iff : ∀ {l : List (α × β)}, get? k l = none ↔ ∀ e ∈ l, e.1 ≠ k
  | [] => by simp [get?]
  | (a, c) :: rest => by
    unfold get?
    by_cases hk : a = k
    · simp [hk]
    · rw [if_neg hk, get?_eq_none_iff]
      simp [hk]

theorem mem_erase {e : α × β} : e ∈ erase k l ↔ e ∈ l ∧ e.1 ≠ k := by
  simp [erase]

theorem length_erase_lt (h : get? k l = some b) : (erase k l).length < l.length :=
  List.length_filter_lt_length_iff_exists.2 ⟨(k, b), mem_of_get? h, by simp⟩

theorem mem_set_self (k : α) (b : β) : ∀ l : List (α × β), (k, b) ∈ set k b l
  | [] => by simp [set]
  | (a, c) :: rest => by
    unfold set
    by_cases hk : a = k
    · simp [hk]
    · rw [if_neg hk]
      exact List.mem_cons_of_mem _ (mem_set_self k b rest)

theorem mem_set_of_ne {e : α × β} (hne : e.1 ≠ k) : ∀ {l : List (α × β)}, e ∈ l → e ∈ set k b l
  | (a, c) :: rest, he => by
    unfold set
    by_cases hk : a = k
    · rw [if_pos hk]
      rcases List.mem_cons.1 he with rfl | he
      · exact absurd hk hne
      · exact List.mem_cons_of_mem _ he
    · rw [if_neg hk]
      rcases List.mem_cons.1 he with rfl | he
      · exact List.mem_cons_self ..
      · exact List.mem_cons_of_mem _ (mem_set_of_ne hne he)

theorem of_mem_set {e : α × β} : ∀ {l : List (α × β)}, e ∈ set k b l → e = (k, b) ∨ e ∈ l
  | [], he => Or.inl (by simpa [set] using he)
  | (a, c) :: rest, he => by
    unfold set at he
    by_cases hk : a = k
    · rw [if_pos hk] at he
      rcases List.mem_cons.1 he with rfl | he
      · exact Or.inl (by rw [hk])
      · exact Or.inr (List.mem_cons_of_mem _ he)
    · rw [if_neg hk] at he
      rcases List.mem_cons.1 he with rfl | he
      · exact Or.inr (List.mem_cons_self ..)
      · exact (of_mem_set he).imp_right (List.mem_cons_of_mem _)

theorem exists_mem_set {e : α × β} (k : α) (b : β) (he : e ∈ l) : ∃ e' ∈ set k b l, e'.1 = e.1 := by
  by_cases hk : e.1 = k
  · exact ⟨(k, b), mem_set_self k b l, hk.symm⟩
  · exact ⟨e, mem_set_of_ne hk he, rfl⟩

/-! ## Keys -/

omit [DecidableEq α] in
theorem mem_keys : k ∈ keys l ↔ ∃ b, (k, b) ∈ l := by
  simp [keys]

theorem contains_iff_mem_keys : contains k l = true ↔ k ∈ keys l := by
  rw [contains, ← Option.ne_none_iff_isSome, ne_eq, get?_eq_none_iff]
  simp [keys]

theorem mem_keys_set {a : α} : a ∈ keys (set k b l) ↔ a = k ∨ a ∈ keys l := by
  constructor
  · intro h
    obtain ⟨c, hc⟩ := mem_keys.1 h
    exact (of_mem_set hc).imp (congrArg Prod.fst) fun hm => mem_keys.2 ⟨c, hm⟩
  · rintro (rfl | h)
    · exact mem_keys.2 ⟨b, mem_set_self a b l⟩
    · obtain ⟨c, hc⟩ := mem_keys.1 h
      obtain ⟨e, he, rfl⟩ := exists_mem_set k b hc
      exact mem_keys.2 ⟨e.2, he⟩

theorem nodup_keys_set : ∀ {l : List (α × β)}, (keys l).Nodup → (keys (set k b l)).Nodup
  | [], _ => by simp [set, keys]
  | (a, c) :: rest, h => by
    rw [keys, List.map_cons, List.nodup_cons] at h
    unfold set
    by_cases hk : a = k
    · rw [if_pos hk, keys, List.map_cons, List.nodup_cons]
      exact h
    · rw [if_neg hk, keys, List.map_cons, List.nodup_cons]
      refine ⟨fun hm => ?_, nodup_keys_set h.2⟩
      exact (mem_keys_set.1 hm).elim hk h.1

theorem get?_eq_some_iff : ∀ {l : List (α × β)}, (keys l).Nodup → (get? k l = some b ↔ (k, b) ∈ l)
  | [], _ => by simp [get?]
  | (a, c) :: rest, h => by
    rw [keys, List.map_cons, List.nodup_cons] at h
    refine ⟨mem_of_get?, fun hm => ?_⟩
    unfold get?
    rcases List.mem_cons.1 hm with heq | hm
    · obtain ⟨rfl, rfl⟩ := Prod.mk.inj heq
      exact if_pos rfl
    · have hne : a ≠ k := fun he => h.1 (List.mem_map.2 ⟨(k, b), hm, he.symm⟩)
      rw [if_neg hne]
      exact (get?_eq_some_iff h.2).2 hm

theorem length_set_le (k : α) (b : β) : ∀ l : List (α × β), (set k b l).length ≤ l.length + 1
  | [] => Nat.le_refl 1
  | (a, c) :: rest => by
    unfold set
    by_cases hk : a = k
    · simp [hk]
    · rw [if_neg hk]
      exact Nat.succ_le_succ (length_set_le k b rest)

theorem get?_erase (k a : α) : ∀ l : List (α × β), get? k (erase a l) = if k = a then none else get? k l
  | [] => (ite_self none).symm
  | (c, d) :: rest => by
    unfold erase
    rw [List.filter_cons, ← erase]
    by_cases hc : c = a
    · subst hc
      rw [if_neg (by simp), get?_erase k c rest, get?]
      by_cases hk : k = c
      · rw [if_pos hk, if_pos hk]
      · rw [if_neg hk, if_neg hk, if_neg (Ne.symm hk)]
    · rw [if_pos (by simpa using hc), get?, get?, get?_erase k a rest]
      by_cases hck : c = k
      · rw [if_pos hck, if_pos hck, if_neg (hck ▸ hc)]
      · rw [if_neg hck, if_neg hck]

theorem get?_set (k a : α) (b : β) : ∀ l : List (α × β), get? k (set a b l) = if k = a then some b else get? k l
  | [] => by
    unfold set get?
    by_cases hk : k = a
    · rw [if_pos hk, if_pos hk.symm]
    · rw [if_neg hk, if_neg (Ne.symm hk), get?]
  | (c, d) :: rest => by
    unfold set
    by_cases hc : c = a
    · subst hc
      rw [if_pos rfl, get?, get?]
      by_cases hk : k = c
      · rw [if_pos hk, if_pos hk.symm]
      · rw [if_neg hk, if_neg (Ne.symm hk), if_neg (Ne.symm hk)]
    · rw [if_neg hc, get?, get?, get?_set k a b rest]
      by_cases hck : c = k
      · rw [if_pos hck, if_pos hck, if_neg (hck ▸ hc)]
      · rw [if_neg hck, if_neg hck]

end ChainSync.Assoc
