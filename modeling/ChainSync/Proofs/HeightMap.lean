import Mathlib.Data.Finset.Card
import Mathlib.Order.Bounds.Basic
import ChainSync.Proofs.Cache

/-!
# The block cache as a bounded map

Any run of requests is answered by the cache as by a finite map from heights
that takes no more than so many blocks. One request is the exception: to
prune through the greatest height leaves what is held at that height.
-/

namespace ChainSync

/-! ## Finite maps from heights -/

structure HeightMap where
  held : Finset Nat
  block : Nat → Option CachedBlock
  mem_held : ∀ {h}, h ∈ held ↔ block h ≠ none

namespace HeightMap

def empty : HeightMap where
  held := ∅
  block _ := none
  mem_held := by simp

def put (e : CachedBlock) (m : HeightMap) : HeightMap where
  held := insert e.height m.held
  block := Function.update m.block e.height (some e)
  mem_held {h} := by
    by_cases heq : h = e.height
    · simp [heq]
    · simp [heq, m.mem_held]

def without (gone : Nat → Prop) [DecidablePred gone] (m : HeightMap) : HeightMap where
  held := m.held.filter (¬ gone ·)
  block h := if gone h then none else m.block h
  mem_held {h} := by
    by_cases hgone : gone h
    · simp [hgone]
    · simp [hgone, m.mem_held]

theorem block_put_self (e : CachedBlock) (m : HeightMap) : (m.put e).block e.height = some e :=
  Function.update_self ..

theorem block_put_of_ne {e : CachedBlock} {h : Nat} (hne : h ≠ e.height) (m : HeightMap) :
    (m.put e).block h = m.block h :=
  Function.update_of_ne hne ..

theorem block_without (gone : Nat → Prop) [DecidablePred gone] (m : HeightMap) (h : Nat) :
    (m.without gone).block h = if gone h then none else m.block h :=
  rfl

end HeightMap

/-! ## Requests -/

inductive CacheRequest
  | insert (e : CachedBlock)
  | take (height : UInt32)
  | prune (height : UInt32)

inductive CacheAnswer
  | inserted (done : Bool)
  | taken (e : Option CachedBlock)
  | pruned (count : Nat)
deriving DecidableEq

namespace CacheRequest

def performAll {σ : Type} (perform : CacheRequest → σ → σ × CacheAnswer) :
    List CacheRequest → σ → σ × List CacheAnswer
  | [], s => (s, [])
  | r :: rs, s =>
    let (s, answer) := perform r s
    let (s, answers) := performAll perform rs s
    (s, answer :: answers)

/-- The height through which the cache prunes: never the greatest one. -/
def reach (height : UInt32) : UInt32 :=
  if height = 0xFFFFFFFF then 0xFFFFFFFE else height

/-- The request that the cache serves in place of this one. -/
def served : CacheRequest → CacheRequest
  | insert e => insert e
  | take h => take h
  | prune h => prune (reach h)

theorem reach_succ (height : UInt32) : min (height.toNat + 1) maxWord = (reach height).toNat + 1 := by
  have hlt := height.toNat_lt
  unfold reach maxWord
  by_cases hmax : height = 0xFFFFFFFF
  · simp [hmax]
  · have hne : height.toNat ≠ 0xFFFFFFFF := fun h => hmax (UInt32.toNat_inj.1 h)
    rw [if_neg hmax]
    omega

end CacheRequest

def BlockCache.perform : CacheRequest → BlockCache → BlockCache × CacheAnswer
  | .insert e, c => ((c.insert e).1, .inserted (c.insert e).2)
  | .take h, c => ((c.take h.toNat).1, .taken (c.take h.toNat).2)
  | .prune h, c => ((c.pruneThrough h.toNat).1, .pruned (c.pruneThrough h.toNat).2)

def HeightMap.perform (capacity : Nat) : CacheRequest → HeightMap → HeightMap × CacheAnswer
  | .insert e, m =>
    if m.held.card < capacity ∧ e.height ∉ m.held then (m.put e, .inserted true) else (m, .inserted false)
  | .take h, m => (m.without (· = h.toNat), .taken (m.block h.toNat))
  | .prune h, m => (m.without (· ≤ h.toNat), .pruned (m.held.filter (· ≤ h.toNat)).card)

namespace BlockCache

variable {c : BlockCache} {m : HeightMap} {e : CachedBlock} {h k : Nat}

/-! ## Entries by their heights -/

theorem Ordered.nodup_heights (hc : c.Ordered) : (c.entries.map CachedBlock.height).Nodup :=
  List.pairwise_map.2 (hc.imp fun hlt => Nat.ne_of_lt hlt)

theorem Ordered.get?_eq_some_iff (hc : c.Ordered) : c.get? h = some e ↔ e ∈ c.entries ∧ e.height = h := by
  refine ⟨mem_of_get?, fun ⟨he, hh⟩ => ?_⟩
  have hfound : (c.get? h).isSome = true := contains_iff.2 ⟨e, he, hh⟩
  obtain ⟨f, hf⟩ := Option.isSome_iff_exists.1 hfound
  obtain ⟨hmem, hheight⟩ := mem_of_get? hf
  rw [hf, List.inj_on_of_nodup_map hc.nodup_heights hmem he (hheight.trans hh.symm)]

theorem get?_filter (p : Nat → Bool) (c : BlockCache) (k : Nat) :
    ({ c with entries := c.entries.filter (p ·.height) } : BlockCache).get? k = if p k then c.get? k else none := by
  unfold get?
  rw [List.find?_filter]
  by_cases hp : p k = true
  · rw [if_pos hp]
    congr 1
    funext e
    by_cases hk : e.height = k
    · simp [hk, hp]
    · simp [hk]
  · rw [if_neg hp, List.find?_eq_none]
    intro e _
    by_cases hk : e.height = k
    · simp [hk, hp]
    · simp [hk]

theorem Ordered.le_lastHeight? (hc : c.Ordered) (hlast : c.lastHeight? = some k) (he : e ∈ c.entries) :
    e.height ≤ k := by
  obtain ⟨g, hg, rfl⟩ := Option.map_eq_some_iff.1 hlast
  obtain ⟨front, hfront⟩ := List.getLast?_eq_some_iff.1 hg
  rw [Ordered, hfront] at hc
  rw [hfront] at he
  rcases List.mem_append.1 he with he | he
  · exact Nat.le_of_lt ((List.pairwise_append.1 hc).2.2 e he g (List.mem_singleton_self g))
  · rw [List.mem_singleton.1 he]

theorem Ordered.firstHeight?_eq_some_iff (hc : c.Ordered) :
    c.firstHeight? = some h ↔ IsLeast {k | c.contains k = true} h := by
  have hleast : ∀ {k}, c.firstHeight? = some k → IsLeast {k | c.contains k = true} k := by
    intro k hfirst
    obtain ⟨g, hg, rfl⟩ := Option.map_eq_some_iff.1 hfirst
    refine ⟨contains_of_mem (List.mem_of_mem_head? hg), fun j hj => ?_⟩
    have hany := hc.firstHeight?_any_le.2 ((contains_iff.1 hj).imp fun _ h => ⟨h.1, Nat.le_of_eq h.2⟩)
    simpa [hfirst] using hany
  refine ⟨hleast, fun hh => ?_⟩
  cases hfirst : c.firstHeight? with
  | none =>
    obtain ⟨e, he, -⟩ := contains_iff.1 hh.1
    rw [List.head?_eq_none_iff.1 (Option.map_eq_none_iff.1 hfirst)] at he
    cases he
  | some k => rw [(hleast hfirst).unique hh]

theorem Ordered.lastHeight?_eq_some_iff (hc : c.Ordered) :
    c.lastHeight? = some h ↔ IsGreatest {k | c.contains k = true} h := by
  have hgreatest : ∀ {k}, c.lastHeight? = some k → IsGreatest {k | c.contains k = true} k := by
    intro k hlast
    obtain ⟨g, hg, rfl⟩ := Option.map_eq_some_iff.1 hlast
    refine ⟨contains_of_mem (List.mem_of_getLast? hg), fun j hj => ?_⟩
    obtain ⟨e, he, rfl⟩ := contains_iff.1 hj
    exact hc.le_lastHeight? hlast he
  refine ⟨hgreatest, fun hh => ?_⟩
  cases hlast : c.lastHeight? with
  | none =>
    obtain ⟨e, he, -⟩ := contains_iff.1 hh.1
    rw [List.getLast?_eq_none_iff.1 (Option.map_eq_none_iff.1 hlast)] at he
    cases he
  | some k => rw [(hgreatest hlast).unique hh]

/-! ## What is shown of each height -/

structure Shows (c : BlockCache) (m : HeightMap) : Prop where
  ordered : c.Ordered
  block : ∀ h, c.get? h = m.block h

theorem shows_empty (capacity : Nat) : (empty capacity).Shows .empty :=
  ⟨ordered_empty capacity, fun _ => rfl⟩

theorem Shows.mem_held (hm : c.Shows m) : h ∈ m.held ↔ c.contains h = true := by
  rw [m.mem_held, ← hm.block, contains, Option.isSome_iff_ne_none]

theorem Shows.coe_held (hm : c.Shows m) : (m.held : Set Nat) = {h | c.contains h = true} :=
  Set.ext fun _ => hm.mem_held

theorem Shows.firstHeight?_iff (hm : c.Shows m) : c.firstHeight? = some h ↔ IsLeast (m.held : Set Nat) h := by
  rw [hm.coe_held, hm.ordered.firstHeight?_eq_some_iff]

theorem Shows.lastHeight?_iff (hm : c.Shows m) : c.lastHeight? = some h ↔ IsGreatest (m.held : Set Nat) h := by
  rw [hm.coe_held, hm.ordered.lastHeight?_eq_some_iff]

theorem Shows.held_eq (hm : c.Shows m) : m.held = (c.entries.map CachedBlock.height).toFinset := by
  ext h
  rw [hm.mem_held, contains_iff, List.mem_toFinset, List.mem_map]

theorem Shows.card_held (hm : c.Shows m) : m.held.card = c.size := by
  rw [hm.held_eq, List.toFinset_card_of_nodup hm.ordered.nodup_heights, List.length_map]
  rfl

theorem Shows.place (hm : c.Shows m) (hfree : c.contains e.height = false) :
    ({ c with entries := place e c.entries } : BlockCache).Shows (m.put e) := by
  have hne : ∀ f ∈ c.entries, f.height ≠ e.height := by
    intro f hf heq
    rw [← heq, contains_of_mem hf] at hfree
    cases hfree
  have hordered : ({ c with entries := BlockCache.place e c.entries } : BlockCache).Ordered :=
    pairwise_place hm.ordered hne
  refine ⟨hordered, fun k => Option.ext fun f => ?_⟩
  rw [hordered.get?_eq_some_iff, mem_place]
  by_cases hk : k = e.height
  · subst hk
    rw [HeightMap.block_put_self, Option.some.injEq]
    constructor
    · rintro ⟨rfl | hf, heq⟩
      · rfl
      · exact absurd heq (hne f hf)
    · rintro rfl
      exact ⟨Or.inl rfl, rfl⟩
  · rw [HeightMap.block_put_of_ne hk, ← hm.block, hm.ordered.get?_eq_some_iff]
    constructor
    · rintro ⟨rfl | hf, rfl⟩
      · exact absurd rfl hk
      · exact ⟨hf, rfl⟩
    · rintro ⟨hf, rfl⟩
      exact ⟨Or.inr hf, rfl⟩

theorem Shows.filter (hm : c.Shows m) (p : Nat → Bool) {gone : Nat → Prop} [DecidablePred gone]
    (hp : ∀ h, p h = true ↔ ¬ gone h) :
    ({ c with entries := c.entries.filter (p ·.height) } : BlockCache).Shows (m.without gone) := by
  refine ⟨hm.ordered.of_sublist List.filter_sublist, fun k => ?_⟩
  rw [get?_filter, HeightMap.block_without, hm.block]
  by_cases hk : gone k
  · rw [if_pos hk, if_neg fun h => (hp k).1 h hk]
  · rw [if_neg hk, if_pos ((hp k).2 hk)]

/-! ## Each request, and any run of them -/

theorem capacity_perform (r : CacheRequest) (c : BlockCache) : (c.perform r).1.capacity = c.capacity := by
  cases r with
  | insert e => exact capacity_insert e c
  | take h => rfl
  | prune h => rfl

theorem Shows.insert (hm : c.Shows m) (e : CachedBlock) :
    (c.perform (.insert e)).1.Shows (m.perform c.capacity (.insert e)).1 ∧
      (c.perform (.insert e)).2 = (m.perform c.capacity (.insert e)).2 := by
  simp only [perform, HeightMap.perform, hm.card_held, hm.mem_held]
  by_cases hcond : c.size < c.capacity ∧ ¬ c.contains e.height = true
  · have hfree : c.contains e.height = false := Bool.eq_false_iff.2 hcond.2
    rw [if_pos hcond, insert_of_free hcond.1 hfree]
    exact ⟨hm.place hfree, rfl⟩
  · have hrefused : c.insert e = (c, false) := by
      unfold BlockCache.insert
      refine if_pos ?_
      rw [not_and_or, Nat.not_lt, not_not] at hcond
      rwa [Bool.or_eq_true, isFull_iff]
    rw [if_neg hcond, hrefused]
    exact ⟨hm, rfl⟩

theorem Shows.take (hm : c.Shows m) (h : UInt32) :
    (c.perform (.take h)).1.Shows (m.perform c.capacity (.take h)).1 ∧
      (c.perform (.take h)).2 = (m.perform c.capacity (.take h)).2 := by
  have hkept : (c.take h.toNat).1.Shows (m.without (· = h.toNat)) :=
    hm.filter (fun k => decide (k ≠ h.toNat)) fun k => decide_eq_true_iff
  exact ⟨hkept, congrArg CacheAnswer.taken (hm.block _)⟩

theorem Shows.prune (hm : c.Shows m) (h : UInt32) :
    (c.perform (.prune h)).1.Shows (m.perform c.capacity (.prune (CacheRequest.reach h))).1 ∧
      (c.perform (.prune h)).2 = (m.perform c.capacity (.prune (CacheRequest.reach h))).2 := by
  have hkept : (c.pruneThrough h.toNat).1.Shows (m.without (· ≤ (CacheRequest.reach h).toNat)) := by
    refine hm.filter (fun k => decide (min (h.toNat + 1) maxWord ≤ k)) fun k => ?_
    rw [decide_eq_true_eq, CacheRequest.reach_succ]
    omega
  refine ⟨hkept, congrArg CacheAnswer.pruned ?_⟩
  have hsplit := Finset.card_filter_add_card_filter_not (s := m.held) fun k => k ≤ (CacheRequest.reach h).toNat
  have hleft : (m.held.filter fun k => ¬ k ≤ (CacheRequest.reach h).toNat).card = (c.pruneThrough h.toNat).1.size :=
    hkept.card_held
  rw [hleft, hm.card_held] at hsplit
  show c.size - (c.pruneThrough h.toNat).1.size = _
  omega

theorem Shows.step (hm : c.Shows m) (r : CacheRequest) :
    (c.perform r).1.Shows (m.perform c.capacity r.served).1 ∧
      (c.perform r).2 = (m.perform c.capacity r.served).2 := by
  cases r with
  | insert e => exact hm.insert e
  | take h => exact hm.take h
  | prune h => exact hm.prune h

theorem Shows.run : ∀ {c : BlockCache} {m : HeightMap} (requests : List CacheRequest), c.Shows m →
    (CacheRequest.performAll perform requests c).1.Shows
      (CacheRequest.performAll (HeightMap.perform c.capacity) (requests.map CacheRequest.served) m).1 ∧
    (CacheRequest.performAll perform requests c).1.capacity = c.capacity ∧
    (CacheRequest.performAll perform requests c).2 =
      (CacheRequest.performAll (HeightMap.perform c.capacity) (requests.map CacheRequest.served) m).2
  | _, _, [], hm => ⟨hm, rfl, rfl⟩
  | c, _, r :: rs, hm => by
    obtain ⟨hshows, hanswer⟩ := hm.step r
    obtain ⟨hrest, hcapacity, hanswers⟩ := Shows.run rs hshows
    rw [capacity_perform] at hrest hcapacity hanswers
    exact ⟨hrest, hcapacity, congrArg₂ List.cons hanswer hanswers⟩

/-- Any requests in any order get the answers of a finite map that takes at most `capacity` blocks, and leave the
same blocks, if a prune through the greatest height is read as one that stops short of it. -/
theorem serves_as_bounded_map (capacity : Nat) (requests : List CacheRequest) :
    let (c, answers) := CacheRequest.performAll perform requests (empty capacity)
    let (m, expected) :=
      CacheRequest.performAll (HeightMap.perform capacity) (requests.map CacheRequest.served) .empty
    answers = expected ∧ c.capacity = capacity ∧ c.size = m.held.card ∧ (∀ h, c.get? h = m.block h) ∧
      (∀ h, c.firstHeight? = some h ↔ IsLeast (m.held : Set Nat) h) ∧
      ∀ h, c.lastHeight? = some h ↔ IsGreatest (m.held : Set Nat) h := by
  obtain ⟨hm, hcapacity, hanswers⟩ := Shows.run requests (shows_empty capacity)
  exact ⟨hanswers, hcapacity, hm.card_held.symm, hm.block, fun h => hm.firstHeight?_iff, fun h => hm.lastHeight?_iff⟩

/-- A block at the greatest height stays where the map lets go of it. -/
theorem greatest_height_not_pruned :
    let e : CachedBlock := ⟨⟨{ (default : Header) with index := 0xFFFFFFFF }, []⟩, [], 1⟩
    let requests := [.insert e, .prune 0xFFFFFFFF]
    (CacheRequest.performAll perform requests (empty 1)).2 = [.inserted true, .pruned 0] ∧
      (CacheRequest.performAll perform requests (empty 1)).1.get? maxWord = some e ∧
      (CacheRequest.performAll (HeightMap.perform 1) requests .empty).2 = [.inserted true, .pruned 1] := by
  decide

end BlockCache

end ChainSync
