import ChainSync.Ledger.Basic
import Mathlib.Data.List.Nodup

/-!
# Invariants of the ledger

Whatever headers and bytes a ledger is handed, its headers are a chain, its
blocks match them, and all of it grows at the end only. `links` and `Fits`
say when it grows; every invariant is read off these two conditions.
-/

namespace ChainSync.Ledger

/-! ## Arrays that grow at the end -/

theorem get?_of_push {α : Type} {xs : Array α} {x y : α} {i : Nat} (h : (xs.push x)[i]? = some y) :
    i = xs.size ∧ y = x ∨ xs[i]? = some y := by
  rw [Array.getElem?_push] at h
  by_cases hi : i = xs.size
  · rw [if_pos hi, Option.some.injEq] at h
    exact Or.inl ⟨hi, h.symm⟩
  · rw [if_neg hi] at h
    exact Or.inr h

theorem get?_push {α : Type} {xs : Array α} {y : α} {i : Nat} (x : α) (h : xs[i]? = some y) :
    (xs.push x)[i]? = some y := by
  have hi : i < xs.size := by
    rcases Nat.lt_or_ge i xs.size with hlt | hge; exact hlt
    simp [Array.getElem?_eq_none hge] at h
  rw [Array.getElem?_push, if_neg (by omega), h]

variable [Digest]

/-! ## Growth -/

structure Extends (l l' : Ledger) : Prop where
  headers : l.headers.toList <+: l'.headers.toList
  hashes : l.hashes.toList <+: l'.hashes.toList
  blocks : l.blocks.toList <+: l'.blocks.toList

omit [Digest] in
theorem Extends.refl (l : Ledger) : l.Extends l :=
  ⟨List.prefix_refl _, List.prefix_refl _, List.prefix_refl _⟩

omit [Digest] in
theorem Extends.trans {l l' l'' : Ledger} (h : l.Extends l') (h' : l'.Extends l'') : l.Extends l'' :=
  ⟨h.headers.trans h'.headers, h.hashes.trans h'.hashes, h.blocks.trans h'.blocks⟩

theorem extends_pushHeader (l : Ledger) (h : Header) : l.Extends (l.pushHeader h) :=
  ⟨by simp [pushHeader], by simp [pushHeader], List.prefix_refl _⟩

theorem extends_pushBlock (l : Ledger) (b : Block) : l.Extends (l.pushBlock b) :=
  ⟨List.prefix_refl _, List.prefix_refl _, by simp [pushBlock]⟩

theorem addHeaders_preserves {P : Ledger → Prop} :
    ∀ (hs : List Header) (l : Ledger),
      (∀ l, ∀ h ∈ hs, l.links h = true → P l → P (l.pushHeader h)) → P l → P (l.addHeaders hs).1
  | [], _, _, hl => hl
  | h :: hs, l, step, hl => by
    unfold addHeaders
    by_cases hlink : l.links h = true
    · simp only [hlink, ite_true]
      refine addHeaders_preserves hs (l.pushHeader h) (fun l x hx => step l x (by simp [hx])) ?_
      exact step l h (by simp) hlink hl
    · simpa only [hlink, Bool.false_eq_true, ite_false] using hl

theorem extends_addHeaders (hs : List Header) (l : Ledger) : l.Extends (l.addHeaders hs).1 :=
  addHeaders_preserves (P := l.Extends) hs l
    (fun l' h _ _ he => he.trans (extends_pushHeader l' h)) (Extends.refl l)

theorem blocks_addHeaders (hs : List Header) (l : Ledger) : (l.addHeaders hs).1.blocks = l.blocks :=
  addHeaders_preserves (P := fun l' => l'.blocks = l.blocks) hs l (fun _ _ _ _ h => h) rfl

theorem blockHeight_addHeaders (hs : List Header) (l : Ledger) :
    (l.addHeaders hs).1.blockHeight = l.blockHeight := by
  rw [blockHeight, blocks_addHeaders, blockHeight]

omit [Digest] in
theorem Extends.headerHeight_le {l l' : Ledger} (h : l.Extends l') : l.headerHeight ≤ l'.headerHeight := by
  have := h.headers.length_le
  simp only [Array.length_toList] at this
  unfold headerHeight
  omega

/-! ## Which blocks are stored -/

structure Fits (l : Ledger) (b : Block) : Prop where
  height : b.height = l.blockHeight + 1
  header : l.hashes[b.height]? = some b.hash
  merkle : Block.merkleRoot b.transactions = b.header.merkleRoot

theorem reject?_eq_none_iff {l : Ledger} {b : Block} : l.reject? b = none ↔ l.Fits b := by
  unfold reject?
  constructor
  · intro h
    by_cases hheight : b.height = l.blockHeight + 1
    · simp only [hheight, ne_eq, not_true, ite_false] at h
      cases hhash : l.hashes[l.blockHeight + 1]? with
      | none => simp [hhash] at h
      | some expected =>
        by_cases hb : b.hash = expected
        · by_cases hm : Block.merkleRoot b.transactions = b.header.merkleRoot
          · exact ⟨hheight, by rw [hheight, hhash, hb], hm⟩
          · simp [hhash, hb, hm] at h
        · simp [hhash, hb] at h
    · simp [hheight] at h
  · rintro ⟨hheight, hhash, hm⟩
    rw [hheight] at hhash
    simp [hheight, hhash, hm]

/-- Storing succeeds exactly with the bytes of a block that fits. -/
theorem addBlock_eq_ok_iff {l l' : Ledger} {raw : Bytes} {b : Block} :
    l.addBlock raw = .ok (l', b) ↔ Codec.ofBytes Block raw = .ok b ∧ l.Fits b ∧ l' = l.pushBlock b := by
  unfold addBlock
  rw [← reject?_eq_none_iff]
  cases hraw : Codec.ofBytes Block raw with
  | error stop => simp [Except.mapError, bind, Except.bind]
  | ok c =>
    simp only [Except.mapError, bind, Except.bind, Except.ok.injEq]
    cases hr : l.reject? c with
    | none =>
      simp only [Except.ok.injEq, Prod.mk.injEq]
      constructor
      · rintro ⟨rfl, rfl⟩
        exact ⟨rfl, hr, rfl⟩
      · rintro ⟨rfl, _, rfl⟩
        exact ⟨rfl, rfl⟩
    | some e =>
      simp only [reduceCtorEq, false_iff]
      rintro ⟨rfl, hn, _⟩
      simp [hr] at hn

/-! ## The invariant -/

structure WellFormed (l : Ledger) : Prop where
  rooted : 0 < l.headers.size
  hashes : l.hashes = l.headers.map Header.hash
  index : ∀ i h, 0 < i → l.headers[i]? = some h → h.height = i
  linked : ∀ i h, l.headers[i + 1]? = some h → l.hashes[i]? = some h.prevHash
  based : 0 < l.blocks.size
  covered : l.blocks.size ≤ l.headers.size
  height : ∀ i b, 0 < i → l.blocks[i]? = some b → b.height = i
  matched : ∀ (i : Nat) (b : Block), l.blocks[i]? = some b → l.hashes[i]? = some b.hash
  merkle : ∀ (i : Nat) (b : Block), 0 < i → l.blocks[i]? = some b →
    Block.merkleRoot b.transactions = b.header.merkleRoot
  persisted : ∀ h, h ∈ l.persisted ↔ ∃ b ∈ l.blocks.toList, ∃ tx ∈ b.transactions, Transaction.hash tx = h

theorem wellFormed_ofGenesis (g : Block) : (ofGenesis g).WellFormed where
  rooted := by simp [ofGenesis]
  hashes := by simp [ofGenesis, Block.hash]
  index
    | i + 1, h, _, hh => by simp [ofGenesis] at hh
  linked i h hh := by simp [ofGenesis] at hh
  based := by simp [ofGenesis]
  covered := by simp [ofGenesis]
  height
    | i + 1, b, _, hb => by simp [ofGenesis] at hb
  matched
    | 0, b, hb => by simpa [ofGenesis] using congrArg (Option.map Block.hash) hb
    | i + 1, b, hb => by simp [ofGenesis] at hb
  merkle
    | i + 1, b, _, hb => by simp [ofGenesis] at hb
  persisted h := by simp [ofGenesis]

namespace WellFormed

variable {l : Ledger}

theorem size_hashes (w : l.WellFormed) : l.hashes.size = l.headers.size := by
  rw [w.hashes, Array.size_map]

theorem blockHeight_le (w : l.WellFormed) : l.blockHeight ≤ l.headerHeight := by
  have := w.covered
  unfold blockHeight headerHeight
  omega

theorem blockHeight_pushBlock (w : l.WellFormed) (b : Block) : (l.pushBlock b).blockHeight = l.blockHeight + 1 := by
  have := w.based
  simp only [blockHeight, Ledger.pushBlock, Array.size_push]
  omega

theorem hashes_get? (w : l.WellFormed) (i : Nat) : l.hashes[i]? = (l.headers[i]?).map Header.hash := by
  rw [w.hashes, Array.getElem?_map]

theorem hashAt_of_header (w : l.WellFormed) {i : Nat} {h : Header} (hi : l.headers[i]? = some h) :
    l.hashAt i = h.hash := by
  rw [hashAt, w.hashes_get?, hi]
  rfl

theorem header_of_le (w : l.WellFormed) {i : Nat} (hi : i ≤ l.headerHeight) :
    ∃ h, l.headers[i]? = some h := by
  have := w.rooted
  unfold headerHeight at hi
  exact ⟨l.headers[i], Array.getElem?_eq_getElem (by omega)⟩

theorem hashes_of_le (w : l.WellFormed) {i : Nat} (hi : i ≤ l.headerHeight) :
    l.hashes[i]? = some (l.hashAt i) := by
  obtain ⟨h, hh⟩ := w.header_of_le hi
  rw [w.hashes_get?, w.hashAt_of_header hh, hh]
  rfl

theorem hashAt_of_extends (w : l.WellFormed) {l' : Ledger} (h : l.Extends l') {i : Nat} (hi : i ≤ l.headerHeight) :
    l'.hashAt i = l.hashAt i := by
  obtain ⟨more, hmore⟩ := h.hashes
  have hlt : i < l.hashes.toList.length := by
    have := w.rooted
    rw [Array.length_toList, w.size_hashes]
    unfold headerHeight at hi
    omega
  rw [hashAt, hashAt, ← Array.getElem?_toList, ← hmore, List.getElem?_append_left hlt, Array.getElem?_toList]

theorem links_iff (w : l.WellFormed) {h : Header} :
    l.links h = true ↔ h.height = l.headers.size ∧ l.hashes[l.headers.size - 1]? = some h.prevHash := by
  have hr := w.rooted
  have htop := w.hashes_of_le (Nat.le_refl l.headerHeight)
  unfold links
  rw [show l.headers.size - 1 = l.headerHeight from rfl, htop]
  simp only [Bool.and_eq_true, decide_eq_true_eq, Option.some.injEq]
  unfold headerHeight
  constructor
  · rintro ⟨h1, h2⟩
    exact ⟨by omega, h2.symm⟩
  · rintro ⟨h1, h2⟩
    exact ⟨by omega, h2.symm⟩

theorem pushHeader (w : l.WellFormed) {h : Header} (hl : l.links h = true) : (l.pushHeader h).WellFormed := by
  obtain ⟨hheight, hprev⟩ := w.links_iff.1 hl
  constructor
  case rooted => simp [Ledger.pushHeader]
  case hashes => simp [Ledger.pushHeader, w.hashes]
  case index =>
    intro i x hi hx
    rcases get?_of_push hx with ⟨rfl, rfl⟩ | hx
    · exact hheight
    · exact w.index i x hi hx
  case linked =>
    intro i x hx
    apply get?_push
    rcases get?_of_push hx with ⟨hi, rfl⟩ | hx
    · rw [show i = l.headers.size - 1 by omega]
      exact hprev
    · exact w.linked i x hx
  case based => exact w.based
  case covered =>
    have := w.covered
    simp only [Ledger.pushHeader, Array.size_push]
    omega
  case height => exact w.height
  case matched => exact fun i b hb => get?_push _ (w.matched i b hb)
  case merkle => exact w.merkle
  case persisted => exact w.persisted

theorem addHeaders (w : l.WellFormed) (hs : List Header) : (l.addHeaders hs).1.WellFormed :=
  addHeaders_preserves hs l (fun _ _ _ hl w => w.pushHeader hl) w

theorem pushBlock (w : l.WellFormed) {b : Block} (hb : l.Fits b) : (l.pushBlock b).WellFormed := by
  have hheight : b.height = l.blocks.size := by
    have hbase := w.based
    have := hb.height
    unfold blockHeight at this
    omega
  constructor
  case rooted => exact w.rooted
  case hashes => exact w.hashes
  case index => exact w.index
  case linked => exact w.linked
  case based => simp [Ledger.pushBlock]
  case covered =>
    -- the block's header is stored, and behind all stored blocks
    rw [Ledger.pushBlock, Array.size_push, ← w.size_hashes, ← hheight]
    rcases Nat.lt_or_ge b.height l.hashes.size with hlt | hge; exact hlt
    simpa [Array.getElem?_eq_none hge] using hb.header
  case height =>
    intro i c hi hc
    rcases get?_of_push hc with ⟨rfl, rfl⟩ | hc
    · exact hheight
    · exact w.height i c hi hc
  case matched =>
    intro i c hc
    rcases get?_of_push hc with ⟨rfl, rfl⟩ | hc
    · rw [← hheight]
      exact hb.header
    · exact w.matched i c hc
  case merkle =>
    intro i c hi hc
    rcases get?_of_push hc with ⟨rfl, rfl⟩ | hc
    · exact hb.merkle
    · exact w.merkle i c hi hc
  case persisted =>
    intro h
    simp only [Ledger.pushBlock, List.mem_append, List.mem_map, w.persisted h, Array.toList_push,
      List.mem_singleton]
    constructor
    · rintro (⟨tx, htx, rfl⟩ | ⟨c, hc, hrest⟩)
      · exact ⟨b, Or.inr rfl, tx, htx, rfl⟩
      · exact ⟨c, Or.inl hc, hrest⟩
    · rintro ⟨c, hc | rfl, tx, htx, rfl⟩
      · exact Or.inr ⟨c, hc, tx, htx, rfl⟩
      · exact Or.inl ⟨tx, htx, rfl⟩

end WellFormed

/-! ## Storing in place -/

/-- Storing a block on a ledger in place, one write after the other: what was written before a failure
stays written. -/
def store (raw : Bytes) : EStateM LedgerError Ledger Block := do
  let block ←
    match Codec.ofBytes Block raw with
    | .ok block => pure block
    | .error stop => throw (.decode (.ofStop stop))
  let l ← get
  if block.height ≠ l.blockHeight + 1 then
    throw (.outOfOrder l.blockHeight block.height)
  let some expected := l.hashes[block.height]? | throw (.unknownHeader block.height)
  if block.hash ≠ expected then
    throw (.hashMismatch block.height expected block.hash)
  if Block.merkleRoot block.transactions ≠ block.header.merkleRoot then
    throw (.merkleMismatch block.height)
  modify fun l => { l with persisted := block.transactions.map Transaction.hash ++ l.persisted }
  modify fun l => { l with blocks := l.blocks.push block }
  return block

/-- No failure of `store` comes behind a write. -/
theorem store_run (raw : Bytes) (l : Ledger) :
    (store raw).run l =
      match l.addBlock raw with
      | .ok (l', b) => .ok b l'
      | .error e => .error e l := by
  unfold store addBlock reject?
  cases hraw : Codec.ofBytes Block raw with
  | error stop => rfl
  | ok b =>
    have hget : (EStateM.get : EStateM LedgerError Ledger Ledger) l = .ok l l := rfl
    simp only [EStateM.run, bind, EStateM.bind, pure, EStateM.pure, get, getThe, MonadStateOf.get, hget, Except.bind,
      Except.mapError]
    by_cases hheight : b.height = l.blockHeight + 1
    · cases hhash : l.hashes[l.blockHeight + 1]? with
      | none =>
        simp [hheight, hhash]
        rfl
      | some expected =>
        by_cases hb : b.hash = expected
        · by_cases hm : Block.merkleRoot b.transactions = b.header.merkleRoot
          · simp [hheight, hhash, hb, hm]
            rfl
          · simp [hheight, hhash, hb, hm]
            rfl
        · simp [hheight, hhash, hb]
          rfl
    · simp [hheight]
      rfl

/-! ## Runs -/

inductive Op
  | headers (hs : List Header)
  | block (raw : Bytes)

def Op.run (l : Ledger) : Op → Ledger
  | headers hs => (l.addHeaders hs).1
  | block raw =>
    match l.addBlock raw with
    | .ok (l, _) => l
    | .error _ => l

def runOps (l : Ledger) (ops : List Op) : Ledger :=
  ops.foldl Op.run l

theorem run_block_cases (l : Ledger) (raw : Bytes) :
    (∃ b, Codec.ofBytes Block raw = .ok b ∧ l.Fits b ∧ (Op.block raw).run l = l.pushBlock b) ∨
      (Op.block raw).run l = l := by
  simp only [Op.run]
  cases h : l.addBlock raw with
  | ok stored =>
    obtain ⟨hraw, hb, hl⟩ := addBlock_eq_ok_iff.1 h
    exact Or.inl ⟨stored.2, hraw, hb, hl⟩
  | error e => exact Or.inr rfl

theorem WellFormed.run {l : Ledger} (w : l.WellFormed) (op : Op) : (op.run l).WellFormed := by
  cases op with
  | headers hs => exact w.addHeaders hs
  | block raw =>
    obtain ⟨b, -, hb, h⟩ | h := run_block_cases l raw
    · rw [h]
      exact w.pushBlock hb
    · rw [h]
      exact w

theorem extends_run (l : Ledger) (op : Op) : l.Extends (op.run l) := by
  cases op with
  | headers hs => exact extends_addHeaders hs l
  | block raw =>
    obtain ⟨b, -, -, h⟩ | h := run_block_cases l raw
    · rw [h]
      exact extends_pushBlock l b
    · rw [h]
      exact Extends.refl l

theorem WellFormed.runOps {l : Ledger} (w : l.WellFormed) (ops : List Op) : (l.runOps ops).WellFormed := by
  induction ops generalizing l with
  | nil => exact w
  | cons op ops ih => exact ih (w.run op)

theorem extends_runOps (l : Ledger) (ops : List Op) : l.Extends (l.runOps ops) := by
  induction ops generalizing l with
  | nil => exact Extends.refl l
  | cons op ops ih => exact (extends_run l op).trans (ih _)

/-- **Invariant of the ledger.** Every run from a genesis block keeps the ledger well formed, later
operations only add to it, and storing a block either succeeds or leaves no trace. -/
theorem invariant_runOps (g : Block) (ops : List Op) :
    let l := (ofGenesis g).runOps ops
    l.WellFormed ∧ l.hashes.size = l.headers.size ∧ l.blockHeight ≤ l.headerHeight ∧
      (∀ more, l.Extends ((ofGenesis g).runOps (ops ++ more))) ∧
      ∀ raw,
        match (store raw).run l with
        | .ok _ l' => l' = (Op.block raw).run l
        | .error _ l' => l' = l ∧ (Op.block raw).run l = l := by
  intro l
  have w : l.WellFormed := (wellFormed_ofGenesis g).runOps ops
  refine ⟨w, w.size_hashes, w.blockHeight_le, ?_, ?_⟩
  · intro more
    rw [show (ofGenesis g).runOps (ops ++ more) = l.runOps more from List.foldl_append]
    exact extends_runOps l more
  · intro raw
    rw [store_run, Op.run]
    cases l.addBlock raw with
    | ok _ => rfl
    | error _ => exact ⟨rfl, rfl⟩

end ChainSync.Ledger
