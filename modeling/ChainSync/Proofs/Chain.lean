import ChainSync.Clock
import ChainSync.Proofs.Codec
import ChainSync.Proofs.Ledger
import Mathlib.Data.List.Nodup

/-!
# Ledgers on a chain

A ledger that so far holds headers and blocks of a valid chain takes every
further header of it, and every further block once its header is there.
-/

namespace ChainSync

variable [Digest]

/-- A chain that can be written, and stored from its first block on. -/
structure ValidChain (chain : List Block) : Prop where
  /-- No block stands at the greatest index. -/
  bounded : chain.length ≤ maxWord
  index : ∀ (i : Nat) b, chain[i]? = some b → b.height = i
  linked : ∀ (i : Nat) a b, chain[i]? = some a → chain[i + 1]? = some b → b.header.prevHash = a.hash
  merkle : ∀ (i : Nat) b, chain[i + 1]? = some b → Block.merkleRoot b.transactions = b.header.merkleRoot
  limits : ∀ b ∈ chain, b.WithinLimits
  distinct : (chain.map Block.hash).Nodup
  nonzero : ∀ b ∈ chain, b.hash ≠ Hash.zero

theorem ValidChain.eq_of_hash_eq {chain : List Block} (v : ValidChain chain) {a b : Block} (ha : a ∈ chain)
    (hb : b ∈ chain) (h : a.hash = b.hash) : a = b :=
  List.inj_on_of_nodup_map v.distinct ha hb h

theorem ValidChain.height_of_follow {chain : List Block} (v : ValidChain chain) {hs : List Header} {first : Header}
    {i : Nat} (hfollow : hs <+: (chain.map Block.header).drop i) (hfirst : hs.head? = some first) :
    first.height = i := by
  obtain ⟨more, hmore⟩ := hfollow
  have hget : (chain.map Block.header)[i]? = some first := by
    rw [← List.head?_drop, ← hmore, List.head?_append, hfirst]
    rfl
  rw [List.getElem?_map, Option.map_eq_some_iff] at hget
  obtain ⟨b, hb, rfl⟩ := hget
  exact v.index i b hb

theorem ValidChain.concat {chain : List Block} (v : ValidChain chain) {last b : Block} (hlast : chain.getLast? = some last)
    (hbounded : chain.length < maxWord) (hheight : b.height = chain.length) (hprev : b.header.prevHash = last.hash)
    (hmerkle : Block.merkleRoot b.transactions = b.header.merkleRoot) (hlimits : b.WithinLimits)
    (hnew : b.hash ∉ chain.map Block.hash) (hnonzero : b.hash ≠ Hash.zero) : ValidChain (chain ++ [b]) := by
  have hget : ∀ (i : Nat) c, (chain ++ [b])[i]? = some c → chain[i]? = some c ∨ i = chain.length ∧ c = b := by
    intro i c hc
    rw [List.getElem?_append] at hc
    split at hc
    case isTrue => exact Or.inl hc
    case isFalse hi =>
      obtain ⟨hzero, hb⟩ := List.getElem?_eq_some_iff.1 hc
      rw [List.length_singleton] at hzero
      exact Or.inr ⟨by omega, by simpa using hb.symm⟩
  have hlt : ∀ {i : Nat} {c : Block}, chain[i]? = some c → i < chain.length := fun h => (List.getElem?_eq_some_iff.1 h).1
  have hall : ∀ c ∈ chain ++ [b], c ∈ chain ∨ c = b := fun c hc => by simpa using hc
  constructor
  case bounded =>
    rw [List.length_append, List.length_singleton]
    exact hbounded
  case index =>
    intro i c hc
    rcases hget i c hc with hc | ⟨rfl, rfl⟩
    · exact v.index i c hc
    · exact hheight
  case linked =>
    intro i a c hi hnext
    rcases hget i a hi, hget (i + 1) c hnext with ⟨ha | ⟨hend, -⟩, hc | ⟨hend, rfl⟩⟩
    · exact v.linked i a c ha hc
    · rw [List.getLast?_eq_getElem?, ← hend, Nat.add_sub_cancel, ha] at hlast
      exact Option.some.inj hlast ▸ hprev
    · exact absurd (hlt hc) (by omega)
    · omega
  case merkle =>
    intro i c hc
    rcases hget (i + 1) c hc with hc | ⟨-, rfl⟩
    · exact v.merkle i c hc
    · exact hmerkle
  case limits => exact fun c hc => (hall c hc).elim (v.limits c) fun h => h ▸ hlimits
  case distinct =>
    rw [List.map_append, List.map_singleton, List.nodup_append_comm]
    exact List.nodup_cons.2 ⟨hnew, v.distinct⟩
  case nonzero => exact fun c hc => (hall c hc).elim (v.nonzero c) fun h => h ▸ hnonzero

namespace Ledger

/-- What the ledger holds stands at the same heights in the chain. -/
structure Follows (chain : List Block) (l : Ledger) : Prop where
  wellFormed : l.WellFormed
  header : ∀ (i : Nat) h, l.headers[i]? = some h → (chain.map Block.header)[i]? = some h
  block : ∀ (i : Nat) b, l.blocks[i]? = some b → chain[i]? = some b

variable {chain : List Block} {l : Ledger}

theorem follows_ofGenesis {g : Block} (hg : chain.head? = some g) : (ofGenesis g).Follows chain := by
  rw [List.head?_eq_getElem?] at hg
  constructor
  case wellFormed => exact wellFormed_ofGenesis g
  case header =>
    intro i h hh
    cases i with
    | zero => rwa [List.getElem?_map, hg]
    | succ i => simp [ofGenesis] at hh
  case block =>
    intro i b hb
    cases i with
    | zero => rwa [hg]
    | succ i => simp [ofGenesis] at hb

namespace Follows

theorem size_headers (f : l.Follows chain) : l.headers.size = l.headerHeight + 1 := by
  have := f.wellFormed.rooted
  unfold headerHeight
  omega

theorem size_blocks (f : l.Follows chain) : l.blocks.size = l.blockHeight + 1 := by
  have := f.wellFormed.based
  unfold blockHeight
  omega

theorem headers_get? (f : l.Follows chain) {i : Nat} (hi : i ≤ l.headerHeight) :
    ∃ b, chain[i]? = some b ∧ l.headers[i]? = some b.header := by
  obtain ⟨h, hh⟩ := f.wellFormed.header_of_le hi
  have hc := f.header i h hh
  rw [List.getElem?_map, Option.map_eq_some_iff] at hc
  obtain ⟨b, hb, rfl⟩ := hc
  exact ⟨b, hb, hh⟩

theorem headerHeight_lt (f : l.Follows chain) : l.headerHeight < chain.length := by
  obtain ⟨b, hb, -⟩ := f.headers_get? (Nat.le_refl _)
  exact (List.getElem?_eq_some_iff.1 hb).1

theorem hashAt_eq (f : l.Follows chain) {i : Nat} {b : Block} (hi : i ≤ l.headerHeight) (hb : chain[i]? = some b) :
    l.hashAt i = b.hash := by
  obtain ⟨c, hc, hh⟩ := f.headers_get? hi
  obtain rfl : b = c := Option.some.inj (hb.symm.trans hc)
  exact f.wellFormed.hashAt_of_header hh

/-! ## Headers -/

theorem links (f : l.Follows chain) (v : ValidChain chain) {b : Block} (hb : chain[l.headerHeight + 1]? = some b) :
    l.links b.header = true := by
  obtain ⟨a, ha, -⟩ := f.headers_get? (Nat.le_refl _)
  have hheight : b.header.height = l.headerHeight + 1 := v.index _ b hb
  have hprev : b.header.prevHash = l.hashAt l.headerHeight := by
    rw [f.hashAt_eq (Nat.le_refl _) ha]
    exact v.linked _ a b ha hb
  simp [Ledger.links, hheight, hprev]

theorem pushHeader (f : l.Follows chain) (v : ValidChain chain) {b : Block}
    (hb : chain[l.headerHeight + 1]? = some b) : (l.pushHeader b.header).Follows chain := by
  constructor
  case wellFormed => exact f.wellFormed.pushHeader (f.links v hb)
  case header =>
    intro i h hh
    rcases get?_of_push hh with ⟨rfl, rfl⟩ | hh
    · rw [f.size_headers, List.getElem?_map, hb]
      rfl
    · exact f.header i h hh
  case block => exact f.block

/-- Headers that follow the last one are all stored. -/
theorem addHeaders (v : ValidChain chain) : ∀ {hs : List Header} {l : Ledger}, l.Follows chain →
    hs <+: (chain.map Block.header).drop (l.headerHeight + 1) →
    (l.addHeaders hs).2 = hs.length ∧ (l.addHeaders hs).1.Follows chain ∧
      (l.addHeaders hs).1.headerHeight = l.headerHeight + hs.length
  | [], l, f, _ => ⟨rfl, f, rfl⟩
  | h :: hs, l, f, ⟨more, hmore⟩ => by
    have hhead : (chain.map Block.header)[l.headerHeight + 1]? = some h := by
      rw [← List.head?_drop, ← hmore]
      rfl
    have htail : (chain.map Block.header).drop (l.headerHeight + 1 + 1) = hs ++ more := by
      rw [← List.tail_drop, ← hmore]
      rfl
    rw [List.getElem?_map, Option.map_eq_some_iff] at hhead
    obtain ⟨b, hb, rfl⟩ := hhead
    have hheight : (l.pushHeader b.header).headerHeight = l.headerHeight + 1 := by
      simp only [headerHeight, Ledger.pushHeader, Array.size_push]
      have := f.size_headers
      omega
    have hrest : hs <+: (chain.map Block.header).drop ((l.pushHeader b.header).headerHeight + 1) :=
      ⟨more, by rw [hheight, htail]⟩
    obtain ⟨h1, h2, h3⟩ := addHeaders v (f.pushHeader v hb) hrest
    unfold Ledger.addHeaders
    rw [if_pos (f.links v hb)]
    refine ⟨congrArg (· + 1) h1, h2, ?_⟩
    show ((l.pushHeader b.header).addHeaders hs).1.headerHeight = _
    rw [h3, hheight, List.length_cons]
    omega

/-! ## Blocks -/

theorem fits (f : l.Follows chain) (v : ValidChain chain) {b : Block} (hb : chain[l.blockHeight + 1]? = some b)
    (hheader : l.blockHeight + 1 ≤ l.headerHeight) : l.Fits b := by
  have hheight : b.height = l.blockHeight + 1 := v.index _ b hb
  refine ⟨hheight, ?_, v.merkle _ b hb⟩
  rw [hheight, f.wellFormed.hashes_of_le hheader, f.hashAt_eq hheader hb]

theorem pushBlock (f : l.Follows chain) (v : ValidChain chain) {b : Block} (hb : chain[l.blockHeight + 1]? = some b)
    (hheader : l.blockHeight + 1 ≤ l.headerHeight) : (l.pushBlock b).Follows chain := by
  constructor
  case wellFormed => exact f.wellFormed.pushBlock (f.fits v hb hheader)
  case header => exact f.header
  case block =>
    intro i c hc
    rcases get?_of_push hc with ⟨rfl, rfl⟩ | hc
    · rwa [f.size_blocks]
    · exact f.block i c hc

theorem blocks_eq (f : l.Follows chain) (h : chain.length ≤ l.blockHeight + 1) : l.blocks.toList = chain := by
  apply List.ext_getElem?
  intro i
  rw [Array.getElem?_toList]
  cases hi : l.blocks[i]? with
  | some b => exact (f.block i b hi).symm
  | none =>
    have hsize := Array.getElem?_eq_none_iff.1 hi
    rw [f.size_blocks] at hsize
    exact (List.getElem?_eq_none (by omega)).symm

end Follows

end Ledger

end ChainSync
