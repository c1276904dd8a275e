import ChainSync.Hash.Sha256
import ChainSync.Proofs.Codec
import ChainSync.Proofs.Ledger
import ChainSync.Scripted.Chain

/-!
# What a header commits to

Two blocks that fit the same header carry the same transactions if they
carry equally many of them, unless two byte strings that were hashed
collide. Lists of different lengths can share a root in three ways
(`Mistaken`): the odd hash at the end of a level, joined with itself, is
written out in the other list; the transactions of the one are spelled like
inner nodes of the other's tree; or the root is the zero that stands for no
transaction at all.
-/

namespace ChainSync

section
variable [Digest]

def Collide (strings : List Bytes) : Prop :=
  ∃ x ∈ strings, ∃ y ∈ strings, x ≠ y ∧ digest x = digest y

theorem not_collide_of_subset {strings all : List Bytes} (hsub : strings ⊆ all) (h : (all.map digest).Nodup) :
    ¬Collide strings := by
  rintro ⟨x, hx, y, hy, hne, heq⟩
  exact hne (List.inj_on_of_nodup_map h (hsub hx) (hsub hy) heq)

variable {strings : List Bytes} (hfree : ¬Collide strings)
include hfree

theorem eq_of_digest_eq {x y : Bytes} (hx : x ∈ strings) (hy : y ∈ strings) (h : digest x = digest y) : x = y := by
  by_contra hne
  exact hfree ⟨x, hx, y, hy, hne, h⟩

theorem eq_of_map_digest_eq : ∀ {xs ys : List Bytes}, xs ⊆ strings → ys ⊆ strings →
    xs.map digest = ys.map digest → xs = ys
  | [], [], _, _, _ => rfl
  | [], _ :: _, _, _, h => by simp at h
  | _ :: _, [], _, _, h => by simp at h
  | x :: xs, y :: ys, hx, hy, h => by
    simp only [List.map_cons, List.cons.injEq, List.cons_subset] at h hx hy
    rw [eq_of_digest_eq hfree hx.1 hy.1 h.1, eq_of_map_digest_eq hx.2 hy.2 h.2]

end

namespace Merkle

/-! ## One level -/

def pairs : List Hash → List Bytes
  | a :: b :: rest => (a.bytes ++ b.bytes) :: pairs rest
  | [a] => [a.bytes ++ a.bytes]
  | [] => []

/-- Oddly many hashes, and the same with the last one written twice. -/
inductive Pads : List Hash → List Hash → Prop
  | last (a : Hash) : Pads [a] [a, a]
  | cons {l l' : List Hash} (a b : Hash) (h : Pads l l') : Pads (a :: b :: l) (a :: b :: l')

theorem Pads.length_eq {l l' : List Hash} (h : Pads l l') : l'.length = l.length + 1 := by
  induction h with
  | last => rfl
  | cons a b _ ih => simp [ih]

theorem Pads.pairs_eq {l l' : List Hash} (h : Pads l l') : pairs l = pairs l' := by
  induction h with
  | last => rfl
  | cons a b _ ih => rw [pairs, pairs, ih]

theorem append_bytes_inj {a b c d : Hash} (h : a.bytes ++ b.bytes = c.bytes ++ d.bytes) : a = c ∧ b = d := by
  obtain ⟨hac, hbd⟩ := List.append_inj h (by rw [a.length_bytes, c.length_bytes])
  cases a; cases b; cases c; cases d
  simp_all

theorem pairs_eq_nil {hs : List Hash} (h : pairs hs = []) : hs = [] := by
  unfold pairs at h
  split at h <;> simp_all

theorem length_pairs (hs : List Hash) : (pairs hs).length = (hs.length + 1) / 2 := by
  induction hs using pairs.induct with
  | case1 a b rest ih => simp only [pairs, List.length_cons, ih]; omega
  | case2 | case3 => simp [pairs]

/-- Hashes that are paired alike differ at most in whether the last one is written twice. -/
theorem pairs_inj : ∀ {hs hs' : List Hash}, pairs hs = pairs hs' → hs = hs' ∨ Pads hs hs' ∨ Pads hs' hs
  | [], hs', h => Or.inl (pairs_eq_nil h.symm).symm
  | hs, [], h => Or.inl (pairs_eq_nil h)
  | [a], [c], h => by
    simp only [pairs, List.cons.injEq, and_true] at h
    exact Or.inl (by rw [(append_bytes_inj h).1])
  | [a], c :: d :: rest, h => by
    simp only [pairs, List.cons.injEq] at h
    obtain ⟨rfl, rfl⟩ := append_bytes_inj h.1
    rw [pairs_eq_nil h.2.symm]
    exact Or.inr (Or.inl (.last _))
  | a :: b :: rest, [c], h => by
    simp only [pairs, List.cons.injEq] at h
    obtain ⟨rfl, rfl⟩ := append_bytes_inj h.1
    rw [pairs_eq_nil h.2]
    exact Or.inr (Or.inr (.last _))
  | a :: b :: rest, c :: d :: rest', h => by
    simp only [pairs, List.cons.injEq] at h
    obtain ⟨rfl, rfl⟩ := append_bytes_inj h.1
    rcases pairs_inj h.2 with rfl | hpads | hpads
    · exact Or.inl rfl
    · exact Or.inr (Or.inl (.cons a b hpads))
    · exact Or.inr (Or.inr (.cons a b hpads))

/-! ## All levels -/

variable [Digest]

theorem pairUp_eq (hs : List Hash) : pairUp hs = (pairs hs).map digest := by
  induction hs using pairs.induct with
  | case1 a b rest ih => rw [pairUp, pairs, List.map_cons, ih]; rfl
  | case2 | case3 => rfl

theorem length_pairUp_lt (a b : Hash) (rest : List Hash) :
    (pairUp (a :: b :: rest)).length < (a :: b :: rest).length := by
  rw [pairUp_eq, List.length_map, length_pairs]
  simp only [List.length_cons]
  omega

def levels : List Hash → List (List Hash)
  | a :: b :: rest => (a :: b :: rest) :: levels (pairUp (a :: b :: rest))
  | hs => [hs]
termination_by hs => hs.length
decreasing_by exact length_pairUp_lt a b rest

def joined : List Hash → List Bytes
  | a :: b :: rest => pairs (a :: b :: rest) ++ joined (pairUp (a :: b :: rest))
  | _ => []
termination_by hs => hs.length
decreasing_by exact length_pairUp_lt a b rest

theorem self_mem_levels (hs : List Hash) : hs ∈ levels hs := by
  unfold levels
  split <;> simp

theorem root_mem_levels {hs : List Hash} (hne : hs ≠ []) : [root hs] ∈ levels hs := by
  induction hs using root.induct with
  | case1 => exact absurd rfl hne
  | case2 a => simp [root, levels]
  | case3 a b rest ih =>
    rw [root, levels]
    exact List.mem_cons_of_mem _ (ih (by simp [pairUp]))

theorem length_le_of_mem_levels {hs l : List Hash} (hl : l ∈ levels hs) : l.length ≤ hs.length := by
  induction hs using root.induct with
  | case1 | case2 => simp [levels] at hl; simp [hl]
  | case3 a b rest ih =>
    rw [levels, List.mem_cons] at hl
    rcases hl with rfl | hl
    · exact Nat.le_refl _
    · exact Nat.le_trans (ih hl) (Nat.le_of_lt (length_pairUp_lt a b rest))

theorem of_mem_levels {hs l : List Hash} (hl : l ∈ levels hs) (hne : l ≠ hs) :
    ∃ below ∈ levels hs, 1 < below.length ∧ pairUp below = l ∧ pairs below ⊆ joined hs := by
  induction hs using root.induct with
  | case1 | case2 => simp [levels] at hl; exact absurd hl hne
  | case3 a b rest ih =>
    rw [levels, List.mem_cons] at hl
    rw [levels, joined]
    by_cases heq : l = pairUp (a :: b :: rest)
    · exact ⟨_, List.mem_cons_self .., by simp, heq.symm, List.subset_append_left ..⟩
    · obtain ⟨below, hmem, hlong, hup, hsub⟩ := ih (hl.resolve_left hne) heq
      exact ⟨below, List.mem_cons_of_mem _ hmem, hlong, hup, List.Subset.trans hsub (List.subset_append_right ..)⟩

theorem root_of_mem_levels {hs l : List Hash} (hl : l ∈ levels hs) : root l = root hs := by
  induction hs using root.induct with
  | case1 | case2 => simp [levels] at hl; rw [hl]
  | case3 a b rest ih =>
    rw [levels, List.mem_cons] at hl
    rcases hl with rfl | hl
    · rfl
    · rw [ih hl, root.eq_3]

theorem root_pairUp {hs : List Hash} (hlong : 1 < hs.length) : root (pairUp hs) = root hs := by
  match hs, hlong with
  | a :: b :: rest, _ => rw [root.eq_3]

theorem Pads.root_eq {l l' : List Hash} (h : Pads l l') (hlong : 1 < l.length) : root l = root l' := by
  have := h.length_eq
  have hup : pairUp l = pairUp l' := by rw [pairUp_eq, pairUp_eq, h.pairs_eq]
  rw [← root_pairUp hlong, hup, root_pairUp (by omega)]

section
variable {strings : List Bytes} (hfree : ¬Collide strings)
include hfree

theorem pairUp_inj {hs hs' : List Hash} (hsub : pairs hs ⊆ strings) (hsub' : pairs hs' ⊆ strings)
    (h : pairUp hs = pairUp hs') : hs = hs' ∨ Pads hs hs' ∨ Pads hs' hs := by
  rw [pairUp_eq, pairUp_eq] at h
  exact pairs_inj (eq_of_map_digest_eq hfree hsub hsub' h)

theorem eq_of_root_eq {hs hs' : List Hash} (hlen : hs.length = hs'.length) (hsub : joined hs ⊆ strings)
    (hsub' : joined hs' ⊆ strings) (h : root hs = root hs') : hs = hs' := by
  -- along the levels of the one tree: with equal lengths those of the other keep in step
  induction hs using root.induct generalizing hs' with
  | case1 => exact (List.length_eq_zero_iff.1 hlen.symm).symm
  | case2 a =>
    obtain ⟨a', rfl⟩ := List.length_eq_one_iff.1 hlen.symm
    simpa [root] using h
  | case3 a b rest ih =>
    match hs', hlen with
    | c :: d :: rest', hlen =>
      rw [root, root] at h
      rw [joined, List.append_subset] at hsub hsub'
      have hup : pairUp (a :: b :: rest) = pairUp (c :: d :: rest') := by
        apply ih _ hsub.2 hsub'.2 h
        simp only [pairUp_eq, List.length_map, length_pairs, hlen]
      rcases pairUp_inj hfree hsub.1 hsub'.1 hup with heq | hpads | hpads
      · exact heq
      · have := hpads.length_eq
        omega
      · have := hpads.length_eq
        omega

/-- All hashes of the one are a level of the other, or a hash that the one joins with itself is written out
by the other. -/
def Meets (hs hs' : List Hash) : Prop :=
  hs ∈ levels hs' ∨ ∃ l ∈ levels hs, 1 < l.length ∧ ∃ l' ∈ levels hs', Pads l l'

omit hfree in
theorem Meets.root_eq {hs hs' : List Hash} (h : Meets hs hs') : root hs = root hs' := by
  rcases h with hmem | ⟨l, hl, hlong, l', hl', hpads⟩
  · exact root_of_mem_levels hmem
  · rw [← root_of_mem_levels hl, ← root_of_mem_levels hl', hpads.root_eq hlong]

theorem meets_of_pairUp_meets {a b : Hash} {rest hs' : List Hash} (hsub : pairs (a :: b :: rest) ⊆ strings)
    (hsub' : joined hs' ⊆ strings) (hlong : 1 < hs'.length) (h : Meets (pairUp (a :: b :: rest)) (pairUp hs')) :
    Meets (a :: b :: rest) hs' ∨ Meets hs' (a :: b :: rest) := by
  match hs', hlong with
  | c :: d :: rest', _ =>
    rcases h with hmem | ⟨l, hl, hlong, l', hl', hpads⟩
    · have hshort := Nat.lt_of_le_of_lt (length_le_of_mem_levels hmem) (length_pairUp_lt c d rest')
      have hmem' : pairUp (a :: b :: rest) ∈ levels (c :: d :: rest') := by
        rw [levels]
        exact List.mem_cons_of_mem _ hmem
      -- this level is above the first one of the other tree, so it is joined from hashes there as well
      obtain ⟨below, hbelow, hlong, hup, hpairs⟩ := of_mem_levels hmem' fun heq => Nat.lt_irrefl _ (heq ▸ hshort)
      rcases pairUp_inj hfree hsub (List.Subset.trans hpairs hsub') hup.symm with rfl | hpads | hpads
      · exact Or.inl (Or.inl hbelow)
      · exact Or.inl (Or.inr ⟨_, self_mem_levels _, by simp, below, hbelow, hpads⟩)
      · exact Or.inr (Or.inr ⟨below, hbelow, hlong, _, self_mem_levels _, hpads⟩)
    · refine Or.inl (Or.inr ⟨l, ?_, hlong, l', ?_, hpads⟩)
      · rw [levels]
        exact List.mem_cons_of_mem _ hl
      · rw [levels]
        exact List.mem_cons_of_mem _ hl'

theorem meets_of_root_eq {hs hs' : List Hash} (hne : hs ≠ []) (hne' : hs' ≠ []) (hsub : joined hs ⊆ strings)
    (hsub' : joined hs' ⊆ strings) (h : root hs = root hs') : Meets hs hs' ∨ Meets hs' hs := by
  -- both trees are climbed together, until one of them is a single hash: the root of the other
  induction hs using root.induct generalizing hs' with
  | case1 => exact absurd rfl hne
  | case2 a =>
    rw [root] at h
    exact Or.inl (Or.inl (h ▸ root_mem_levels hne'))
  | case3 a b rest ih =>
    match hs', hne' with
    | [c], _ =>
      rw [root.eq_2 c] at h
      exact Or.inr (Or.inl (h ▸ root_mem_levels hne))
    | c :: d :: rest', _ =>
      rw [root, root] at h
      have hsplit := List.append_subset.1 (joined.eq_1 a b rest ▸ hsub)
      have hsplit' := List.append_subset.1 (joined.eq_1 c d rest' ▸ hsub')
      rcases ih (by simp [pairUp]) (by simp [pairUp]) hsplit.2 hsplit'.2 h with hmeets | hmeets
      · exact meets_of_pairUp_meets hfree hsplit.1 hsub' (by simp) hmeets
      · exact (meets_of_pairUp_meets hfree hsplit'.1 hsub (by simp) hmeets).symm

end

end Merkle

/-! ## Transactions -/

open Merkle (Pads joined levels)

section
variable [Digest]

/-- How a list of transactions can pass for another one: both have the same Merkle root. -/
inductive Mistaken (txs txs' : List Transaction) : Prop
  /-- At some level the hash at the odd end is written out by the other list. -/
  | padded (l l' : List Hash) (hl : l ∈ levels (txs.map Transaction.hash)) (hlong : 1 < l.length)
      (hl' : l' ∈ levels (txs'.map Transaction.hash)) (h : Pads l l')
  /-- The transactions are spelled like the inner nodes at some level of the other list. -/
  | nodes (hne : txs ≠ []) (hl : txs.map Transaction.hash ∈ levels (txs'.map Transaction.hash))
      (hdata : ∀ tx ∈ txs, tx.data ∈ joined (txs'.map Transaction.hash))
  | none (h : txs = []) (hroot : Block.merkleRoot txs' = Hash.zero)

theorem Mistaken.merkleRoot_eq {txs txs' : List Transaction} (h : Mistaken txs txs') :
    Block.merkleRoot txs = Block.merkleRoot txs' := by
  cases h with
  | padded l l' hl hlong hl' h => exact Merkle.Meets.root_eq (Or.inr ⟨l, hl, hlong, l', hl', h⟩)
  | nodes _ hl => exact Merkle.root_of_mem_levels hl
  | none h hroot =>
    subst h
    rw [hroot, Block.merkleRoot, List.map_nil, Merkle.root]

def Transaction.hashedFor (txs : List Transaction) : List Bytes :=
  txs.map Transaction.data ++ joined (txs.map Transaction.hash)

variable {strings : List Bytes} (hfree : ¬Collide strings)
include hfree

theorem transactions_eq_of_hashes {txs txs' : List Transaction} (hsub : txs.map Transaction.data ⊆ strings)
    (hsub' : txs'.map Transaction.data ⊆ strings) (h : txs.map Transaction.hash = txs'.map Transaction.hash) :
    txs = txs' := by
  have hdata : (txs.map Transaction.data).map digest = (txs'.map Transaction.data).map digest := by
    rw [List.map_map, List.map_map]
    exact h
  apply List.map_injective_iff.2 _ (eq_of_map_digest_eq hfree hsub hsub' hdata)
  intro tx tx' heq
  cases tx
  cases tx'
  exact congrArg _ heq

theorem mistaken_of_meets {txs txs' : List Transaction} (hne : txs ≠ []) (hsub : txs.map Transaction.data ⊆ strings)
    (hsub' : Transaction.hashedFor txs' ⊆ strings)
    (h : Merkle.Meets (txs.map Transaction.hash) (txs'.map Transaction.hash)) : txs = txs' ∨ Mistaken txs txs' := by
  obtain ⟨hdata', hjoined'⟩ := List.append_subset.1 hsub'
  rcases h with hmem | ⟨l, hl, hlong, l', hl', hpads⟩
  · by_cases heq : txs.map Transaction.hash = txs'.map Transaction.hash
    · exact Or.inl (transactions_eq_of_hashes hfree hsub hdata' heq)
    · obtain ⟨below, -, -, hup, hpairs⟩ := Merkle.of_mem_levels hmem heq
      refine Or.inr (.nodes hne hmem fun tx htx => ?_)
      have hhash : tx.hash ∈ (Merkle.pairs below).map digest := by
        rw [← Merkle.pairUp_eq, hup]
        exact List.mem_map_of_mem htx
      obtain ⟨node, hnode, heq⟩ := List.mem_map.1 hhash
      have hsame : tx.data = node :=
        eq_of_digest_eq hfree (hsub (List.mem_map_of_mem htx)) (hjoined' (hpairs hnode)) heq.symm
      exact hsame ▸ hpairs hnode
  · exact Or.inr (.padded l l' hl hlong hl' hpads)

/-- A Merkle root leaves open which of the lists that can pass for one another it is the root of, and nothing
more. -/
theorem merkleRoot_eq_iff {txs txs' : List Transaction} (hsub : Transaction.hashedFor txs ⊆ strings)
    (hsub' : Transaction.hashedFor txs' ⊆ strings) : Block.merkleRoot txs = Block.merkleRoot txs' ↔
      txs = txs' ∨ Mistaken txs txs' ∨ Mistaken txs' txs := by
  obtain ⟨hdata, hjoined⟩ := List.append_subset.1 hsub
  obtain ⟨hdata', hjoined'⟩ := List.append_subset.1 hsub'
  constructor
  · intro h
    have hempty : Block.merkleRoot [] = Hash.zero := by rw [Block.merkleRoot, List.map_nil, Merkle.root]
    by_cases hne : txs = []
    · subst hne
      exact Or.inr (Or.inl (.none rfl (h.symm.trans hempty)))
    by_cases hne' : txs' = []
    · subst hne'
      exact Or.inr (Or.inr (.none rfl (h.trans hempty)))
    rcases Merkle.meets_of_root_eq hfree (by simpa using hne) (by simpa using hne') hjoined hjoined' h with hm | hm
    · exact (mistaken_of_meets hfree hne hdata hsub' hm).imp_right Or.inl
    · exact (mistaken_of_meets hfree hne' hdata' hsub hm).imp Eq.symm Or.inr
  · rintro (rfl | h | h)
    · rfl
    · exact h.merkleRoot_eq
    · exact h.merkleRoot_eq.symm

end

/-! ## Blocks of one header -/

theorem Header.merkleRoot_of_encodeUnsigned (h : Header) :
    (h.encodeUnsigned.drop 36).take 32 = h.merkleRoot.bytes := by
  have hfront : (Bytes.ofNatLE 4 h.version.toNat ++ h.prevHash.bytes).length = 36 := by
    simp [h.prevHash.length_bytes]
  unfold encodeUnsigned
  simp only [List.append_assoc]
  rw [← List.append_assoc, List.drop_left' hfront, List.take_left' h.merkleRoot.length_bytes]

section
variable [Digest]

def Block.hashed (b : Block) : List Bytes :=
  b.header.encodeUnsigned :: Transaction.hashedFor b.transactions

theorem merkleRoot_eq_of_hash_eq {b b' : Block} (hfree : ¬Collide (b.hashed ++ b'.hashed)) (h : b.hash = b'.hash) :
    b.header.merkleRoot = b'.header.merkleRoot := by
  have hunsigned : b.header.encodeUnsigned = b'.header.encodeUnsigned :=
    eq_of_digest_eq hfree (by simp [Block.hashed]) (by simp [Block.hashed]) h
  have hbytes : b.header.merkleRoot.bytes = b'.header.merkleRoot.bytes := by
    rw [← Header.merkleRoot_of_encodeUnsigned, ← Header.merkleRoot_of_encodeUnsigned, hunsigned]
  cases hroot : b.header.merkleRoot
  cases hroot' : b'.header.merkleRoot
  simp_all

namespace Ledger

theorem Fits.hash_eq {l : Ledger} {b b' : Block} (h : l.Fits b) (h' : l.Fits b') : b.hash = b'.hash := by
  have hheader := h.header
  rw [h.height, ← h'.height, h'.header] at hheader
  exact (Option.some.inj hheader).symm

/-- Byte strings that a ledger accepts as its next block hold the same transactions, unless hashed byte strings
collide, or they hold unequally many and the one list can pass for the other. -/
theorem transactions_of_accepted {l l₁ l₂ : Ledger} {raw raw' : Bytes} {b b' : Block}
    (h : l.addBlock raw = .ok (l₁, b)) (h' : l.addBlock raw' = .ok (l₂, b')) :
    b.transactions = b'.transactions ∨ Collide (b.hashed ++ b'.hashed) ∨
      b.transactions.length ≠ b'.transactions.length ∧
        (Mistaken b.transactions b'.transactions ∨ Mistaken b'.transactions b.transactions) := by
  obtain ⟨-, hfits, -⟩ := addBlock_eq_ok_iff.1 h
  obtain ⟨-, hfits', -⟩ := addBlock_eq_ok_iff.1 h'
  by_cases hfree : Collide (b.hashed ++ b'.hashed)
  · exact Or.inr (Or.inl hfree)
  have hroot : Block.merkleRoot b.transactions = Block.merkleRoot b'.transactions := by
    rw [hfits.merkle, hfits'.merkle, merkleRoot_eq_of_hash_eq hfree (hfits.hash_eq hfits')]
  have hsub : Transaction.hashedFor b.transactions ⊆ b.hashed ++ b'.hashed := by simp [Block.hashed]
  have hsub' : Transaction.hashedFor b'.transactions ⊆ b.hashed ++ b'.hashed :=
    List.Subset.trans (List.subset_cons_self ..) (List.subset_append_right b.hashed b'.hashed)
  by_cases hlen : b.transactions.length = b'.transactions.length
  · have hhashes : b.transactions.map Transaction.hash = b'.transactions.map Transaction.hash := by
      apply Merkle.eq_of_root_eq hfree (by simpa using hlen) _ _ hroot
      · exact (List.append_subset.1 hsub).2
      · exact (List.append_subset.1 hsub').2
    apply Or.inl (transactions_eq_of_hashes hfree _ _ hhashes)
    · exact (List.append_subset.1 hsub).1
    · exact (List.append_subset.1 hsub').1
  · exact ((merkleRoot_eq_iff hfree hsub hsub').1 hroot).imp_right fun hm => Or.inr ⟨hlen, hm⟩

end Ledger

end

/-! ## The last transaction written twice -/

namespace Scripted

def oddTransactions : List Transaction :=
  [tx 1, tx 2, tx 3]

def evenTransactions : List Transaction :=
  [tx 1, tx 2, tx 3, tx 3]

def sharedHeader : Header :=
  { genesisBlock.header with
    prevHash := genesisBlock.hash
    merkleRoot := Block.merkleRoot oddTransactions
    index := 1 }

def oddBlock : Block :=
  ⟨sharedHeader, oddTransactions⟩

def evenBlock : Block :=
  ⟨sharedHeader, evenTransactions⟩

def headersAhead : Ledger :=
  (Ledger.ofGenesis genesisBlock).pushHeader sharedHeader

theorem mistaken_odd_even : Mistaken oddTransactions evenTransactions :=
  .padded _ _ (Merkle.self_mem_levels _) (by decide) (Merkle.self_mem_levels _) (.cons _ _ (.last _))

theorem addBlock_headersAhead {txs : List Transaction} (hlimits : Block.WithinLimits ⟨sharedHeader, txs⟩)
    (hroot : Block.merkleRoot txs = Block.merkleRoot oddTransactions) :
    ∃ l, headersAhead.addBlock (Codec.encode (Block.mk sharedHeader txs)) = .ok (l, ⟨sharedHeader, txs⟩) :=
  ⟨_, Ledger.addBlock_eq_ok_iff.2 ⟨hlimits.faithful.ofBytes_encode, ⟨rfl, rfl, hroot⟩, rfl⟩⟩

theorem addBlock_odd : ∃ l, headersAhead.addBlock (Codec.encode oddBlock) = .ok (l, oddBlock) :=
  addBlock_headersAhead (by decide) rfl

theorem addBlock_even : ∃ l, headersAhead.addBlock (Codec.encode evenBlock) = .ok (l, evenBlock) :=
  addBlock_headersAhead (by decide) mistaken_odd_even.merkleRoot_eq.symm

def hashedForBoth : List Bytes :=
  let a := (tx 1).hash
  let b := (tx 2).hash
  let c := (tx 3).hash
  [sharedHeader.encodeUnsigned, (tx 1).data, (tx 2).data, (tx 3).data, a.bytes ++ b.bytes, c.bytes ++ c.bytes,
    (Merkle.join a b).bytes ++ (Merkle.join c c).bytes]

theorem hashed_subset : oddBlock.hashed ++ evenBlock.hashed ⊆ hashedForBoth := by
  simp [Block.hashed, oddBlock, evenBlock, oddTransactions, evenTransactions, Transaction.hashedFor, hashedForBoth,
    Merkle.joined, Merkle.pairs, Merkle.pairUp]

theorem not_collide_odd_even : ¬Collide (oddBlock.hashed ++ evenBlock.hashed) :=
  not_collide_of_subset hashed_subset (by decide +kernel)

theorem transactions_odd_ne_even : oddBlock.transactions ≠ evenBlock.transactions := by
  decide

end Scripted

open Scripted

/-- The same header lets both blocks in, though nothing that was hashed collides. -/
theorem Ledger.last_transaction_repeated_accepted :
    (∃ l, headersAhead.addBlock (Codec.encode oddBlock) = .ok (l, oddBlock)) ∧
      (∃ l, headersAhead.addBlock (Codec.encode evenBlock) = .ok (l, evenBlock)) ∧
        oddBlock.transactions ≠ evenBlock.transactions ∧ ¬Collide (oddBlock.hashed ++ evenBlock.hashed) :=
  ⟨addBlock_odd, addBlock_even, transactions_odd_ne_even, not_collide_odd_even⟩

theorem Ledger.transactions_of_accepted_odd_even :
    ∃ l₁ l₂, headersAhead.addBlock (Codec.encode oddBlock) = .ok (l₁, oddBlock) ∧
      headersAhead.addBlock (Codec.encode evenBlock) = .ok (l₂, evenBlock) ∧
        oddBlock.transactions.length ≠ evenBlock.transactions.length ∧
          (Mistaken oddBlock.transactions evenBlock.transactions ∨
            Mistaken evenBlock.transactions oddBlock.transactions) := by
  obtain ⟨l₁, hodd⟩ := addBlock_odd
  obtain ⟨l₂, heven⟩ := addBlock_even
  refine ⟨l₁, l₂, hodd, heven, ?_⟩
  rcases Ledger.transactions_of_accepted hodd heven with heq | hcollide | hmistaken
  · exact absurd heq transactions_odd_ne_even
  · exact absurd hcollide not_collide_odd_even
  · exact hmistaken

end ChainSync
