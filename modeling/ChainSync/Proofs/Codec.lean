import ChainSync.Chain.Block
import Mathlib.Algebra.GroupWithZero.Nat

/-!
# Reading back what was written

A decoder reads a value from its own bytes if it takes exactly these off the
front of whatever it is given. Sequences of such reads compose, so the round
trip of a block is put together from those of its fields.
-/

namespace ChainSync

/-! ## Numbers -/

theorem Bytes.toNatLE_ofNatLE (width : Nat) : ∀ n, n < 256 ^ width → toNatLE (ofNatLE width n) = n := by
  induction width with
  | zero => intro n hn; simp [ofNatLE, toNatLE]; omega
  | succ width ih =>
    intro n hn
    have hrest : n / 256 < 256 ^ width := by rw [Nat.div_lt_iff_lt_mul (by decide)]; rwa [Nat.pow_succ] at hn
    simp only [ofNatLE, toNatLE, ih _ hrest, UInt8.toNat_ofNat', Nat.reducePow]
    omega

namespace Decoder

variable {α β : Type}

/-- Whatever comes behind them, these bytes are read as this value. -/
def Reads (d : Decoder α) (bs : Bytes) (x : α) : Prop :=
  ∀ rest, d (bs ++ rest) = .ok (x, rest)

section
variable {d : Decoder α} {bs cs : Bytes} {x : α} {y : β}

theorem Reads.bind {f : α → Decoder β} (h : d.Reads bs x) (hf : (f x).Reads cs y) :
    (d >>= f).Reads (bs ++ cs) y := by
  intro rest
  rw [List.append_assoc]
  show (d (bs ++ (cs ++ rest)) >>= fun r => f r.1 r.2) = _
  rw [h (cs ++ rest)]
  exact hf rest

theorem reads_pure (x : α) : (pure x : Decoder α).Reads [] x :=
  fun _ => rfl

theorem Reads.last {f : α → Decoder β} (h : d.Reads bs x) (hf : (f x).Reads [] y) : (d >>= f).Reads bs y := by
  have := h.bind hf
  rwa [List.append_nil] at this

theorem Reads.map (f : α → β) (h : d.Reads bs x) : (d >>= fun a => pure (f a)).Reads bs (f x) :=
  h.last (reads_pure (f x))

theorem Reads.need {n : Nat} (what : String) (hn : n ≤ bs.length) (h : d.Reads bs x) :
    (Decoder.need n what >>= fun _ => d).Reads bs x := by
  intro rest
  have hleft : (bs ++ rest).hasAtLeast n = true := by
    rw [Bytes.hasAtLeast_iff, List.length_append]
    omega
  show (Decoder.need n what (bs ++ rest) >>= fun r => d r.2) = _
  rw [Decoder.need, if_pos hleft]
  exact h rest

end

theorem reads_bytes (bs : Bytes) : (Decoder.bytes bs.length).Reads bs bs := by
  intro rest
  rw [Decoder.bytes, if_pos ((Bytes.hasAtLeast_iff _ _).2 (by simp)), List.take_left, List.drop_left]

theorem reads_byte (b : UInt8) : Decoder.byte.Reads [b] b :=
  fun _ => rfl

theorem reads_fixed {n : Nat} (x : FixedBytes n) : (Decoder.fixed n).Reads x.bytes x := by
  intro rest
  obtain ⟨bs, rfl⟩ := x
  have htake : (bs ++ rest).take bs.length = bs := List.take_left
  simp [Decoder.fixed, htake]

theorem reads_natLE (width : Nat) {n : Nat} (hn : n < 256 ^ width) :
    (Decoder.natLE width).Reads (Bytes.ofNatLE width n) n := by
  have h := (reads_bytes (Bytes.ofNatLE width n)).map Bytes.toNatLE
  rwa [Bytes.length_ofNatLE, Bytes.toNatLE_ofNatLE width n hn] at h

theorem reads_u32 (v : UInt32) : Decoder.u32.Reads (Bytes.ofNatLE 4 v.toNat) v := by
  have h := (reads_natLE 4 v.toNat_lt).map Nat.toUInt32
  rwa [Nat.toUInt32, UInt32.ofNat_toNat] at h

theorem reads_u64 (v : UInt64) : Decoder.u64.Reads (Bytes.ofNatLE 8 v.toNat) v := by
  have h := (reads_natLE 8 v.toNat_lt).map Nat.toUInt64
  rwa [Nat.toUInt64, UInt64.ofNat_toNat] at h

theorem reads_repeatN {item : Decoder α} {write : α → Bytes} : ∀ {xs : List α} (acc : List α),
    (∀ x ∈ xs, item.Reads (write x) x) → (repeatN item xs.length acc).Reads (xs.flatMap write) (acc.reverse ++ xs)
  | [], acc, _ => fun rest => by simp [repeatN]; rfl
  | x :: xs, acc, h => by
    have hrest := reads_repeatN (x :: acc) fun y hy => h y (List.mem_cons_of_mem _ hy)
    rw [List.reverse_cons, List.append_assoc, List.singleton_append] at hrest
    exact (h x (List.mem_cons_self ..)).bind hrest

end Decoder

open Decoder (Reads)

/-! ## Variable lengths -/

namespace VarInt

theorem reads_marked {v : UInt64} {marker : UInt8} {width : Nat} (hmarker : payloadWidth? marker = some width)
    (hv : v.toNat < 256 ^ width) : VarInt.decode.Reads (marker :: Bytes.ofNatLE width v.toNat) v := by
  have hpayload := ((Decoder.reads_natLE width hv).map Nat.toUInt64).need (n := width) "var-int" (by simp)
  rw [Nat.toUInt64, UInt64.ofNat_toNat] at hpayload
  refine Reads.need (n := 1) "var-int" (by simp) ((Decoder.reads_byte marker).bind ?_)
  rw [hmarker]
  exact hpayload

theorem reads (v : UInt64) : VarInt.decode.Reads (VarInt.encode v) v := by
  have hv := v.toNat_lt
  unfold VarInt.encode
  by_cases h1 : v.toNat ≤ 0xFC
  · rw [if_pos h1]
    -- no marker, as those are above 0xFC
    have hbyte : (UInt8.ofNat v.toNat).toNat = v.toNat := by
      rw [UInt8.toNat_ofNat']
      omega
    have hmarker : payloadWidth? (UInt8.ofNat v.toNat) = none := by
      have hne : ∀ b : UInt8, 0xFC < b.toNat → UInt8.ofNat v.toNat ≠ b := by
        rintro b hb rfl
        omega
      rw [payloadWidth?, if_neg (hne _ (by decide)), if_neg (hne _ (by decide)), if_neg (hne _ (by decide))]
    refine Reads.need (n := 1) "var-int" (by simp) ((Decoder.reads_byte _).last ?_)
    have hvalue : (UInt8.ofNat v.toNat).toUInt64 = v := UInt64.toNat_inj.1 (by simpa using hbyte)
    rw [hmarker]
    dsimp only
    rw [hvalue]
    exact Decoder.reads_pure v
  · rw [if_neg h1]
    by_cases h2 : v.toNat ≤ 0xFFFF
    · rw [if_pos h2]
      exact reads_marked rfl (by omega)
    · rw [if_neg h2]
      by_cases h3 : v.toNat ≤ 0xFFFFFFFF
      · rw [if_pos h3]
        exact reads_marked rfl (by omega)
      · rw [if_neg h3]
        exact reads_marked rfl hv

theorem reads_length {n max : Nat} (hn : n ≤ max) (hmax : max < 2 ^ 64) :
    (VarInt.decodeLength max).Reads (VarInt.encode n.toUInt64) n := by
  have hvalue : n.toUInt64.toNat = n := by
    rw [Nat.toUInt64, UInt64.toNat_ofNat']
    omega
  refine (reads n.toUInt64).last ?_
  rw [hvalue]
  dsimp only
  rw [if_neg (Nat.not_lt.2 hn)]
  exact Decoder.reads_pure n

end VarInt

theorem VarBytes.reads {bs : Bytes} (h : bs.length ≤ maxVarLength) : VarBytes.decode.Reads (VarBytes.encode bs) bs :=
  (VarInt.reads_length h (by decide)).bind ((Decoder.reads_bytes bs).need "var-bytes" (Nat.le_refl _))

def Codec.Faithful {α : Type} [Codec α] (x : α) : Prop :=
  (Codec.decode : Decoder α).Reads (Codec.encode x) x

theorem VarList.reads {α : Type} [Codec α] {xs : List α} {max : Nat} (hlen : xs.length ≤ max) (hmax : max < 2 ^ 64)
    (h : ∀ x ∈ xs, Codec.Faithful x) : (VarList.decode max).Reads (VarList.encode xs) xs :=
  (VarInt.reads_length hlen hmax).bind (Decoder.reads_repeatN [] h)

namespace Codec

theorem Faithful.ofBytes_encode {α : Type} [Codec α] {x : α} (h : Faithful x) : ofBytes α (encode x) = .ok x := by
  have hx := h []
  rw [List.append_nil] at hx
  unfold ofBytes StateT.run
  rw [hx]
  rfl

end Codec

/-! ## Blocks -/

theorem Hash.faithful (h : Hash) : Codec.Faithful h :=
  (Decoder.reads_fixed h).need "hash" (Nat.le_of_eq h.length_bytes.symm)

def Witness.WithinLimits (w : Witness) : Prop :=
  w.invocation.length ≤ maxVarLength ∧ w.verification.length ≤ maxVarLength

instance (w : Witness) : Decidable w.WithinLimits :=
  inferInstanceAs (Decidable (_ ∧ _))

theorem Witness.WithinLimits.faithful {w : Witness} (h : w.WithinLimits) : Codec.Faithful w :=
  (VarBytes.reads h.1).bind ((VarBytes.reads h.2).map (Witness.mk w.invocation))

theorem Header.length_encodeUnsigned (h : Header) : h.encodeUnsigned.length = 104 := by
  simp [encodeUnsigned, h.prevHash.length_bytes, h.merkleRoot.length_bytes, h.nextConsensus.length_bytes]

theorem Header.faithful {h : Header} (hw : h.witness.WithinLimits) : Codec.Faithful h := by
  have hwritten : (Codec.encode h).length = 105 + (Codec.encode h.witness).length := by
    show (h.encodeUnsigned ++ [1] ++ Codec.encode h.witness).length = _
    rw [List.length_append, List.length_append, length_encodeUnsigned, List.length_singleton]
  refine Reads.need (n := Header.fixedSize) "header" (by rw [hwritten]; exact Nat.le_add_right _ _) ?_
  have hbytes : Codec.encode h = Bytes.ofNatLE 4 h.version.toNat ++ (Codec.encode h.prevHash ++
      (Codec.encode h.merkleRoot ++ (Bytes.ofNatLE 4 h.timestamp.toNat ++ (Bytes.ofNatLE 4 h.index.toNat ++
        (Bytes.ofNatLE 8 h.consensusData.toNat ++ (h.nextConsensus.bytes ++ ([1] ++ Codec.encode h.witness))))))) := by
    show h.encodeUnsigned ++ [1] ++ Codec.encode h.witness = _
    simp only [Header.encodeUnsigned, List.append_assoc]
    rfl
  rw [hbytes]
  refine (Decoder.reads_u32 h.version).bind (h.prevHash.faithful.bind (h.merkleRoot.faithful.bind ?_))
  refine (Decoder.reads_u32 h.timestamp).bind ((Decoder.reads_u32 h.index).bind ?_)
  refine (Decoder.reads_u64 h.consensusData).bind ((Decoder.reads_fixed h.nextConsensus).bind ?_)
  refine (Decoder.reads_byte 1).bind ?_
  rw [if_neg (by decide)]
  exact hw.faithful.map (Header.mk h.version h.prevHash h.merkleRoot h.timestamp h.index h.consensusData
    h.nextConsensus)

def Transaction.WithinLimits (tx : Transaction) : Prop :=
  tx.data.length ≤ maxVarLength

instance (tx : Transaction) : Decidable tx.WithinLimits :=
  inferInstanceAs (Decidable (_ ≤ _))

theorem Transaction.WithinLimits.faithful {tx : Transaction} (h : tx.WithinLimits) : Codec.Faithful tx :=
  (VarBytes.reads h).map Transaction.mk

structure Block.WithinLimits (b : Block) : Prop where
  witness : b.header.witness.WithinLimits
  count : b.transactions.length ≤ maxBlockTransactions
  transactions : ∀ tx ∈ b.transactions, tx.WithinLimits

theorem Block.withinLimits_iff {b : Block} : b.WithinLimits ↔ b.header.witness.WithinLimits ∧
    b.transactions.length ≤ maxBlockTransactions ∧ ∀ tx ∈ b.transactions, tx.WithinLimits :=
  ⟨fun h => ⟨h.witness, h.count, h.transactions⟩, fun h => ⟨h.1, h.2.1, h.2.2⟩⟩

instance (b : Block) : Decidable b.WithinLimits :=
  decidable_of_iff _ Block.withinLimits_iff.symm

theorem Block.WithinLimits.faithful {b : Block} (h : b.WithinLimits) : Codec.Faithful b :=
  (Header.faithful h.witness).bind
    ((VarList.reads h.count (by decide) fun tx htx => (h.transactions tx htx).faithful).map (Block.mk b.header))

end ChainSync
