import ChainSync.Wire.Error
import ChainSync.Wire.Message

/-!
# Guarded reads

A read of a fixed size runs over the end if too few bytes are left, so it has
to stand behind a guard. `Guarded` follows how many bytes the guards passed so
far vouch for: each read takes its own off that number, and a guard may raise
it. Decoders that vouch for nothing and rely on nothing compose to lists and
messages of any depth.
-/

namespace ChainSync

namespace Decoder

variable {α β : Type} {k m n : Nat}

/-- With `n` bytes or more to read, this decoder does not run over the end, and with the value it hands out it
leaves `m` bytes or more. -/
def Guarded (n m : Nat) (d : Decoder α) : Prop :=
  ∀ bs : Bytes, n ≤ bs.length → match d bs with
    | .ok (_, rest) => m ≤ rest.length
    | .error stop => stop ≠ .overrun

theorem Guarded.bind {d : Decoder α} {f : α → Decoder β} (h : d.Guarded n m) (hf : ∀ a, (f a).Guarded m k) :
    (d >>= f).Guarded n k := by
  intro bs hbs
  have hd := h bs hbs
  show match d bs >>= fun r => f r.1 r.2 with
    | .ok (_, rest) => k ≤ rest.length
    | .error stop => stop ≠ .overrun
  cases heq : d bs with
  | error stop =>
    rw [heq] at hd
    exact hd
  | ok r =>
    rw [heq] at hd
    exact hf r.1 r.2 hd

theorem guarded_pure (x : α) : (pure x : Decoder α).Guarded n n :=
  fun _ hbs => hbs

theorem guarded_refuse (cause : Malformed) : (refuse cause : Decoder α).Guarded n m := by
  intro bs _ heq
  cases heq

theorem Guarded.map {d : Decoder α} (f : α → β) (h : d.Guarded n m) :
    (d >>= fun a => pure (f a)).Guarded n m :=
  h.bind fun a => guarded_pure (f a)

/-- A guard vouches for its bytes, and takes back nothing. -/
theorem guarded_need (what : String) (h : m ≤ max n k) : (need n what).Guarded k m := by
  intro bs hbs
  unfold need
  by_cases hleft : bs.hasAtLeast n = true
  · rw [if_pos hleft]
    have := (Bytes.hasAtLeast_iff _ _).1 hleft
    show m ≤ bs.length
    omega
  · rw [if_neg hleft]
    exact Stop.noConfusion

theorem guarded_bytes (n : Nat) : (bytes n).Guarded (m + n) m := by
  intro bs hbs
  unfold bytes
  rw [if_pos ((Bytes.hasAtLeast_iff _ _).2 (by omega))]
  show m ≤ (bs.drop n).length
  rw [List.length_drop]
  omega

theorem guarded_byte : byte.Guarded (m + 1) m := by
  intro bs hbs
  cases bs with
  | nil => simp at hbs
  | cons b bs => exact Nat.le_of_succ_le_succ hbs

theorem guarded_fixed (n : Nat) : (fixed n).Guarded (m + n) m := by
  intro bs hbs
  have hlen : (bs.take n).length = n := List.length_take_of_le (by omega)
  unfold fixed
  rw [dif_pos hlen]
  show m ≤ (bs.drop n).length
  rw [List.length_drop]
  omega

theorem guarded_natLE (width : Nat) : (natLE width).Guarded (m + width) m :=
  (guarded_bytes width).map Bytes.toNatLE

theorem guarded_u16 : u16.Guarded (m + 2) m :=
  (guarded_natLE 2).map Nat.toUInt16

theorem guarded_u32 : u32.Guarded (m + 4) m :=
  (guarded_natLE 4).map Nat.toUInt32

theorem guarded_u64 : u64.Guarded (m + 8) m :=
  (guarded_natLE 8).map Nat.toUInt64

theorem guarded_port : port.Guarded (m + 2) m :=
  (guarded_bytes 2).map fun bs => bs.toNatBE.toUInt16

theorem guarded_repeatN {item : Decoder α} (h : item.Guarded 0 0) :
    ∀ (n : Nat) (acc : List α), (repeatN item n acc).Guarded 0 0
  | 0, acc => guarded_pure acc.reverse
  | n + 1, acc => h.bind fun x => guarded_repeatN h n (x :: acc)

/-- A decoder that has to fill its input ends in a value or in a refusal. -/
theorem Guarded.of_whole {d : Decoder α} (h : d.Guarded 0 0) (bs : Bytes) :
    (do let (x, rest) ← d.run bs; let _ ← finish.run rest; return x : Except Stop α) ≠ .error .overrun := by
  unfold StateT.run
  have hd := h bs (Nat.zero_le _)
  cases heq : d bs with
  | error stop =>
    rw [heq] at hd
    exact fun hover => hd (Except.error.inj hover)
  | ok r =>
    show (finish r.2 >>= fun _ => pure r.1) ≠ _
    unfold finish
    split
    all_goals exact fun hover => by cases hover

end Decoder

open Decoder (Guarded guarded_pure guarded_refuse guarded_need)

/-! ## Variable lengths -/

theorem VarInt.guarded : VarInt.decode.Guarded 0 0 := by
  refine (guarded_need (m := 1) "var-int" (by decide)).bind fun _ => ?_
  refine Decoder.guarded_byte.bind fun marker => ?_
  cases payloadWidth? marker with
  | none => exact guarded_pure _
  | some width =>
    refine (guarded_need (m := 0 + width) "var-int" (by omega)).bind fun _ => ?_
    exact (Decoder.guarded_natLE width).map Nat.toUInt64

theorem VarInt.guarded_length (max : Nat) : (VarInt.decodeLength max).Guarded 0 0 := by
  refine VarInt.guarded.bind fun v => ?_
  dsimp only
  split
  · exact (guarded_refuse _).bind fun _ => guarded_pure _
  · exact guarded_pure _

theorem VarBytes.guarded : VarBytes.decode.Guarded 0 0 := by
  refine (VarInt.guarded_length _).bind fun n => ?_
  exact (guarded_need (m := 0 + n) "var-bytes" (by omega)).bind fun _ => Decoder.guarded_bytes n

theorem VarString.guarded : VarString.decode.Guarded 0 0 := by
  refine VarBytes.guarded.bind fun raw => ?_
  cases raw.toString? with
  | none => exact guarded_refuse _
  | some s => exact guarded_pure s

theorem VarList.guarded {α : Type} [Codec α] (h : (Codec.decode : Decoder α).Guarded 0 0) (max : Nat) :
    (VarList.decode max : Decoder (List α)).Guarded 0 0 :=
  (VarInt.guarded_length max).bind fun n => Decoder.guarded_repeatN h n []

/-! ## Payloads -/

/-- A hash has a guard of its own, also where an outer one vouches for it. -/
theorem Hash.guarded (n : Nat) : (Codec.decode : Decoder Hash).Guarded n (n - 32) :=
  (guarded_need (m := n - 32 + 32) "hash" (by omega)).bind fun _ => Decoder.guarded_fixed 32

theorem Witness.guarded : (Codec.decode : Decoder Witness).Guarded 0 0 :=
  VarBytes.guarded.bind fun invocation => VarBytes.guarded.map (Witness.mk invocation)

theorem Header.guarded : (Codec.decode : Decoder Header).Guarded 0 0 := by
  refine (guarded_need (m := 105) "header" (by decide)).bind fun _ => ?_
  refine Decoder.guarded_u32.bind fun version => ?_
  refine (Hash.guarded _).bind fun prevHash => ?_
  refine (Hash.guarded _).bind fun merkleRoot => ?_
  refine Decoder.guarded_u32.bind fun timestamp => ?_
  refine Decoder.guarded_u32.bind fun index => ?_
  refine Decoder.guarded_u64.bind fun consensusData => ?_
  refine (Decoder.guarded_fixed 20).bind fun nextConsensus => ?_
  refine Decoder.guarded_byte.bind fun marker => ?_
  have hwitness := Witness.guarded.map (Header.mk version prevHash merkleRoot timestamp index consensusData nextConsensus)
  dsimp only
  split
  · exact (guarded_refuse _).bind fun _ => hwitness
  · exact hwitness

theorem Transaction.guarded : (Codec.decode : Decoder Transaction).Guarded 0 0 :=
  VarBytes.guarded.map Transaction.mk

theorem Block.guarded : (Codec.decode : Decoder Block).Guarded 0 0 :=
  Header.guarded.bind fun header => (VarList.guarded Transaction.guarded _).map (Block.mk header)

theorem HeaderEntry.guarded : (Codec.decode : Decoder HeaderEntry).Guarded 0 0 := by
  refine Header.guarded.bind fun header => ?_
  refine (guarded_need (m := 1) "header entry" (by decide)).bind fun _ => ?_
  refine Decoder.guarded_byte.bind fun count => ?_
  dsimp only
  split
  · exact (guarded_refuse _).bind fun _ => guarded_pure _
  · exact guarded_pure _

theorem Version.guarded : (Codec.decode : Decoder Version).Guarded 0 0 := by
  refine (guarded_need (m := 22) "version" (by decide)).bind fun _ => ?_
  refine Decoder.guarded_u32.bind fun version => ?_
  refine Decoder.guarded_u64.bind fun services => ?_
  refine Decoder.guarded_u32.bind fun timestamp => ?_
  refine Decoder.guarded_u16.bind fun port => ?_
  refine Decoder.guarded_u32.bind fun nonce => ?_
  -- what the first guard vouched for is used up, and the text vouches for its own bytes only
  refine VarString.guarded.bind fun userAgent => ?_
  refine (guarded_need (m := 5) "version" (by decide)).bind fun _ => ?_
  refine Decoder.guarded_u32.bind fun startHeight => ?_
  exact Decoder.guarded_byte.map fun relay =>
    Version.mk version services timestamp port nonce userAgent startHeight (relay != 0)

theorem AddressEntry.guarded : (Codec.decode : Decoder AddressEntry).Guarded 0 0 := by
  refine (guarded_need (m := 30) "network address" (by decide)).bind fun _ => ?_
  refine Decoder.guarded_u32.bind fun timestamp => ?_
  refine Decoder.guarded_u64.bind fun services => ?_
  refine (Decoder.guarded_fixed 16).bind fun ip => ?_
  exact Decoder.guarded_port.map fun port => AddressEntry.mk timestamp services (.ofIp (ofWireIp ip) port)

theorem Inventory.guarded : (Codec.decode : Decoder Inventory).Guarded 0 0 := by
  refine (guarded_need (m := 1) "inv" (by decide)).bind fun _ => ?_
  refine Decoder.guarded_byte.bind fun b => ?_
  cases InventoryKind.ofByte? b with
  | none => exact guarded_refuse _
  | some kind => exact (VarList.guarded (Hash.guarded 0) _).map (Inventory.mk kind)

theorem Locator.guarded : (Codec.decode : Decoder Locator).Guarded 0 0 :=
  (VarList.guarded (Hash.guarded 0) _).bind fun start => (Hash.guarded 0).map (Locator.mk start)

/-! ## Messages -/

namespace Message

theorem map_ne_overrun {α : Type} {e : Except Stop α} (f : α → Message) (h : e ≠ .error .overrun) :
    f <$> e ≠ .error .overrun := by
  cases e with
  | error stop => exact fun hover => h (congrArg Except.error (Except.error.inj hover))
  | ok x => exact fun hover => by cases hover

theorem empty_ne_overrun (payload : Bytes) (what : String) (m : Message) :
    (do empty payload what; return m : Except Stop Message) ≠ .error .overrun := by
  unfold empty
  split
  all_goals exact fun hover => by cases hover

theorem decode_ne_overrun (p : Packet) : decode p ≠ .error .overrun := by
  unfold decode
  cases Command.ofName p.command with
  | version => exact map_ne_overrun _ (Version.guarded.of_whole _)
  | verack | getaddr => exact empty_ne_overrun _ _ _
  | addr => exact map_ne_overrun _ ((VarList.guarded AddressEntry.guarded _).of_whole _)
  | inv | getdata => exact map_ne_overrun _ (Inventory.guarded.of_whole _)
  | getheaders | getblocks => exact map_ne_overrun _ (Locator.guarded.of_whole _)
  | headers => exact map_ne_overrun _ ((VarList.guarded HeaderEntry.guarded _).of_whole _)
  | block => exact map_ne_overrun _ (Block.guarded.of_whole _)
  | tx => exact map_ne_overrun _ (Transaction.guarded.of_whole _)
  | other command => exact fun hover => by cases hover

/-- Whatever a packet carries, no read runs over the end of its payload: it decodes to a message, or is refused as
invalid for a reason. -/
theorem decoded_or_refused (p : Packet) :
    (∃ m, decode p = .ok m) ∨
      ∃ cause, decode p = .error (.refused cause) ∧
        (decode p).mapError NetError.ofStop = .error (.invalidMessage cause) := by
  cases h : decode p with
  | ok m => exact Or.inl ⟨m, rfl⟩
  | error stop =>
    cases stop with
    | refused cause => exact Or.inr ⟨cause, rfl, rfl⟩
    | overrun => exact absurd h (decode_ne_overrun p)

end Message

end ChainSync
