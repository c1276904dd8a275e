import ChainSync.Proofs.Codec
import ChainSync.Wire.Message

/-!
# Messages that travel unchanged

A message is read back from its packet exactly if it keeps within the limits
of the wire. One way the readers of its parts compose; the other way no
reader ever hands out a value beyond the limits.
-/

namespace ChainSync

/-! ## Texts, ports and addresses -/

theorem Bytes.toString?_ofString (s : String) : (ofString s).toString? = some s := by
  unfold ofString toString? String.fromUTF8?
  rw [Array.toArray_toList]
  exact dif_pos s.isValidUTF8

theorem Bytes.ofString_of_toString? {bs : Bytes} {s : String} (h : bs.toString? = some s) : ofString s = bs := by
  unfold toString? String.fromUTF8? at h
  split at h <;> cases h
  rfl

theorem Bytes.toNatBE_ofNatBE {width n : Nat} (h : n < 256 ^ width) : toNatBE (ofNatBE width n) = n := by
  rw [toNatBE, ofNatBE, List.reverse_reverse, toNatLE_ofNatLE width n h]

theorem Ipv4.mapped?_toMapped (ip : Ipv4) : ip.toMapped.mapped? = some ip := by
  have hhead : (mappedHead ++ ip.bytes).take 12 = mappedHead := List.take_left' rfl
  have htail : (mappedHead ++ ip.bytes).drop 12 = ip.bytes := List.drop_left' rfl
  simp only [Ipv6.mapped?, toMapped, hhead, htail, if_true, FixedBytes.ofBytes?, ip.length_bytes, dif_pos]

def SocketAddress.IsPlain : SocketAddress → Prop
  | .v4 .. => True
  | .v6 ip _ flow scope => ip.mapped? = none ∧ flow = 0 ∧ scope = 0

instance (a : SocketAddress) : Decidable a.IsPlain :=
  match a with
  | .v4 .. => inferInstanceAs (Decidable True)
  | .v6 .. => inferInstanceAs (Decidable (_ ∧ _ ∧ _))

theorem SocketAddress.IsPlain.ofIp_ofWireIp {a : SocketAddress} (h : a.IsPlain) :
    SocketAddress.ofIp (AddressEntry.ofWireIp (AddressEntry.wireIp a.ip)) a.port = a := by
  cases a with
  | v4 ip port => simp [SocketAddress.ip, AddressEntry.wireIp, AddressEntry.ofWireIp, Ipv4.mapped?_toMapped, ofIp,
      SocketAddress.port]
  | v6 ip port flow scope =>
    obtain ⟨hmapped, rfl, rfl⟩ := h
    simp [SocketAddress.ip, AddressEntry.wireIp, AddressEntry.ofWireIp, hmapped, ofIp, SocketAddress.port]

theorem SocketAddress.isPlain_ofIp_ofWireIp (ip : Ipv6) (port : UInt16) :
    (SocketAddress.ofIp (AddressEntry.ofWireIp ip) port).IsPlain := by
  unfold AddressEntry.ofWireIp
  cases h : ip.mapped? with
  | none => exact ⟨h, rfl, rfl⟩
  | some v4 => trivial

/-! ## Commands -/

namespace Command

def known : List Command :=
  [version, verack, addr, getaddr, inv, getdata, getheaders, headers, getblocks, block, tx]

theorem ofName_name {c : Command} (h : c ∈ known) : ofName c.name = c := by
  revert c
  decide

theorem ofName_of_unknown {s : String} (h : s ∉ known.map name) : ofName s = other s := by
  simp only [known, List.map_cons, List.map_nil, List.mem_cons, List.not_mem_nil, or_false, not_or, name] at h
  obtain ⟨h1, h2, h3, h4, h5, h6, h7, h8, h9, h10, h11⟩ := h
  simp only [ofName, h1, h2, h3, h4, h5, h6, h7, h8, h9, h10, h11, if_false]

theorem of_ofName_eq_other {s n : String} (h : ofName s = other n) : s ∉ known.map name ∧ n = s := by
  have hs : s ∉ known.map name := by
    intro hmem
    obtain ⟨c, hc, rfl⟩ := List.mem_map.1 hmem
    rw [ofName_name hc] at h
    subst h
    revert hc
    simp [known]
  rw [ofName_of_unknown hs] at h
  cases h
  exact ⟨hs, rfl⟩

end Command

/-! ## The limits -/

def Message.WithinLimits : Message → Prop
  | version v => (Bytes.ofString v.userAgent).length ≤ maxVarLength
  | verack | getaddr => True
  | addr entries => entries.length ≤ maxAddresses ∧ ∀ e ∈ entries, e.address.IsPlain
  | inv inventory | getdata inventory => inventory.hashes.length ≤ maxInventory
  | getheaders locator | getblocks locator => locator.start.length ≤ maxLocator
  | headers hs => hs.length ≤ maxHeaders ∧ ∀ h ∈ hs, h.witness.WithinLimits
  | block b => b.WithinLimits
  | tx t => t.WithinLimits
  | unknown command _ => command ∉ Command.known.map Command.name

instance : (m : Message) → Decidable m.WithinLimits
  | .verack | .getaddr => inferInstanceAs (Decidable True)
  | .addr _ | .headers _ => inferInstanceAs (Decidable (_ ∧ _))
  | .version _ | .inv _ | .getdata _ | .getheaders _ | .getblocks _ => inferInstanceAs (Decidable (_ ≤ _))
  | .block b => inferInstanceAs (Decidable b.WithinLimits)
  | .tx t => inferInstanceAs (Decidable t.WithinLimits)
  | .unknown .. => inferInstanceAs (Decidable (_ ∉ _))

open Decoder (Reads)

/-! ## Within the limits, everything is read back -/

theorem Decoder.reads_u16 (v : UInt16) : Decoder.u16.Reads (Bytes.ofNatLE 2 v.toNat) v := by
  have h := (reads_natLE 2 v.toNat_lt).map Nat.toUInt16
  rwa [Nat.toUInt16, UInt16.ofNat_toNat] at h

theorem Decoder.reads_port (v : UInt16) : Decoder.port.Reads (Bytes.ofNatBE 2 v.toNat) v := by
  have h := (reads_bytes (Bytes.ofNatBE 2 v.toNat)).map fun bs => bs.toNatBE.toUInt16
  rwa [Bytes.length_ofNatBE, Bytes.toNatBE_ofNatBE v.toNat_lt, Nat.toUInt16, UInt16.ofNat_toNat] at h

theorem VarString.reads {s : String} (h : (Bytes.ofString s).length ≤ maxVarLength) :
    VarString.decode.Reads (VarString.encode s) s := by
  refine (VarBytes.reads h).last ?_
  rw [Bytes.toString?_ofString]
  exact Decoder.reads_pure s

theorem Version.faithful {v : Version} (h : (Bytes.ofString v.userAgent).length ≤ maxVarLength) :
    Codec.Faithful v := by
  have hbytes : Codec.encode v = Bytes.ofNatLE 4 v.version.toNat ++ (Bytes.ofNatLE 8 v.services.toNat ++
      (Bytes.ofNatLE 4 v.timestamp.toNat ++ (Bytes.ofNatLE 2 v.port.toNat ++ (Bytes.ofNatLE 4 v.nonce.toNat ++
        (VarString.encode v.userAgent ++ (Bytes.ofNatLE 4 v.startHeight.toNat ++ [if v.relay then 1 else 0])))))) := by
    simp only [Codec.encode, List.append_assoc]
  have hrelay : ((if v.relay then 1 else 0 : UInt8) != 0) = v.relay := by cases v.relay <;> rfl
  unfold Codec.Faithful
  rw [hbytes]
  refine Reads.need (n := 4 + 8 + 4 + 2 + 4) "version" (by simp; omega) ?_
  refine (Decoder.reads_u32 v.version).bind ((Decoder.reads_u64 v.services).bind ?_)
  refine (Decoder.reads_u32 v.timestamp).bind ((Decoder.reads_u16 v.port).bind ?_)
  refine (Decoder.reads_u32 v.nonce).bind ((VarString.reads h).bind ?_)
  refine Reads.need (n := 5) "version" (by simp) ((Decoder.reads_u32 v.startHeight).bind ?_)
  have hlast := (Decoder.reads_byte (if v.relay then 1 else 0)).map fun b =>
    Version.mk v.version v.services v.timestamp v.port v.nonce v.userAgent v.startHeight (b != 0)
  rwa [hrelay] at hlast

theorem AddressEntry.faithful {e : AddressEntry} (h : e.address.IsPlain) : Codec.Faithful e := by
  have hbytes : Codec.encode e = Bytes.ofNatLE 4 e.timestamp.toNat ++ (Bytes.ofNatLE 8 e.services.toNat ++
      ((wireIp e.address.ip).bytes ++ Bytes.ofNatBE 2 e.address.port.toNat)) := by
    simp only [Codec.encode, List.append_assoc]
  unfold Codec.Faithful
  rw [hbytes]
  refine Reads.need (n := 4 + 8 + 16 + 2) "network address" (by simp [FixedBytes.length_bytes]) ?_
  refine (Decoder.reads_u32 e.timestamp).bind ((Decoder.reads_u64 e.services).bind ?_)
  refine (Decoder.reads_fixed (wireIp e.address.ip)).bind ?_
  have hlast := (Decoder.reads_port e.address.port).map fun port =>
    AddressEntry.mk e.timestamp e.services (.ofIp (ofWireIp (wireIp e.address.ip)) port)
  rwa [h.ofIp_ofWireIp] at hlast

theorem InventoryKind.ofByte?_toByte (k : InventoryKind) : ofByte? k.toByte = some k := by
  cases k <;> rfl

theorem Inventory.faithful {i : Inventory} (h : i.hashes.length ≤ maxInventory) : Codec.Faithful i := by
  refine Reads.need (n := 1) "inv" (by simp [Codec.encode]) ?_
  refine (Decoder.reads_byte i.kind.toByte).bind ?_
  rw [InventoryKind.ofByte?_toByte]
  exact (VarList.reads h (by decide) fun x _ => Hash.faithful x).map (Inventory.mk i.kind)

theorem Locator.faithful {l : Locator} (h : l.start.length ≤ maxLocator) : Codec.Faithful l :=
  (VarList.reads h (by decide) fun x _ => Hash.faithful x).bind (l.stop.faithful.map (Locator.mk l.start))

theorem HeaderEntry.faithful {e : HeaderEntry} (h : e.header.witness.WithinLimits) : Codec.Faithful e := by
  refine (Header.faithful h).bind (Reads.need (n := 1) "header entry" (by simp) ?_)
  refine (Decoder.reads_byte 0).last ?_
  rw [if_neg (by decide)]
  exact Decoder.reads_pure e

namespace Message

theorem listOf_encode {α : Type} [Codec α] {xs : List α} {max : Nat} (hlen : xs.length ≤ max) (hmax : max < 2 ^ 64)
    (h : ∀ x ∈ xs, Codec.Faithful x) : listOf α max (VarList.encode xs) = .ok xs := by
  have hxs := VarList.reads hlen hmax h []
  rw [List.append_nil] at hxs
  unfold listOf StateT.run
  rw [hxs]
  rfl

theorem WithinLimits.ofName_command {m : Message} (h : m.WithinLimits) :
    Command.ofName m.command.name = m.command := by
  cases m with
  | unknown command payload => exact Command.ofName_of_unknown h
  | _ => exact Command.ofName_name (by simp [Command.known, command])

theorem WithinLimits.decode_toPacket {m : Message} (h : m.WithinLimits) : decode m.toPacket = .ok m := by
  have hname : Command.ofName m.toPacket.command = m.command := h.ofName_command
  unfold decode
  rw [hname]
  cases m with
  | version v => exact congrArg (version <$> ·) (Version.faithful h).ofBytes_encode
  | verack | getaddr | unknown => rfl
  | addr entries =>
    have hread := listOf_encode h.1 (by decide) fun e he => AddressEntry.faithful (h.2 e he)
    exact congrArg (addr <$> ·) hread
  | inv inventory => exact congrArg (inv <$> ·) (Inventory.faithful h).ofBytes_encode
  | getdata inventory => exact congrArg (getdata <$> ·) (Inventory.faithful h).ofBytes_encode
  | getheaders locator => exact congrArg (getheaders <$> ·) (Locator.faithful h).ofBytes_encode
  | getblocks locator => exact congrArg (getblocks <$> ·) (Locator.faithful h).ofBytes_encode
  | headers hs =>
    have hfaithful : ∀ e ∈ hs.map HeaderEntry.mk, Codec.Faithful e := by
      intro e he
      obtain ⟨x, hx, rfl⟩ := List.mem_map.1 he
      exact HeaderEntry.faithful (h.2 x hx)
    have hlen : (hs.map HeaderEntry.mk).length ≤ maxHeaders := by rw [List.length_map]; exact h.1
    have hread := listOf_encode hlen (by decide) hfaithful
    have hmap : (hs.map HeaderEntry.mk).map HeaderEntry.header = hs := List.map_map.trans (List.map_id hs)
    refine (congrArg ((fun es => headers (es.map HeaderEntry.header)) <$> ·) hread).trans ?_
    exact congrArg (fun es => Except.ok (headers es)) hmap
  | block b => exact congrArg (block <$> ·) (Block.WithinLimits.faithful h).ofBytes_encode
  | tx t => exact congrArg (tx <$> ·) (Transaction.WithinLimits.faithful h).ofBytes_encode

end Message

/-! ## Nothing beyond the limits is ever read -/

namespace Decoder

variable {α β : Type} {P : α → Prop} {Q : β → Prop}

def Yields (d : Decoder α) (P : α → Prop) : Prop :=
  ∀ bs x rest, d bs = .ok (x, rest) → P x

theorem Yields.bind {d : Decoder α} {f : α → Decoder β} (h : d.Yields P) (hf : ∀ a, P a → (f a).Yields Q) :
    (d >>= f).Yields Q := by
  intro bs y rest heq
  change (d bs >>= fun r => f r.1 r.2) = _ at heq
  cases hd : d bs with
  | error e => rw [hd] at heq; cases heq
  | ok r =>
    rw [hd] at heq
    exact hf r.1 (h bs r.1 r.2 hd) r.2 y rest heq

theorem Yields.imp {d : Decoder α} {P' : α → Prop} (h : d.Yields P) (hP : ∀ x, P x → P' x) : d.Yields P' :=
  fun bs x rest heq => hP x (h bs x rest heq)

theorem yields_then {d : Decoder α} {f : α → Decoder β} (hf : ∀ a, (f a).Yields Q) : (d >>= f).Yields Q :=
  Yields.bind (P := fun _ => True) (fun _ _ _ _ => trivial) fun a _ => hf a

theorem yields_pure {x : α} (h : P x) : (pure x : Decoder α).Yields P := by
  intro bs y rest heq
  cases heq
  exact h

theorem yields_refuse (cause : Malformed) : (refuse cause : Decoder α).Yields P := by
  intro bs y rest heq
  cases heq

theorem yields_bytes (n : Nat) : (bytes n).Yields fun bs => bs.length = n := by
  intro bs x rest heq
  unfold bytes at heq
  split at heq <;> cases heq
  rename_i hleft
  exact List.length_take_of_le ((Bytes.hasAtLeast_iff _ _).1 hleft)

theorem yields_repeatN {item : Decoder α} (h : item.Yields P) : ∀ (n : Nat) (acc : List α), (∀ x ∈ acc, P x) →
    (repeatN item n acc).Yields fun xs => xs.length = acc.length + n ∧ ∀ x ∈ xs, P x
  | 0, acc, hacc => yields_pure (by simpa using hacc)
  | n + 1, acc, hacc => by
    refine h.bind fun x hx => ?_
    refine (yields_repeatN h n (x :: acc) (by simpa using ⟨hx, hacc⟩)).imp fun xs hxs => ⟨?_, hxs.2⟩
    rw [hxs.1, List.length_cons]
    omega

end Decoder

open Decoder (Yields yields_then yields_pure yields_refuse)

theorem VarInt.yields_length (max : Nat) : (VarInt.decodeLength max).Yields (· ≤ max) := by
  refine yields_then fun v => ?_
  dsimp only
  split
  · exact (yields_refuse (P := fun _ => False) _).bind fun _ h => h.elim
  · rename_i hv
    exact yields_pure (Nat.not_lt.1 hv)

theorem VarBytes.yields : VarBytes.decode.Yields (·.length ≤ maxVarLength) :=
  (VarInt.yields_length _).bind fun n hn =>
    yields_then fun _ => (Decoder.yields_bytes n).imp fun bs hbs => by rwa [hbs]

theorem VarString.yields : VarString.decode.Yields fun s => (Bytes.ofString s).length ≤ maxVarLength := by
  refine VarBytes.yields.bind fun raw hraw => ?_
  cases h : raw.toString? with
  | none => exact yields_refuse _
  | some s => exact yields_pure (by rwa [Bytes.ofString_of_toString? h])

theorem VarList.yields {α : Type} [Codec α] {P : α → Prop} (h : (Codec.decode : Decoder α).Yields P) (max : Nat) :
    (VarList.decode max : Decoder (List α)).Yields fun xs => xs.length ≤ max ∧ ∀ x ∈ xs, P x :=
  (VarInt.yields_length max).bind fun n hn =>
    (Decoder.yields_repeatN h n [] (by simp)).imp fun xs hxs => ⟨by simpa [hxs.1] using hn, hxs.2⟩

theorem Witness.yields : (Codec.decode : Decoder Witness).Yields Witness.WithinLimits :=
  VarBytes.yields.bind fun _ hi => VarBytes.yields.bind fun _ hv => yields_pure ⟨hi, hv⟩

theorem Header.yields : (Codec.decode : Decoder Header).Yields (·.witness.WithinLimits) := by
  iterate 8 refine yields_then fun _ => ?_
  refine yields_then fun marker => ?_
  dsimp only
  split
  · exact yields_then fun _ => Witness.yields.bind fun _ hw => yields_pure hw
  · exact Witness.yields.bind fun _ hw => yields_pure hw

theorem HeaderEntry.yields : (Codec.decode : Decoder HeaderEntry).Yields (·.header.witness.WithinLimits) := by
  refine Header.yields.bind fun h hw => yields_then fun _ => yields_then fun count => ?_
  dsimp only
  split
  · exact yields_then fun _ => yields_pure hw
  · exact yields_pure hw

theorem Transaction.yields : (Codec.decode : Decoder Transaction).Yields Transaction.WithinLimits :=
  VarBytes.yields.bind fun _ h => yields_pure h

theorem Block.yields : (Codec.decode : Decoder Block).Yields Block.WithinLimits :=
  Header.yields.bind fun _ hw => (VarList.yields Transaction.yields _).bind fun _ htxs =>
    yields_pure ⟨hw, htxs.1, htxs.2⟩

theorem Version.yields :
    (Codec.decode : Decoder Version).Yields fun v => (Bytes.ofString v.userAgent).length ≤ maxVarLength := by
  iterate 6 refine yields_then fun _ => ?_
  exact VarString.yields.bind fun _ h => yields_then fun _ => yields_then fun _ => yields_then fun _ => yields_pure h

theorem AddressEntry.yields : (Codec.decode : Decoder AddressEntry).Yields (·.address.IsPlain) := by
  iterate 4 refine yields_then fun _ => ?_
  exact yields_then fun _ => yields_pure (SocketAddress.isPlain_ofIp_ofWireIp _ _)

theorem Inventory.yields : (Codec.decode : Decoder Inventory).Yields (·.hashes.length ≤ maxInventory) := by
  refine yields_then fun _ => yields_then fun b => ?_
  cases InventoryKind.ofByte? b with
  | none => exact yields_refuse _
  | some kind => exact (VarList.yields (P := fun _ => True) (fun _ _ _ _ => trivial) _).bind fun _ h => yields_pure h.1

theorem Locator.yields : (Codec.decode : Decoder Locator).Yields (·.start.length ≤ maxLocator) :=
  (VarList.yields (P := fun _ => True) (fun _ _ _ _ => trivial) _).bind fun _ h =>
    yields_then fun _ => yields_pure h.1

theorem Decoder.eq_of_whole {α : Type} {d : Decoder α} {bs : Bytes} {x : α}
    (h : (do let (x, rest) ← d.run bs; let _ ← Decoder.finish.run rest; return x : Except Stop α) = .ok x) :
    d bs = .ok (x, []) := by
  unfold StateT.run at h
  cases hr : d bs with
  | error e => rw [hr] at h; cases h
  | ok r =>
    rw [hr] at h
    change (Decoder.finish r.2 >>= fun _ => pure r.1) = _ at h
    unfold Decoder.finish at h
    split at h
    · rename_i hempty
      cases h
      rw [← List.isEmpty_iff.1 hempty]
    · cases h

theorem Decoder.Yields.of_whole {α : Type} {d : Decoder α} {P : α → Prop} (hd : d.Yields P) {bs : Bytes} {x : α}
    (h : (do let (x, rest) ← d.run bs; let _ ← Decoder.finish.run rest; return x : Except Stop α) = .ok x) : P x :=
  hd bs x [] (eq_of_whole h)

namespace Message

theorem of_map_eq_ok {α : Type} {f : α → Message} {e : Except Stop α} {m : Message} (h : f <$> e = .ok m) :
    ∃ x, e = .ok x ∧ f x = m := by
  cases e with
  | error e => cases h
  | ok x => exact ⟨x, rfl, Except.ok.inj h⟩

theorem of_empty_eq_ok {payload : Bytes} {what : String} {m m' : Message}
    (h : (do empty payload what; return m' : Except Stop Message) = .ok m) : m' = m := by
  unfold empty at h
  split at h <;> cases h
  rfl

theorem withinLimits_of_decode {p : Packet} {m : Message} (h : decode p = .ok m) : m.WithinLimits := by
  unfold decode at h
  cases hc : Command.ofName p.command <;> rw [hc] at h
  case version =>
    obtain ⟨v, hv, rfl⟩ := of_map_eq_ok h
    exact Version.yields.of_whole hv
  case verack =>
    obtain rfl := of_empty_eq_ok h
    trivial
  case getaddr =>
    obtain rfl := of_empty_eq_ok h
    trivial
  case addr =>
    obtain ⟨entries, he, rfl⟩ := of_map_eq_ok h
    exact (VarList.yields AddressEntry.yields _).of_whole he
  case inv =>
    obtain ⟨inventory, hi, rfl⟩ := of_map_eq_ok h
    exact Inventory.yields.of_whole hi
  case getdata =>
    obtain ⟨inventory, hi, rfl⟩ := of_map_eq_ok h
    exact Inventory.yields.of_whole hi
  case getheaders =>
    obtain ⟨locator, hl, rfl⟩ := of_map_eq_ok h
    exact Locator.yields.of_whole hl
  case getblocks =>
    obtain ⟨locator, hl, rfl⟩ := of_map_eq_ok h
    exact Locator.yields.of_whole hl
  case headers =>
    obtain ⟨entries, he, rfl⟩ := of_map_eq_ok h
    obtain ⟨hlen, hall⟩ := (VarList.yields HeaderEntry.yields _).of_whole he
    refine ⟨by rwa [List.length_map], fun x hx => ?_⟩
    obtain ⟨entry, hentry, rfl⟩ := List.mem_map.1 hx
    exact hall entry hentry
  case block =>
    obtain ⟨b, hb, rfl⟩ := of_map_eq_ok h
    exact Block.yields.of_whole hb
  case tx =>
    obtain ⟨t, ht, rfl⟩ := of_map_eq_ok h
    exact Transaction.yields.of_whole ht
  case other name =>
    obtain ⟨hknown, rfl⟩ := Command.of_ofName_eq_other hc
    cases h
    exact hknown

/-! ## Exactly within the limits -/

theorem decode_toPacket_iff (m : Message) : decode m.toPacket = .ok m ↔ m.WithinLimits :=
  ⟨withinLimits_of_decode, WithinLimits.decode_toPacket⟩

-- A mapped address comes back as the IPv4 address that it stands for.
example : ¬(addr [⟨0, fullNode, .v6 (Ipv4.ofNat 0x7F000001).toMapped 10333 0 0⟩]).WithinLimits := by decide

end Message

end ChainSync
