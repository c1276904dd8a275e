import ChainSync.Proofs.Parts

/-!
# How a message can be spelled

A payload is a row of parts: those of the values it carries, one behind the
other. It differs from the payload that the encoder writes in two ways only:
a count may be a var-int of more bytes than it needs, and the relay flag of a
version any byte.
-/

namespace ChainSync

open Decoder (Takes takes_pure takes_refuse)

/-! ## Parts of values -/

class Layout (α : Type) [Codec α] where
  parts : α → List Part
  written_parts : ∀ x, (parts x).flatMap Part.written = Codec.encode x
  takes : (Codec.decode : Decoder α).Takes [] parts

namespace VarList

variable {α : Type} [Codec α] [Layout α]

def parts (xs : List α) : List Part :=
  .count xs.length.toUInt64 :: xs.flatMap Layout.parts

theorem written_parts (xs : List α) : (parts xs).flatMap Part.written = encode xs := by
  have hitem : (fun x : α => (Layout.parts x).flatMap Part.written) = Codec.encode := funext Layout.written_parts
  rw [parts, List.flatMap_cons, List.flatMap_assoc, hitem]
  rfl

theorem takes (max : Nat) : (decode max : Decoder (List α)).Takes [] parts := by
  apply (VarInt.takes_length max).bind
  intro n
  have hitem : (Codec.decode : Decoder α).Yields fun _ => True := fun _ _ _ _ => trivial
  have hlength := Decoder.yields_repeatN hitem n [] (by simp)
  apply (Decoder.takes_repeatN Layout.takes n []).imp hlength
  intro xs hxs
  simp [parts, hxs.1]

end VarList

instance : Layout Hash where
  parts h := [.plain h.bytes]
  written_parts h := by simp [Part.written, Codec.encode]
  takes := (Decoder.takes_need 32 "hash").bind fun _ => (Decoder.takes_fixed 32).imp (P := fun _ => True)
    (fun _ _ _ _ => trivial) fun _ _ => rfl

theorem Hash.parts_eq (h : Hash) : Layout.parts h = [.plain h.bytes] := rfl

instance : Layout Witness where
  parts w := VarBytes.parts w.invocation ++ VarBytes.parts w.verification
  written_parts w := by simp [VarBytes.written_parts, Codec.encode]
  takes := VarBytes.takes.bind fun i => VarBytes.takes.bind fun v => takes_pure rfl

instance : Layout Header where
  parts h := [.plain (Bytes.ofNatLE 4 h.version.toNat), .plain h.prevHash.bytes, .plain h.merkleRoot.bytes,
    .plain (Bytes.ofNatLE 4 h.timestamp.toNat), .plain (Bytes.ofNatLE 4 h.index.toNat),
    .plain (Bytes.ofNatLE 8 h.consensusData.toNat), .plain h.nextConsensus.bytes, .plain [1]] ++
    Layout.parts h.witness
  written_parts h := by
    simp [Layout.written_parts, Part.written, Codec.encode, Header.encodeUnsigned]
  takes := by
    refine (Decoder.takes_need Header.fixedSize "header").bind fun _ => ?_
    refine Decoder.takes_u32.bind fun version => ?_
    refine Layout.takes.bind fun prevHash => ?_
    refine Layout.takes.bind fun merkleRoot => ?_
    refine Decoder.takes_u32.bind fun timestamp => ?_
    refine Decoder.takes_u32.bind fun index => ?_
    refine Decoder.takes_u64.bind fun consensusData => ?_
    refine (Decoder.takes_fixed 20).bind fun nextConsensus => ?_
    refine (Decoder.takes_byte (fun b => .plain [b]) fun _ => rfl).bind fun marker => ?_
    dsimp only
    split
    · exact Decoder.takes_refuse_then _ _
    · rename_i hmarker
      obtain rfl : marker = 1 := Decidable.not_not.1 hmarker
      exact Layout.takes.bind fun _ => takes_pure (by simp [Hash.parts_eq])

instance : Layout Transaction where
  parts tx := VarBytes.parts tx.data
  written_parts tx := VarBytes.written_parts tx.data
  takes := VarBytes.takes.bind fun _ => takes_pure rfl

instance : Layout Block where
  parts b := Layout.parts b.header ++ VarList.parts b.transactions
  written_parts b := by simp [Layout.written_parts, VarList.written_parts, Codec.encode]
  takes := Layout.takes.bind fun _ => (VarList.takes _).bind fun _ => takes_pure rfl

instance : Layout Version where
  parts v := [.plain (Bytes.ofNatLE 4 v.version.toNat), .plain (Bytes.ofNatLE 8 v.services.toNat),
    .plain (Bytes.ofNatLE 4 v.timestamp.toNat), .plain (Bytes.ofNatLE 2 v.port.toNat),
    .plain (Bytes.ofNatLE 4 v.nonce.toNat)] ++ VarBytes.parts (Bytes.ofString v.userAgent) ++
    [.plain (Bytes.ofNatLE 4 v.startHeight.toNat), .flag v.relay]
  written_parts v := by simp [VarBytes.written_parts, Part.written, VarString.encode, Codec.encode]
  takes := by
    refine (Decoder.takes_need _ "version").bind fun _ => ?_
    refine Decoder.takes_u32.bind fun version => ?_
    refine Decoder.takes_u64.bind fun services => ?_
    refine Decoder.takes_u32.bind fun timestamp => ?_
    refine Decoder.takes_u16.bind fun port => ?_
    refine Decoder.takes_u32.bind fun nonce => ?_
    refine VarString.takes.bind fun userAgent => ?_
    refine (Decoder.takes_need 5 "version").bind fun _ => ?_
    refine Decoder.takes_u32.bind fun startHeight => ?_
    refine (Decoder.takes_byte (fun b => .flag (b != 0)) fun b => ⟨b, rfl, rfl⟩).bind fun relay => ?_
    exact takes_pure (by simp)

instance : Layout AddressEntry where
  parts e := [.plain (Bytes.ofNatLE 4 e.timestamp.toNat), .plain (Bytes.ofNatLE 8 e.services.toNat),
    .plain (AddressEntry.wireIp e.address.ip).bytes, .plain (Bytes.ofNatBE 2 e.address.port.toNat)]
  written_parts e := by simp [Part.written, Codec.encode]
  takes := by
    refine (Decoder.takes_need _ "network address").bind fun _ => ?_
    refine Decoder.takes_u32.bind fun timestamp => ?_
    refine Decoder.takes_u64.bind fun services => ?_
    refine (Decoder.takes_fixed 16).bind fun ip => ?_
    refine Decoder.takes_port.bind fun port => ?_
    exact takes_pure (by simp [AddressEntry.wireIp_ofIp, AddressEntry.port_ofIp])

instance : Layout Inventory where
  parts i := .plain [i.kind.toByte] :: VarList.parts i.hashes
  written_parts i := by
    rw [List.flatMap_cons, VarList.written_parts]
    rfl
  takes := by
    refine (Decoder.takes_need 1 "inv").bind fun _ => ?_
    refine (Decoder.takes_byte (fun b => .plain [b]) fun _ => rfl).bind fun b => ?_
    cases hkind : InventoryKind.ofByte? b with
    | none => exact takes_refuse _
    | some kind =>
      refine (VarList.takes _).bind fun hashes => takes_pure ?_
      simp [InventoryKind.toByte_of_ofByte? hkind]

instance : Layout Locator where
  parts l := VarList.parts l.start ++ Layout.parts l.stop
  written_parts l := by simp [Layout.written_parts, VarList.written_parts, Codec.encode]
  takes := (VarList.takes _).bind fun _ => Layout.takes.bind fun _ => takes_pure rfl

instance : Layout HeaderEntry where
  parts e := Layout.parts e.header ++ [.plain [0]]
  written_parts e := by simp [Layout.written_parts, Part.written, Codec.encode]
  takes := by
    refine Layout.takes.bind fun header => ?_
    refine (Decoder.takes_need 1 "header entry").bind fun _ => ?_
    refine (Decoder.takes_byte (fun b => .plain [b]) fun _ => rfl).bind fun count => ?_
    dsimp only
    split
    · exact Decoder.takes_refuse_then _ _
    · rename_i hcount
      obtain rfl : count = 0 := Decidable.not_not.1 hcount
      exact takes_pure (by simp)

/-! ## Messages -/

theorem Command.name_ofName (s : String) : (ofName s).name = s := by
  by_cases hknown : s ∈ known.map name
  · obtain ⟨c, hc, rfl⟩ := List.mem_map.1 hknown
    rw [ofName_name hc]
  · rw [ofName_of_unknown hknown]
    rfl

namespace Message

def parts : Message → List Part
  | version v => Layout.parts v
  | verack | getaddr => []
  | addr entries => VarList.parts entries
  | inv inventory | getdata inventory => Layout.parts inventory
  | getheaders locator | getblocks locator => Layout.parts locator
  | headers hs => VarList.parts (hs.map HeaderEntry.mk)
  | block b => Layout.parts b
  | tx t => Layout.parts t
  | unknown _ payload => [.plain payload]

theorem written_parts (m : Message) : m.parts.flatMap Part.written = m.payload := by
  cases m with
  | version | inv | getdata | getheaders | getblocks | block | tx => exact Layout.written_parts _
  | addr | headers => exact VarList.written_parts _
  | verack | getaddr => rfl
  | unknown command payload => exact List.append_nil payload

theorem payload_of_empty {payload : Bytes} {what : String} {m m' : Message}
    (h : (do empty payload what; return m' : Except Stop Message) = .ok m) : payload = [] := by
  unfold empty at h
  split at h
  · exact List.isEmpty_iff.1 ‹_›
  · cases h

theorem spells_of_decode {p : Packet} {m : Message} (h : decode p = .ok m) :
    m.command = Command.ofName p.command ∧ Spells m.parts p.payload := by
  unfold decode at h
  cases hc : Command.ofName p.command <;> rw [hc] at h
  case version =>
    obtain ⟨v, hv, rfl⟩ := of_map_eq_ok h
    exact ⟨rfl, Layout.takes.of_whole hv⟩
  case verack =>
    obtain rfl := of_empty_eq_ok h
    exact ⟨rfl, payload_of_empty h ▸ .nil⟩
  case getaddr =>
    obtain rfl := of_empty_eq_ok h
    exact ⟨rfl, payload_of_empty h ▸ .nil⟩
  case addr =>
    obtain ⟨entries, he, rfl⟩ := of_map_eq_ok h
    exact ⟨rfl, (VarList.takes _).of_whole he⟩
  case inv =>
    obtain ⟨inventory, hi, rfl⟩ := of_map_eq_ok h
    exact ⟨rfl, Layout.takes.of_whole hi⟩
  case getdata =>
    obtain ⟨inventory, hi, rfl⟩ := of_map_eq_ok h
    exact ⟨rfl, Layout.takes.of_whole hi⟩
  case getheaders =>
    obtain ⟨locator, hl, rfl⟩ := of_map_eq_ok h
    exact ⟨rfl, Layout.takes.of_whole hl⟩
  case getblocks =>
    obtain ⟨locator, hl, rfl⟩ := of_map_eq_ok h
    exact ⟨rfl, Layout.takes.of_whole hl⟩
  case headers =>
    obtain ⟨entries, he, rfl⟩ := of_map_eq_ok h
    -- each header travels in an entry, with nothing more in it
    have hspells := (VarList.takes _).of_whole he
    have hsame : (entries.map HeaderEntry.header).map HeaderEntry.mk = entries :=
      List.map_map.trans (List.map_id entries)
    exact ⟨rfl, by rwa [parts, hsame]⟩
  case block =>
    obtain ⟨b, hb, rfl⟩ := of_map_eq_ok h
    exact ⟨rfl, Layout.takes.of_whole hb⟩
  case tx =>
    obtain ⟨t, ht, rfl⟩ := of_map_eq_ok h
    exact ⟨rfl, Layout.takes.of_whole ht⟩
  case other name =>
    cases h
    exact ⟨rfl, .single rfl⟩

/-- Only the relay byte of a version is a flag. -/
theorem version_of_flag {m : Message} {b : Bool} (h : .flag b ∈ m.parts) : ∃ v, m = version v ∧ b = v.relay := by
  cases m with
  | version v =>
    refine ⟨v, rfl, ?_⟩
    simpa [parts, Layout.parts, VarBytes.parts] using h
  | _ => simp [parts, Layout.parts, VarBytes.parts, VarList.parts] at h

/-- What is decoded is written back under the same command, in no more bytes, and read again. A payload that is
not written back as it was spells a count by a var-int longer than it needs to be, or the relay flag of a version
by a byte other than zero and one. -/
theorem decode_canonical {p : Packet} {m : Message} (h : decode p = .ok m) :
    m.toPacket.command = p.command ∧ m.toPacket.payload.length ≤ p.payload.length ∧ decode m.toPacket = .ok m ∧
      (m.toPacket.payload ≠ p.payload →
        (∃ v form, SpelledAt m.parts p.payload (.count v) form ∧ (VarInt.encode v).length < form.length) ∨
          ∃ v c, m = version v ∧ SpelledAt m.parts p.payload (.flag v.relay) [c] ∧ c ≠ 0 ∧ c ≠ 1) := by
  obtain ⟨hcommand, hspells⟩ := spells_of_decode h
  refine ⟨?_, ?_, (withinLimits_of_decode h).decode_toPacket, fun hne => ?_⟩
  · exact (congrArg Command.name hcommand).trans (Command.name_ofName p.command)
  · show m.payload.length ≤ p.payload.length
    rw [← m.written_parts]
    exact hspells.length_le
  · have hwritten : p.payload ≠ m.parts.flatMap Part.written := by
      rw [m.written_parts]
      exact hne.symm
    obtain ⟨part, form, hat, hform⟩ := hspells.exists_redundant hwritten
    rcases hat.spelled.redundant hform with ⟨v, rfl, hlt⟩ | ⟨b, c, rfl, rfl, h0, h1⟩
    · exact Or.inl ⟨v, form, hat, hlt⟩
    · obtain ⟨v, rfl, rfl⟩ := version_of_flag hat.mem
      exact Or.inr ⟨v, c, rfl, hat, h0, h1⟩

/-- A transaction of one byte whose length takes three. -/
theorem decode_canonical_tx :
    let p : Packet := ⟨"tx", [0xFD, 1, 0, 0xAA]⟩
    let m := tx ⟨[0xAA]⟩
    decode p = .ok m ∧ m.toPacket.payload = [1, 0xAA] ∧ decode m.toPacket = .ok m ∧
      ∃ v form, SpelledAt m.parts p.payload (.count v) form ∧ (VarInt.encode v).length < form.length := by
  intro p m
  have hdecode : decode p = .ok m := rfl
  have hpayload : m.toPacket.payload = [1, 0xAA] := rfl
  obtain ⟨-, -, hagain, hredundant⟩ := decode_canonical hdecode
  refine ⟨hdecode, hpayload, hagain, ?_⟩
  rcases hredundant (by rw [hpayload]; decide) with hcount | ⟨v, c, hversion, -⟩
  · exact hcount
  · exact absurd (show tx ⟨[0xAA]⟩ = version v from hversion) (by simp)

end Message

end ChainSync
