import ChainSync.Proofs.Messages

/-!
# Parts of a payload

Most stretches of a payload can be spelled in one way only; a count can be a
var-int of more bytes than it needs, and a flag any byte. What a decoder takes
off the front spells the parts of the value that it hands out (`Takes`), and
rows of parts compose as decoders do.
-/

namespace ChainSync

/-! ## Numbers and addresses, the other way round -/

namespace Bytes

theorem toNatLE_lt : ∀ bs : Bytes, toNatLE bs < 256 ^ bs.length
  | [] => by simp [toNatLE]
  | b :: bs => by
    have hb := b.toNat_lt
    have hrest := toNatLE_lt bs
    rw [toNatLE, List.length_cons, Nat.pow_succ]
    omega

theorem ofNatLE_toNatLE : ∀ bs : Bytes, ofNatLE bs.length (toNatLE bs) = bs
  | [] => rfl
  | b :: bs => by
    have hb := b.toNat_lt
    have hlow : (b.toNat + 256 * toNatLE bs) % 256 = b.toNat := by omega
    have hhigh : (b.toNat + 256 * toNatLE bs) / 256 = toNatLE bs := by omega
    rw [toNatLE, List.length_cons, ofNatLE, hlow, hhigh, ofNatLE_toNatLE bs, UInt8.ofNat_toNat]

theorem ofNatBE_toNatBE (bs : Bytes) : ofNatBE bs.length (toNatBE bs) = bs := by
  rw [ofNatBE, toNatBE, ← List.length_reverse, ofNatLE_toNatLE, List.reverse_reverse]

theorem toNatBE_lt (bs : Bytes) : toNatBE bs < 256 ^ bs.length := by
  rw [toNatBE, ← List.length_reverse]
  exact toNatLE_lt bs.reverse

end Bytes

theorem AddressEntry.wireIp_ofWireIp (ip : Ipv6) : wireIp (ofWireIp ip) = ip := by
  unfold ofWireIp
  cases hmapped : ip.mapped? with
  | none => rfl
  | some v4 =>
    unfold Ipv6.mapped? FixedBytes.ofBytes? at hmapped
    by_cases hhead : ip.bytes.take 12 = Ipv4.mappedHead
    · rw [if_pos hhead] at hmapped
      split at hmapped
      · cases hmapped
        show Ipv4.toMapped _ = ip
        cases ip
        simp only [Ipv4.toMapped, FixedBytes.mk.injEq] at hhead ⊢
        rw [← hhead, List.take_append_drop]
      · cases hmapped
    · rw [if_neg hhead] at hmapped
      cases hmapped

theorem AddressEntry.wireIp_ofIp (ip : Ipv6) (port : UInt16) :
    wireIp (SocketAddress.ofIp (ofWireIp ip) port).ip = ip := by
  have hsame : (SocketAddress.ofIp (ofWireIp ip) port).ip = ofWireIp ip := by
    cases ofWireIp ip <;> rfl
  rw [hsame, wireIp_ofWireIp]

theorem AddressEntry.port_ofIp (ip : Ip) (port : UInt16) : (SocketAddress.ofIp ip port).port = port := by
  cases ip <;> rfl

theorem InventoryKind.toByte_of_ofByte? {b : UInt8} {k : InventoryKind} (h : ofByte? b = some k) : k.toByte = b := by
  unfold ofByte? at h
  split at h
  · cases h
    simp_all [toByte]
  · split at h
    · cases h
      simp_all [toByte]
    · split at h
      · cases h
        simp_all [toByte]
      · cases h

/-! ## Parts -/

inductive Part
  | plain (bs : Bytes)
  | count (v : UInt64)
  | flag (b : Bool)

namespace Part

def written : Part → Bytes
  | plain bs => bs
  | count v => VarInt.encode v
  | flag b => [if b then 1 else 0]

def Spelled : Part → Bytes → Prop
  | plain bs, form => form = bs
  | count v, form => VarInt.decode.Reads form v
  | flag b, form => ∃ c : UInt8, form = [c] ∧ (c != 0) = b

theorem spelled_written (p : Part) : p.Spelled p.written := by
  cases p with
  | plain bs => rfl
  | count v => exact VarInt.reads v
  | flag b => exact ⟨_, rfl, by cases b <;> rfl⟩

end Part

inductive Spells : List Part → Bytes → Prop
  | nil : Spells [] []
  | cons {p : Part} {ps : List Part} {form bs : Bytes} (h : p.Spelled form) (hs : Spells ps bs) :
      Spells (p :: ps) (form ++ bs)

theorem Spells.single {p : Part} {form : Bytes} (h : p.Spelled form) : Spells [p] form := by
  have := Spells.cons h .nil
  rwa [List.append_nil] at this

theorem Spells.eq_of_plain {bs form : Bytes} (h : Spells [.plain bs] form) : form = bs := by
  cases h with
  | cons h hs =>
    cases hs
    rw [List.append_nil]
    exact h

theorem Spells.append {ps qs : List Part} {xs ys : Bytes} (h : Spells ps xs) (h' : Spells qs ys) :
    Spells (ps ++ qs) (xs ++ ys) := by
  induction h with
  | nil => exact h'
  | cons hp _ ih =>
    rw [List.append_assoc]
    exact .cons hp ih

theorem spells_written : ∀ ps : List Part, Spells ps (ps.flatMap Part.written)
  | [] => .nil
  | p :: ps => .cons p.spelled_written (spells_written ps)

/-! ## Decoders that take spellings -/

namespace Decoder

variable {α β : Type}

/-- Behind parts that were `taken` before, whatever this decoder takes completes the parts of what it hands
out. -/
def Takes (d : Decoder α) (taken : List Part) (parts : α → List Part) : Prop :=
  ∀ bs x rest, d bs = .ok (x, rest) → ∃ more form, parts x = taken ++ more ∧ Spells more form ∧ bs = form ++ rest

section
variable {d : Decoder α} {taken : List Part} {ps : α → List Part} {parts : β → List Part}

theorem Takes.bind {f : α → Decoder β} (h : d.Takes [] ps) (hf : ∀ a, (f a).Takes (taken ++ ps a) parts) :
    (d >>= f).Takes taken parts := by
  intro bs y rest heq
  change (d bs >>= fun r => f r.1 r.2) = _ at heq
  cases hd : d bs with
  | error e => rw [hd] at heq; cases heq
  | ok r =>
    rw [hd] at heq
    obtain ⟨more, form, hmore, hform, rfl⟩ := h bs r.1 r.2 hd
    obtain ⟨more', form', hmore', hform', hrest⟩ := hf r.1 r.2 y rest heq
    refine ⟨ps r.1 ++ more', form ++ form', ?_, ?_, ?_⟩
    · rw [hmore', List.append_assoc]
    · rw [show ps r.1 = more from hmore]
      exact hform.append hform'
    · rw [hrest, List.append_assoc]

theorem Takes.imp {qs : α → List Part} {P : α → Prop} (h : d.Takes [] ps) (hd : d.Yields P)
    (hqs : ∀ x, P x → qs x = taken ++ ps x) : d.Takes taken qs := by
  intro bs x rest heq
  obtain ⟨more, form, hmore, hform, hbs⟩ := h bs x rest heq
  refine ⟨more, form, ?_, hform, hbs⟩
  rw [hqs x (hd bs x rest heq), hmore, List.nil_append]

theorem takes_pure {x : α} (h : ps x = taken) : (pure x : Decoder α).Takes taken ps := by
  intro bs y rest heq
  cases heq
  exact ⟨[], [], by rw [h, List.append_nil], .nil, rfl⟩

theorem takes_refuse (cause : Malformed) : (refuse cause : Decoder α).Takes taken ps := by
  intro bs y rest heq
  cases heq

theorem takes_refuse_then (cause : Malformed) (f : α → Decoder β) : (refuse cause >>= f).Takes taken parts := by
  intro bs y rest heq
  cases heq

theorem Takes.of_whole (h : d.Takes [] ps) {bs : Bytes} {x : α}
    (heq : (do let (x, rest) ← d.run bs; let _ ← finish.run rest; return x : Except Stop α) = .ok x) :
    Spells (ps x) bs := by
  obtain ⟨more, form, hmore, hform, hbs⟩ := h bs x [] (eq_of_whole heq)
  rw [List.append_nil] at hbs
  rw [hbs, hmore]
  exact hform

end

theorem takes_need (n : Nat) (what : String) : (need n what).Takes [] fun _ => [] := by
  intro bs x rest heq
  unfold need at heq
  split at heq <;> cases heq
  exact ⟨[], [], rfl, .nil, rfl⟩

theorem takes_bytes (n : Nat) : (bytes n).Takes [] fun bs => [.plain bs] := by
  intro bs x rest heq
  unfold bytes at heq
  split at heq <;> cases heq
  exact ⟨_, _, rfl, .single rfl, (List.take_append_drop n bs).symm⟩

theorem takes_byte (part : UInt8 → Part) (h : ∀ b, (part b).Spelled [b]) : byte.Takes [] fun b => [part b] := by
  intro bs b rest heq
  cases bs with
  | nil => cases heq
  | cons c bs =>
    cases heq
    exact ⟨_, _, rfl, .single (h b), rfl⟩

theorem takes_fixed (n : Nat) : (fixed n).Takes [] fun x => [.plain x.bytes] := by
  intro bs x rest heq
  unfold fixed at heq
  split at heq <;> cases heq
  exact ⟨_, _, rfl, .single rfl, (List.take_append_drop n bs).symm⟩

theorem takes_number {n : Nat} {f : Bytes → α} (write : α → Bytes) (h : ∀ bs : Bytes, bs.length = n → write (f bs) = bs) :
    (bytes n >>= fun bs => pure (f bs)).Takes [] fun x => [.plain (write x)] := by
  intro bs x rest heq
  change (bytes n bs >>= fun r => pure (f r.1, r.2)) = _ at heq
  unfold bytes at heq
  split at heq
  · rename_i hleft
    cases heq
    have hlen := List.length_take_of_le ((Bytes.hasAtLeast_iff _ _).1 hleft)
    exact ⟨_, bs.take n, rfl, .single (h _ hlen).symm, (List.take_append_drop n bs).symm⟩
  · cases heq

theorem takes_natLE {width : Nat} {f : Nat → α} (toNat : α → Nat) (h : ∀ n < 256 ^ width, toNat (f n) = n) :
    (natLE width >>= fun n => pure (f n)).Takes [] fun x => [.plain (Bytes.ofNatLE width (toNat x))] := by
  have hflat : (natLE width >>= fun n => pure (f n)) = bytes width >>= fun bs => pure (f bs.toNatLE) := by
    simp [natLE]
  rw [hflat]
  apply takes_number fun x => Bytes.ofNatLE width (toNat x)
  rintro bs rfl
  rw [h _ bs.toNatLE_lt, bs.ofNatLE_toNatLE]

theorem yields_natLE (width : Nat) : (natLE width).Yields (· < 256 ^ width) :=
  (yields_bytes width).bind fun bs hlen => yields_pure (hlen ▸ bs.toNatLE_lt)

theorem takes_u16 : u16.Takes [] fun v => [.plain (Bytes.ofNatLE 2 v.toNat)] :=
  takes_natLE UInt16.toNat fun _ hn => Nat.mod_eq_of_lt hn

theorem takes_u32 : u32.Takes [] fun v => [.plain (Bytes.ofNatLE 4 v.toNat)] :=
  takes_natLE UInt32.toNat fun _ hn => Nat.mod_eq_of_lt hn

theorem takes_u64 : u64.Takes [] fun v => [.plain (Bytes.ofNatLE 8 v.toNat)] :=
  takes_natLE UInt64.toNat fun _ hn => Nat.mod_eq_of_lt hn

theorem takes_port : port.Takes [] fun v => [.plain (Bytes.ofNatBE 2 v.toNat)] := by
  apply takes_number fun v : UInt16 => Bytes.ofNatBE 2 v.toNat
  intro bs hlen
  have hlt := bs.toNatBE_lt
  rw [hlen] at hlt
  have hvalue : bs.toNatBE.toUInt16.toNat = bs.toNatBE := Nat.mod_eq_of_lt hlt
  rw [hvalue, ← hlen, bs.ofNatBE_toNatBE]

theorem takes_repeatN {item : Decoder α} {ps : α → List Part} (h : item.Takes [] ps) : ∀ (n : Nat) (acc : List α),
    (repeatN item n acc).Takes (acc.reverse.flatMap ps) fun xs => xs.flatMap ps
  | 0, acc => takes_pure rfl
  | n + 1, acc => by
    apply h.bind
    intro x
    have hrest := takes_repeatN h n (x :: acc)
    rwa [List.reverse_cons, List.flatMap_append, List.flatMap_singleton] at hrest

end Decoder

open Decoder (Takes Yields yields_then yields_pure takes_pure takes_refuse)

/-! ## Variable lengths -/

namespace VarInt

theorem of_payloadWidth? {marker : UInt8} {width : Nat} (h : payloadWidth? marker = some width) :
    marker = 0xFD ∧ width = 2 ∨ marker = 0xFE ∧ width = 4 ∨ marker = 0xFF ∧ width = 8 := by
  unfold payloadWidth? at h
  split at h
  · cases h
    exact Or.inl ⟨‹_›, rfl⟩
  · split at h
    · cases h
      exact Or.inr (Or.inl ⟨‹_›, rfl⟩)
    · split at h
      · cases h
        exact Or.inr (Or.inr ⟨‹_›, rfl⟩)
      · cases h

theorem toNat_le_of_unmarked {marker : UInt8} (h : payloadWidth? marker = none) : marker.toNat ≤ 0xFC := by
  refine Nat.le_of_not_lt fun hlt => ?_
  have hmarker : marker.toNat = (0xFD : UInt8).toNat ∨ marker.toNat = (0xFE : UInt8).toNat ∨
      marker.toNat = (0xFF : UInt8).toNat := by
    have := marker.toNat_lt
    simp
    omega
  rcases hmarker with hm | hm | hm
  all_goals
    rw [UInt8.toNat_inj.1 hm] at h
    cases h

theorem decode_unmarked {marker : UInt8} (hmarker : payloadWidth? marker = none) (tail : Bytes) :
    VarInt.decode (marker :: tail) = .ok (marker.toUInt64, tail) := by
  simp only [VarInt.decode, bind, StateT.bind, Decoder.need, Bytes.hasAtLeast, Decoder.byte, Except.bind, hmarker,
    if_true]
  rfl

theorem decode_marked {marker : UInt8} {width : Nat} (hmarker : payloadWidth? marker = some width) (tail : Bytes) :
    VarInt.decode (marker :: tail) =
      (Decoder.need width "var-int" >>= fun _ => Decoder.natLE width >>= fun n => pure n.toUInt64) tail := by
  simp only [VarInt.decode, bind, StateT.bind, Decoder.need, Bytes.hasAtLeast, Decoder.byte, Except.bind, hmarker,
    if_true]

/-- What can be read as a var-int: a byte below the markers, or a marker and the number behind it. -/
theorem of_decode {bs rest : Bytes} {v : UInt64} (h : VarInt.decode bs = .ok (v, rest)) :
    ∃ form, bs = form ++ rest ∧ (v.toNat ≤ 0xFC ∧ form = [UInt8.ofNat v.toNat] ∨
      ∃ marker width, payloadWidth? marker = some width ∧ v.toNat < 256 ^ width ∧
        form = marker :: Bytes.ofNatLE width v.toNat) := by
  cases bs with
  | nil => cases h
  | cons marker tail =>
    cases hwidth : payloadWidth? marker with
    | none =>
      rw [decode_unmarked hwidth] at h
      cases h
      refine ⟨[marker], rfl, Or.inl ⟨toNat_le_of_unmarked hwidth, ?_⟩⟩
      simp
    | some width =>
      rw [decode_marked hwidth] at h
      -- no marker announces more than the value has room for
      have hle : 256 ^ width ≤ 2 ^ 64 := by
        rcases of_payloadWidth? hwidth with ⟨-, rfl⟩ | ⟨-, rfl⟩ | ⟨-, rfl⟩ <;> decide
      have hvalue : ∀ n < 256 ^ width, n.toUInt64.toNat = n := fun n hn => Nat.mod_eq_of_lt (Nat.lt_of_lt_of_le hn hle)
      have hyields := yields_then (d := Decoder.need width "var-int") fun _ => (Decoder.yields_natLE width).bind
        (f := fun n => pure n.toUInt64) (Q := fun v => v.toNat < 256 ^ width) fun n hn =>
          yields_pure ((hvalue n hn).symm ▸ hn)
      have htakes : Takes _ [] _ := (Decoder.takes_need width "var-int").bind fun _ =>
        Decoder.takes_natLE UInt64.toNat hvalue
      have hlt : v.toNat < 256 ^ width := hyields tail v rest h
      obtain ⟨more, form, hmore, hform, rfl⟩ := htakes tail v rest h
      obtain rfl : [Part.plain (Bytes.ofNatLE width v.toNat)] = more := hmore
      rw [hform.eq_of_plain]
      exact ⟨_, rfl, Or.inr ⟨marker, width, hwidth, hlt, rfl⟩⟩

theorem exists_form {bs rest : Bytes} {v : UInt64} (h : VarInt.decode bs = .ok (v, rest)) :
    ∃ form, bs = form ++ rest ∧ VarInt.decode.Reads form v ∧
      (form.length = 1 ∨ form.length = 3 ∨ form.length = 5 ∨ form.length = 9) := by
  obtain ⟨form, rfl, ⟨hsmall, rfl⟩ | ⟨marker, width, hmarker, hv, rfl⟩⟩ := of_decode h
  · have hwritten : VarInt.encode v = [UInt8.ofNat v.toNat] := by rw [VarInt.encode, if_pos hsmall]
    exact ⟨_, rfl, hwritten ▸ reads v, Or.inl rfl⟩
  · refine ⟨_, rfl, reads_marked hmarker hv, ?_⟩
    rcases of_payloadWidth? hmarker with ⟨-, rfl⟩ | ⟨-, rfl⟩ | ⟨-, rfl⟩
    all_goals simp

theorem takes : VarInt.decode.Takes [] fun v => [.count v] := by
  intro bs v rest heq
  obtain ⟨form, rfl, hreads, -⟩ := exists_form heq
  exact ⟨_, form, rfl, .single hreads, rfl⟩

theorem length_encode (v : UInt64) : (VarInt.encode v).length = width v := by
  unfold VarInt.encode width
  by_cases h1 : v.toNat ≤ 0xFC
  · simp [h1]
  · by_cases h2 : v.toNat ≤ 0xFFFF
    · simp [h1, h2]
    · by_cases h3 : v.toNat ≤ 0xFFFFFFFF
      · simp [h1, h2, h3]
      · simp [h1, h2, h3]

/-- A var-int is in its shortest form or in a longer one. -/
theorem eq_or_length_lt {v : UInt64} {form : Bytes} (h : VarInt.decode.Reads form v) :
    form = VarInt.encode v ∨ (VarInt.encode v).length < form.length := by
  obtain ⟨form', hform, hcases⟩ := of_decode (h [])
  obtain rfl : form = form' := by simpa using hform
  unfold VarInt.encode
  rcases hcases with ⟨hsmall, rfl⟩ | ⟨marker, width, hmarker, hv, rfl⟩
  · exact Or.inl (by rw [if_pos hsmall])
  · rcases of_payloadWidth? hmarker with ⟨rfl, rfl⟩ | ⟨rfl, rfl⟩ | ⟨rfl, rfl⟩
    · by_cases h1 : v.toNat ≤ 0xFC
      · simp [h1]
      · rw [if_neg h1, if_pos (by omega)]
        exact Or.inl rfl
    · by_cases h1 : v.toNat ≤ 0xFC
      · simp [h1]
      · by_cases h2 : v.toNat ≤ 0xFFFF
        · simp [h1, h2]
        · rw [if_neg h1, if_neg h2, if_pos (by omega)]
          exact Or.inl rfl
    · by_cases h1 : v.toNat ≤ 0xFC
      · simp [h1]
      · by_cases h2 : v.toNat ≤ 0xFFFF
        · simp [h1, h2]
        · by_cases h3 : v.toNat ≤ 0xFFFFFFFF
          · simp [h1, h2, h3]
          · rw [if_neg h1, if_neg h2, if_neg h3]
            exact Or.inl rfl

/-- A value is read back from what is written for it, whatever follows. Everything that is read as a value takes one,
three, five or nine bytes, no fewer than the written form, and as few only if it is that form. -/
theorem written_form_is_shortest :
    (∀ v rest, VarInt.decode (VarInt.encode v ++ rest) = .ok (v, rest) ∧ (VarInt.encode v).length = width v) ∧
      ∀ bs v rest, VarInt.decode bs = .ok (v, rest) → ∃ form, bs = form ++ rest ∧
        (form.length = 1 ∨ form.length = 3 ∨ form.length = 5 ∨ form.length = 9) ∧
          width v ≤ form.length ∧ (form.length = width v ↔ form = VarInt.encode v) := by
  refine ⟨fun v rest => ⟨reads v rest, length_encode v⟩, fun bs v rest h => ?_⟩
  obtain ⟨form, hbs, hreads, hlength⟩ := exists_form h
  refine ⟨form, hbs, hlength, ?_⟩
  rw [← length_encode]
  rcases eq_or_length_lt hreads with rfl | hlt
  · simp
  · have hne : form ≠ VarInt.encode v := by
      rintro rfl
      exact Nat.lt_irrefl _ hlt
    exact ⟨Nat.le_of_lt hlt, iff_of_false (Nat.ne_of_gt hlt) hne⟩

/-- One in three bytes, with a byte behind them. -/
theorem written_form_is_shortest_of_one :
    VarInt.decode [0xFD, 1, 0, 0xAA] = .ok (1, [0xAA]) ∧ ∃ form, [0xFD, 1, 0, 0xAA] = form ++ [0xAA] ∧
      width 1 ≤ form.length ∧ form ≠ VarInt.encode 1 := by
  have hdecode : VarInt.decode [0xFD, 1, 0, 0xAA] = .ok (1, [0xAA]) := rfl
  obtain ⟨form, hform, -, hle, hiff⟩ := written_form_is_shortest.2 _ _ _ hdecode
  obtain rfl : form = [0xFD, 1, 0] := (List.append_cancel_right hform).symm
  exact ⟨hdecode, _, hform, hle, fun heq => absurd (hiff.2 heq) (by decide)⟩

theorem takes_length (max : Nat) : (decodeLength max).Takes [] fun n => [.count n.toUInt64] := by
  apply takes.bind
  intro v
  dsimp only
  split
  · exact Decoder.takes_refuse_then _ _
  · exact takes_pure (by simp)

end VarInt

namespace VarBytes

def parts (bs : Bytes) : List Part :=
  [.count bs.length.toUInt64, .plain bs]

theorem written_parts (bs : Bytes) : (parts bs).flatMap Part.written = encode bs := by
  simp [parts, Part.written, encode]

theorem takes : decode.Takes [] parts := by
  apply (VarInt.takes_length _).bind
  intro n
  apply (Decoder.takes_need n _).bind
  intro _
  apply (Decoder.takes_bytes n).imp (Decoder.yields_bytes n)
  rintro bs rfl
  rfl

end VarBytes

theorem VarString.takes : VarString.decode.Takes [] fun s => VarBytes.parts (Bytes.ofString s) := by
  apply VarBytes.takes.bind
  intro raw
  cases htext : raw.toString? with
  | none => exact takes_refuse _
  | some s =>
    apply takes_pure
    rw [Bytes.ofString_of_toString? htext, List.nil_append]

/-! ## Where two spellings differ -/

theorem Part.Spelled.redundant {p : Part} {form : Bytes} (h : p.Spelled form) (hne : form ≠ p.written) :
    (∃ v, p = .count v ∧ (VarInt.encode v).length < form.length) ∨
      ∃ b c, p = .flag b ∧ form = [c] ∧ c ≠ 0 ∧ c ≠ 1 := by
  cases p with
  | plain bs => exact absurd h hne
  | count v => exact Or.inl ⟨v, rfl, (VarInt.eq_or_length_lt h).resolve_left hne⟩
  | flag b =>
    obtain ⟨c, rfl, rfl⟩ := h
    refine Or.inr ⟨_, c, rfl, rfl, ?_, ?_⟩
    · rintro rfl
      exact hne rfl
    · rintro rfl
      exact hne rfl

theorem Part.Spelled.length_le {p : Part} {form : Bytes} (h : p.Spelled form) : p.written.length ≤ form.length := by
  by_cases hne : form = p.written
  · exact Nat.le_of_eq (by rw [hne])
  · rcases h.redundant hne with ⟨v, rfl, hlt⟩ | ⟨b, c, rfl, rfl, -⟩
    · exact Nat.le_of_lt hlt
    · exact Nat.le_refl _

theorem Spells.length_le {ps : List Part} {bs : Bytes} (h : Spells ps bs) :
    (ps.flatMap Part.written).length ≤ bs.length := by
  induction h with
  | nil => exact Nat.le_refl _
  | cons hp _ ih =>
    have := hp.length_le
    simp only [List.flatMap_cons, List.length_append]
    omega

def SpelledAt (ps : List Part) (bs : Bytes) (p : Part) (form : Bytes) : Prop :=
  ∃ before after xs ys, ps = before ++ p :: after ∧ bs = xs ++ form ++ ys ∧ Spells before xs ∧ p.Spelled form ∧
    Spells after ys

theorem SpelledAt.mem {ps : List Part} {bs form : Bytes} {p : Part} (h : SpelledAt ps bs p form) : p ∈ ps := by
  obtain ⟨before, after, xs, ys, rfl, -⟩ := h
  simp

theorem SpelledAt.spelled {ps : List Part} {bs form : Bytes} {p : Part} (h : SpelledAt ps bs p form) :
    p.Spelled form := by
  obtain ⟨before, after, xs, ys, -, -, -, hp, -⟩ := h
  exact hp

theorem Spells.exists_redundant {ps : List Part} {bs : Bytes} (h : Spells ps bs) (hne : bs ≠ ps.flatMap Part.written) :
    ∃ p form, SpelledAt ps bs p form ∧ form ≠ p.written := by
  induction h with
  | nil => exact absurd rfl hne
  | @cons p ps form bs hp hs ih =>
    by_cases hform : form = p.written
    · obtain ⟨q, form', ⟨before, after, xs, ys, rfl, rfl, hxs, hq, hys⟩, hredundant⟩ := ih fun hbs =>
        hne (by rw [hform, hbs, List.flatMap_cons])
      refine ⟨q, form', ⟨p :: before, after, form ++ xs, ys, rfl, ?_, .cons hp hxs, hq, hys⟩, hredundant⟩
      simp only [List.append_assoc]
    · exact ⟨p, form, ⟨[], ps, [], bs, rfl, rfl, .nil, hp, hs⟩, hform⟩

end ChainSync
