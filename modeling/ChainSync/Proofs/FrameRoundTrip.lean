import Mathlib.Data.List.DropRight
import ChainSync.Hash.Sha256
import ChainSync.Proofs.Connections
import ChainSync.Proofs.Parts

/-!
# Frames there and back

A command field can say one name only, and each field of a frame can be
written in one way only. So what is read as a frame is what would be
written for it, and both readers accept the same byte strings.
-/

namespace ChainSync.Frame

/-! ## Names in a command field -/

/-- What a frame says of its command: the first twelve bytes, less the zeros at their end. -/
def sentName (command : String) : Bytes :=
  ((Bytes.ofString command).take commandSize).rdropWhile (· == 0)

def IsName (name : Bytes) : Prop :=
  name ≠ [] ∧ ∀ b ∈ name, isGraphic b = true

theorem isGraphic_iff {b : UInt8} : isGraphic b = true ↔ 33 ≤ b.toNat ∧ b.toNat ≤ 126 := by
  simp [isGraphic, UInt8.le_iff_toNat_le]

theorem IsName.ne_zero {name : Bytes} (h : IsName name) {b : UInt8} (hb : b ∈ name) : b ≠ 0 := by
  rintro rfl
  have := isGraphic_iff.1 (h.2 0 hb)
  simp at this

theorem utf8EncodeChar_graphic {b : UInt8} (h : isGraphic b = true) :
    String.utf8EncodeChar (Char.ofNat b.toNat) = [b] := by
  obtain ⟨-, hle⟩ := isGraphic_iff.1 h
  have hval : (Char.ofNat b.toNat).val.toNat = b.toNat := by
    rw [Char.ofNat, dif_pos (Or.inl (by omega))]
    rfl
  unfold String.utf8EncodeChar
  simp only [hval]
  rw [if_pos (by omega), UInt8.ofNat_toNat]

theorem flatMap_graphic : ∀ {name : Bytes}, (∀ b ∈ name, isGraphic b = true) →
    name.flatMap (fun b => String.utf8EncodeChar (Char.ofNat b.toNat)) = name
  | [], _ => rfl
  | b :: bs, h => by
    rw [List.flatMap_cons, utf8EncodeChar_graphic (h b (List.mem_cons_self ..)),
      flatMap_graphic fun c hc => h c (List.mem_cons_of_mem _ hc), List.singleton_append]

theorem ofString_graphic {name : Bytes} (h : ∀ b ∈ name, isGraphic b = true) :
    Bytes.ofString (String.ofList (name.map fun b => Char.ofNat b.toNat)) = name := by
  rw [Bytes.ofString, String.toUTF8_eq_toByteArray, String.toByteArray_ofList, List.utf8Encode,
    List.toList_data_toByteArray, List.flatMap_map, flatMap_graphic h]

theorem ofString_inj {s t : String} (h : Bytes.ofString s = Bytes.ofString t) : s = t := by
  have := congrArg Bytes.toString? h
  simpa only [Bytes.toString?_ofString, Option.some.injEq] using this

theorem takeWhile_padded {name : Bytes} (h : ∀ b ∈ name, b ≠ 0) (k : Nat) :
    (name ++ List.replicate k 0).takeWhile (· != 0) = name := by
  rw [List.takeWhile_append_of_pos fun b hb => bne_iff_ne.2 (h b hb)]
  cases k with
  | zero => exact List.append_nil _
  | succ k => rw [List.replicate_succ, List.takeWhile_cons_of_neg (by simp), List.append_nil]

theorem exists_padding {field : Bytes}
    (h : (field.drop (field.takeWhile (· != 0)).length).any (· != 0) = false) :
    ∃ k, field = field.takeWhile (· != 0) ++ List.replicate k 0 := by
  refine ⟨(field.drop (field.takeWhile (· != 0)).length).length, ?_⟩
  have hzeros : field.drop (field.takeWhile (· != 0)).length =
      List.replicate (field.drop (field.takeWhile (· != 0)).length).length 0 := by
    refine List.eq_replicate_iff.2 ⟨rfl, fun b hb => ?_⟩
    have := List.any_eq_false.1 h b hb
    simpa using this
  rw [← hzeros]
  exact (List.prefix_iff_eq_append.1 (List.takeWhile_prefix _)).symm

/-- A name and zeros behind it, which can be read in this way only. -/
theorem commandOfField_eq_ok_iff {field : Bytes} {command : String} : commandOfField field = .ok command ↔
    IsName (Bytes.ofString command) ∧ ∃ k, field = Bytes.ofString command ++ List.replicate k 0 := by
  constructor
  · intro h
    simp only [commandOfField] at h
    split at h
    · cases h
    rename_i hpadding
    split at h
    · cases h
    rename_i hname
    cases h
    simp only [Bool.or_eq_true, List.isEmpty_iff, Bool.not_eq_true', not_or, Bool.not_eq_false,
      List.all_eq_true] at hname
    rw [ofString_graphic hname.2]
    exact ⟨hname, exists_padding (Bool.eq_false_iff.2 hpadding)⟩
  · rintro ⟨hname, k, rfl⟩
    have hgraphic : (Bytes.ofString command).all isGraphic = true := List.all_eq_true.2 hname.2
    have hempty : (Bytes.ofString command).isEmpty = false := List.isEmpty_eq_false_iff.2 hname.1
    have htext : String.ofList ((Bytes.ofString command).map fun b => Char.ofNat b.toNat) = command :=
      ofString_inj (ofString_graphic hname.2)
    simp only [commandOfField, takeWhile_padded fun b => hname.ne_zero, List.drop_left, hgraphic, hempty, htext]
    simp

/-! ## What the field of a command says -/

theorem rdropWhile_padded (name : Bytes) : ∀ k,
    (name ++ List.replicate k 0).rdropWhile (· == 0) = name.rdropWhile (· == 0)
  | 0 => by rw [List.replicate_zero, List.append_nil]
  | k + 1 => by
    rw [List.replicate_succ', ← List.append_assoc, List.rdropWhile_concat_pos _ _ _ (by rfl), rdropWhile_padded name k]

theorem IsName.rdropWhile_eq {name : Bytes} (h : IsName name) : name.rdropWhile (· == 0) = name := by
  refine List.rdropWhile_eq_self_iff.2 fun hne => ?_
  simpa using h.ne_zero (List.getLast_mem hne)

theorem exists_commandField (command : String) :
    ∃ k, commandField command = sentName command ++ List.replicate k 0 := by
  let name := (Bytes.ofString command).take commandSize
  have hzeros : name.rtakeWhile (· == 0) = List.replicate (name.rtakeWhile (· == 0)).length 0 :=
    List.eq_replicate_iff.2 ⟨rfl, fun b hb => beq_iff_eq.1 (List.mem_rtakeWhile_imp (p := (· == 0)) hb)⟩
  refine ⟨(name.rtakeWhile (· == 0)).length + (commandSize - name.length), ?_⟩
  rw [List.replicate_add, ← hzeros, ← List.append_assoc, sentName, List.rdropWhile_append_rtakeWhile]
  rfl

theorem commandOfField_commandField_iff {command read : String} :
    commandOfField (commandField command) = .ok read ↔
      IsName (sentName command) ∧ Bytes.ofString read = sentName command := by
  obtain ⟨k, hfield⟩ := exists_commandField command
  have hsent : (commandField command).rdropWhile (· == 0) = sentName command := by
    rw [hfield, rdropWhile_padded, sentName, List.rdropWhile_idempotent]
  rw [commandOfField_eq_ok_iff]
  constructor
  · rintro ⟨hname, j, hread⟩
    have heq : Bytes.ofString read = sentName command := by
      rw [← hsent, hread, rdropWhile_padded, hname.rdropWhile_eq]
    exact ⟨heq ▸ hname, heq⟩
  · rintro ⟨hname, heq⟩
    exact ⟨heq ▸ hname, k, heq ▸ hfield⟩

theorem exists_commandOfField_iff {command : String} :
    (∃ read, commandOfField (commandField command) = .ok read) ↔ IsName (sentName command) := by
  simp only [commandOfField_commandField_iff]
  exact ⟨fun ⟨_, h, _⟩ => h, fun h => ⟨_, h, ofString_graphic h.2⟩⟩

theorem commandField_of_commandOfField {field : Bytes} {command : String} (h : commandOfField field = .ok command)
    (hlength : field.length = commandSize) : commandField command = field := by
  obtain ⟨-, k, rfl⟩ := commandOfField_eq_ok_iff.1 h
  rw [List.length_append, List.length_replicate] at hlength
  have htake : (Bytes.ofString command).take commandSize = Bytes.ofString command :=
    List.take_of_length_le (by omega)
  have hpad : commandSize - (Bytes.ofString command).length = k := by omega
  simp only [commandField, htake, hpad]

/-! ## The fields of a frame -/

theorem fields_ofBytes {bs : Bytes} (h : headSize ≤ bs.length) :
    Bytes.ofNatLE 4 (Head.ofBytes bs).magic.toNat ++ (Head.ofBytes bs).commandField ++
      Bytes.ofNatLE 4 (Head.ofBytes bs).length ++ (Head.ofBytes bs).checksum ++ bs.drop headSize = bs := by
  simp only [headSize] at h
  have hnumber : ∀ n, n + 4 ≤ 24 → Bytes.ofNatLE 4 (Bytes.toNatLE ((bs.drop n).take 4)) = (bs.drop n).take 4 := by
    intro n hn
    have hback := Bytes.ofNatLE_toNatLE ((bs.drop n).take 4)
    rwa [List.length_take, List.length_drop, Nat.min_eq_left (by omega)] at hback
  have hmagic : (Head.ofBytes bs).magic.toNat = Bytes.toNatLE (bs.take 4) := by
    have hlt := Bytes.toNatLE_lt (bs.take 4)
    rw [List.length_take, Nat.min_eq_left (by omega)] at hlt
    exact Nat.mod_eq_of_lt hlt
  have hcut : ∀ n k, (bs.drop n).take k ++ bs.drop (n + k) = bs.drop n := by
    intro n k
    rw [← List.drop_drop, List.take_append_drop]
  rw [hmagic]
  simp only [Head.ofBytes, List.append_assoc]
  rw [hnumber 16 (by omega), show headSize = 20 + 4 from rfl, hcut 20 4, hcut 16 4, hcut 4 12]
  exact (congrArg (· ++ bs.drop 4) (hnumber 0 (by omega))).trans (hcut 0 4)

theorem Head.judge_eq_ok_iff {magic : UInt32} {head : Head} {command : String} : head.judge magic = .ok command ↔
    head.magic = magic ∧ commandOfField head.commandField = .ok command ∧ head.length ≤ maxPayload := by
  unfold Head.judge
  by_cases hmagic : head.magic = magic
  · cases hc : commandOfField head.commandField with
    | error e => simp [hmagic]
    | ok read =>
      by_cases hsize : maxPayload < head.length
      · simp [hmagic, hsize]
      · simp [hmagic, hsize, Nat.not_lt.1 hsize]
  · simp [hmagic]

section

variable [Digest] {bs : Bytes} {magic m : UInt32} {p q : Packet}

structure Holds (bs : Bytes) (magic : UInt32) (q : Packet) : Prop where
  size : headSize ≤ bs.length
  magic : (Head.ofBytes bs).magic = magic
  command : commandOfField (Head.ofBytes bs).commandField = .ok q.command
  payload : bs.drop headSize = q.payload
  length : (Head.ofBytes bs).length = q.payload.length
  checksum : (Head.ofBytes bs).checksum = checksum q.payload

theorem Holds.length_eq (h : Holds bs magic q) : bs.length = headSize + q.payload.length := by
  have := h.size
  rw [← h.payload, List.length_drop]
  omega

theorem checkSum_eq_ok_iff {payload expected : Bytes} :
    checkSum payload expected = .ok () ↔ expected = checksum payload := by
  unfold checkSum
  by_cases h : checksum payload = expected
  · simp [h]
  · simp [h, Ne.symm h]

theorem decode_eq_ok_iff : decode bs = .ok (m, q) ↔ Holds bs m q := by
  constructor
  · intro h
    unfold decode at h
    dsimp only at h
    split at h
    · cases h
    rename_i hsize
    cases hc : commandOfField (Head.ofBytes bs).commandField with
    | error e =>
      rw [hc] at h
      cases h
    | ok command =>
      rw [hc] at h
      change (if _ then _ else _) = _ at h
      split at h
      · cases h
      rename_i hlength
      cases hsum : checkSum (bs.drop headSize) (Head.ofBytes bs).checksum with
      | error e =>
        rw [hsum] at h
        cases h
      | ok =>
        rw [hsum] at h
        cases h
        exact ⟨Nat.not_lt.1 hsize, rfl, hc, rfl, (not_not.1 hlength).symm, checkSum_eq_ok_iff.1 hsum⟩
  · intro h
    unfold decode
    dsimp only
    rw [if_neg (Nat.not_lt.2 h.size), h.command, h.payload, h.length, checkSum_eq_ok_iff.2 h.checksum, h.magic]
    exact if_neg (not_not.2 rfl)

/-- The growing buffer's reader makes the same checks in another order, and one more. -/
theorem next_eq_packet_iff : next magic bs = .packet q [] ↔ Holds bs magic q ∧ q.payload.length ≤ maxPayload := by
  constructor
  · intro h
    have l := look_next magic bs
    rw [h] at l
    generalize hs : Step.packet q [] = s at l
    cases l with
    | short | refused | unfinished => cases hs
    | @whole command hj hlen =>
      obtain ⟨hmagic, hcommand, hsize⟩ := Head.judge_eq_ok_iff.1 hj
      unfold Head.conclude at hs
      split at hs
      · cases hs
      rename_i hsum
      injection hs with hpacket hrest
      have hend : bs.length = headSize + (Head.ofBytes bs).length :=
        Nat.le_antisymm (List.drop_eq_nil_iff.1 hrest.symm) hlen
      have hlength : (bs.drop headSize).length = (Head.ofBytes bs).length := by
        rw [List.length_drop, hend, Nat.add_sub_cancel_left]
      rw [← hlength, List.take_length] at hpacket hsum
      subst hpacket
      exact ⟨⟨hend ▸ Nat.le_add_right .., hmagic, hcommand, rfl, hlength.symm, checkSum_eq_ok_iff.1 hsum⟩,
        hlength ▸ hsize⟩
  · rintro ⟨h, hsize⟩
    have hjudged : (Head.ofBytes bs).judge magic = .ok q.command :=
      Head.judge_eq_ok_iff.2 ⟨h.magic, h.command, h.length ▸ hsize⟩
    have hwhole : headSize + (Head.ofBytes bs).length ≤ bs.length := by
      rw [h.length, ← h.length_eq]
    rw [(Look.whole hjudged hwhole).next_eq, h.payload, h.length, ← h.length_eq, List.drop_length, List.take_length,
      Head.conclude, checkSum_eq_ok_iff.2 h.checksum]

/-! ## Writing what was read -/

theorem holds_encode_iff (hframe : encode magic p = .ok bs) :
    Holds bs m q ↔ magic = m ∧ commandOfField (commandField p.command) = .ok q.command ∧ p.payload = q.payload := by
  obtain ⟨hhead, hdrop, hlength, -⟩ := ofBytes_encode hframe []
  simp only [List.append_nil] at hhead hdrop
  constructor
  · intro h
    have hmagic := h.magic
    have hcommand := h.command
    rw [hhead] at hmagic hcommand
    exact ⟨hmagic, hcommand, hdrop.symm.trans h.payload⟩
  · rintro ⟨hmagic, hcommand, hpayload⟩
    refine ⟨hlength ▸ Nat.le_add_right .., ?_, ?_, hdrop.trans hpayload, ?_, ?_⟩
    all_goals rw [hhead]
    · exact hmagic
    · exact hcommand
    · exact congrArg List.length hpayload
    · exact congrArg Frame.checksum hpayload

theorem Holds.encode_eq (h : Holds bs magic q) (hsize : q.payload.length ≤ maxPayload) :
    encode magic q = .ok bs := by
  have hfield : commandField q.command = (Head.ofBytes bs).commandField := by
    refine commandField_of_commandOfField h.command ?_
    have := h.size
    simp only [headSize] at this
    simp only [Head.ofBytes, List.length_take, List.length_drop, commandSize]
    omega
  have hbytes := fields_ofBytes h.size
  rw [h.magic, ← hfield, h.length, h.checksum, h.payload] at hbytes
  unfold encode
  dsimp only
  rw [if_neg (Nat.not_lt.2 hsize), hbytes]

/-- A packet of at most the longest payload, and no other, has a frame; its frame is read if and only if its
command starts with a name, and is then read as the packet under that name. What is read from one frame is
written into it again, and both readers read the same frames. -/
theorem frames_round_trip (magic : UInt32) :
    (∀ p : Packet, (∃ bs, encode magic p = .ok bs) ↔ p.payload.length ≤ maxPayload) ∧
    (∀ (p : Packet) (bs : Bytes), encode magic p = .ok bs →
      ((∃ read, decode bs = .ok read) ↔ IsName (sentName p.command)) ∧
      ∀ m q, decode bs = .ok (m, q) →
        m = magic ∧ Bytes.ofString q.command = sentName p.command ∧ q.payload = p.payload) ∧
    (∀ (bs : Bytes) (q : Packet), decode bs = .ok (magic, q) → q.payload.length ≤ maxPayload →
      encode magic q = .ok bs) ∧
    ∀ (bs : Bytes) (q : Packet), next magic bs = .packet q [] ↔
      decode bs = .ok (magic, q) ∧ q.payload.length ≤ maxPayload := by
  refine ⟨fun p => ⟨fun ⟨bs, h⟩ => (ofBytes_encode h []).2.2.2, encode_of_le⟩,
    fun p bs hframe => ⟨⟨?_, ?_⟩, ?_⟩, ?_, ?_⟩
  · rintro ⟨⟨m, q⟩, hread⟩
    obtain ⟨-, hcommand, -⟩ := (holds_encode_iff hframe).1 (decode_eq_ok_iff.1 hread)
    exact exists_commandOfField_iff.1 ⟨_, hcommand⟩
  · intro hname
    obtain ⟨read, hcommand⟩ := exists_commandOfField_iff.2 hname
    exact ⟨(magic, ⟨read, p.payload⟩), decode_eq_ok_iff.2 ((holds_encode_iff hframe).2 ⟨rfl, hcommand, rfl⟩)⟩
  · intro m q hread
    obtain ⟨hmagic, hcommand, hpayload⟩ := (holds_encode_iff hframe).1 (decode_eq_ok_iff.1 hread)
    exact ⟨hmagic.symm, (commandOfField_commandField_iff.1 hcommand).2, hpayload.symm⟩
  · intro bs q hread hsize
    exact (decode_eq_ok_iff.1 hread).encode_eq hsize
  · intro bs q
    rw [next_eq_packet_iff, decode_eq_ok_iff]

end

/-- Of a command of thirteen bytes twelve are sent, and the frame is that of the shorter command. -/
theorem frames_round_trip_cut :
    let p : Packet := ⟨"getblockdatas", []⟩
    let q : Packet := ⟨"getblockdata", []⟩
    let bs := [1, 0, 0, 0] ++ Bytes.ofString "getblockdata" ++ List.replicate 4 0 ++ [0x5D, 0xF6, 0xE0, 0xE2]
    encode 1 p = .ok bs ∧ decode bs = .ok (1, q) ∧ q.payload.length ≤ maxPayload ∧
      Bytes.ofString q.command = sentName p.command ∧ encode 1 q = .ok bs := by
  intro p q bs
  have hwritten : encode 1 p = .ok bs := by decide +kernel
  have hread : decode bs = .ok (1, q) := by decide +kernel
  have hsize : q.payload.length ≤ maxPayload := Nat.zero_le _
  obtain ⟨-, hback, hforth, -⟩ := frames_round_trip 1
  exact ⟨hwritten, hread, hsize, ((hback p bs hwritten).2 1 q hread).2.1, hforth bs q hread hsize⟩

end ChainSync.Frame
