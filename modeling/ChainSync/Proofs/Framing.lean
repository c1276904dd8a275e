import ChainSync.Wire.Frame

/-!
# Frames however the stream is cut

A verdict on the front of a buffer is final: bytes that come later only
lengthen what is left. So chunks that are fed one by one give the frames of
the whole stream, up to the first failure.
-/

namespace ChainSync.Frame

/-! ## What one look at a buffer shows -/

def Head.judge (magic : UInt32) (head : Head) : Except NetError String :=
  if head.magic ≠ magic then .error (.magicMismatch magic head.magic)
  else
    match commandOfField head.commandField with
    | .error e => .error e
    | .ok command =>
      if maxPayload < head.length then .error (.messageTooLarge head.length maxPayload) else .ok command

def isChecksumFailure : NetError → Bool
  | .checksumMismatch .. => true
  | _ => false

namespace Step

def left (buffer : Bytes) : Step → Bytes
  | wait => buffer
  | packet _ rest | fail _ rest => rest

def consumed (buffer : Bytes) : Step → Nat
  | wait => 0
  | packet p _ => headSize + p.payload.length
  | fail e _ => if isChecksumFailure e then headSize + (Head.ofBytes buffer).length else 0

/-- The same verdict with more bytes left; to wait is no verdict. -/
def followedBy (more : Bytes) : Step → Step
  | wait => wait
  | packet p rest => packet p (rest ++ more)
  | fail e rest => fail e (rest ++ more)

end Step

theorem isChecksumFailure_of_command {field : Bytes} {e : NetError} (h : commandOfField field = .error e) :
    isChecksumFailure e = false := by
  simp only [commandOfField] at h
  split at h
  · cases h; rfl
  · split at h <;> cases h
    rfl

theorem isChecksumFailure_of_judge {magic : UInt32} {head : Head} {e : NetError} (h : head.judge magic = .error e) :
    isChecksumFailure e = false := by
  unfold Head.judge at h
  split at h
  · cases h; rfl
  · split at h
    · rename_i hc
      cases h
      exact isChecksumFailure_of_command hc
    · split at h <;> cases h
      rfl

theorem Head.ofBytes_append {buffer : Bytes} (h : headSize ≤ buffer.length) (more : Bytes) :
    Head.ofBytes (buffer ++ more) = Head.ofBytes buffer := by
  simp only [headSize] at h
  have hfield : ∀ n k, n + k ≤ 24 → ((buffer ++ more).drop n).take k = (buffer.drop n).take k := by
    intro n k hnk
    rw [List.drop_append_of_le_length (by omega), List.take_append_of_le_length (by rw [List.length_drop]; omega)]
  simp only [Head.ofBytes, Head.mk.injEq]
  refine ⟨?_, hfield 4 12 (by omega), ?_, hfield 20 4 (by omega)⟩
  · rw [List.take_append_of_le_length (by omega)]
  · rw [hfield 16 4 (by omega)]

variable [Digest] {magic : UInt32} {buffer : Bytes}

def Head.conclude (head : Head) (command : String) (payload rest : Bytes) : Step :=
  match checkSum payload head.checksum with
  | .error e => .fail e rest
  | .ok () => .packet ⟨command, payload⟩ rest

inductive Look (magic : UInt32) (buffer : Bytes) : Step → Prop
  | short (h : buffer.length < headSize) : Look magic buffer .wait
  | refused {e : NetError} (h : headSize ≤ buffer.length) (hj : (Head.ofBytes buffer).judge magic = .error e) :
      Look magic buffer (.fail e buffer)
  | unfinished {command : String} (h : headSize ≤ buffer.length)
      (hj : (Head.ofBytes buffer).judge magic = .ok command)
      (hlen : buffer.length < headSize + (Head.ofBytes buffer).length) : Look magic buffer .wait
  | whole {command : String} (hj : (Head.ofBytes buffer).judge magic = .ok command)
      (hlen : headSize + (Head.ofBytes buffer).length ≤ buffer.length) :
      Look magic buffer ((Head.ofBytes buffer).conclude command
        ((buffer.drop headSize).take (Head.ofBytes buffer).length)
        (buffer.drop (headSize + (Head.ofBytes buffer).length)))

theorem next_of_judged (h : headSize ≤ buffer.length) : next magic buffer =
    match (Head.ofBytes buffer).judge magic with
    | .error e => .fail e buffer
    | .ok command =>
      if buffer.length < headSize + (Head.ofBytes buffer).length then .wait
      else (Head.ofBytes buffer).conclude command ((buffer.drop headSize).take (Head.ofBytes buffer).length)
        (buffer.drop (headSize + (Head.ofBytes buffer).length)) := by
  simp only [next, Bytes.hasAtLeast_iff, Nat.not_le, Nat.not_lt.2 h, if_false, Head.judge]
  by_cases hmagic : (Head.ofBytes buffer).magic = magic
  · simp only [hmagic, ne_eq, not_true_eq_false, if_false]
    cases commandOfField (Head.ofBytes buffer).commandField with
    | error e => rfl
    | ok command =>
      by_cases hsize : maxPayload < (Head.ofBytes buffer).length
      · simp only [hsize, if_true]
      · simp only [hsize, if_false]
        rfl
  · simp only [hmagic, ne_eq, not_false_eq_true, if_true]

theorem Look.next_eq {s : Step} (l : Look magic buffer s) : next magic buffer = s := by
  cases l with
  | short h => simp only [next, Bytes.hasAtLeast_iff, Nat.not_le, h, if_true]
  | refused h hj => rw [next_of_judged h, hj]
  | unfinished h hj hlen => rw [next_of_judged h, hj]; exact if_pos hlen
  | whole hj hlen => rw [next_of_judged (by omega), hj]; exact if_neg (Nat.not_lt.2 hlen)

theorem look_next (magic : UInt32) (buffer : Bytes) : Look magic buffer (next magic buffer) := by
  suffices ∃ s, Look magic buffer s by
    obtain ⟨s, l⟩ := this
    rwa [l.next_eq]
  by_cases h : headSize ≤ buffer.length
  · cases hj : (Head.ofBytes buffer).judge magic with
    | error e => exact ⟨_, .refused h hj⟩
    | ok command =>
      by_cases hlen : headSize + (Head.ofBytes buffer).length ≤ buffer.length
      · exact ⟨_, .whole hj hlen⟩
      · exact ⟨_, .unfinished h hj (Nat.not_le.1 hlen)⟩
  · exact ⟨_, .short (Nat.not_le.1 h)⟩

/-! ## Bytes that come later -/

theorem Head.conclude_append (head : Head) (command : String) (payload rest more : Bytes) :
    head.conclude command payload (rest ++ more) = (head.conclude command payload rest).followedBy more := by
  unfold Head.conclude
  cases checkSum payload head.checksum <;> rfl

theorem next_append (h : next magic buffer ≠ .wait) (more : Bytes) :
    next magic (buffer ++ more) = (next magic buffer).followedBy more := by
  have l := look_next magic buffer
  revert h
  generalize next magic buffer = s at l
  intro h
  apply Look.next_eq
  have hlonger : buffer.length ≤ (buffer ++ more).length := by simp
  cases l with
  | short => exact absurd rfl h
  | unfinished => exact absurd rfl h
  | refused hhead hj => exact .refused (Nat.le_trans hhead hlonger) (by rwa [Head.ofBytes_append hhead])
  | @whole command hj hlen =>
    have hhead : headSize ≤ buffer.length := by omega
    have hw := @Look.whole _ magic (buffer ++ more) command (by rwa [Head.ofBytes_append hhead])
      (by rw [Head.ofBytes_append hhead]; exact Nat.le_trans hlen hlonger)
    rw [Head.ofBytes_append hhead, List.drop_append_of_le_length hlen, List.drop_append_of_le_length hhead,
      List.take_append_of_le_length (by rw [List.length_drop]; omega), Head.conclude_append] at hw
    exact hw

/-! ## What is taken off -/

theorem Head.conclude_cases (head : Head) (command : String) (payload rest : Bytes) :
    head.conclude command payload rest = .packet ⟨command, payload⟩ rest ∨
      ∃ want got, head.conclude command payload rest = .fail (.checksumMismatch want got) rest := by
  unfold Head.conclude checkSum
  by_cases h : Frame.checksum payload = head.checksum
  · exact .inl (by simp only [h, if_true])
  · exact .inr ⟨_, _, by simp only [h, if_false]; rfl⟩

theorem Head.left_conclude (head : Head) (command : String) (payload rest : Bytes) :
    (head.conclude command payload rest).left buffer = rest := by
  obtain h | ⟨want, got, h⟩ := head.conclude_cases command payload rest <;> rw [h] <;> rfl

theorem Head.consumed_conclude {payload : Bytes} (hlen : payload.length = (Head.ofBytes buffer).length)
    (command : String) (rest : Bytes) :
    ((Head.ofBytes buffer).conclude command payload rest).consumed buffer =
      headSize + (Head.ofBytes buffer).length := by
  obtain h | ⟨want, got, h⟩ := (Head.ofBytes buffer).conclude_cases command payload rest
  · rw [h, ← hlen]
    rfl
  · rw [h]
    rfl

theorem Look.exists_taken {s : Step} (l : Look magic buffer s) :
    ∃ taken : Bytes, taken.length = s.consumed buffer ∧ buffer = taken ++ s.left buffer := by
  cases l with
  | short | unfinished => exact ⟨[], rfl, rfl⟩
  | refused h hj => exact ⟨[], by simp [Step.consumed, isChecksumFailure_of_judge hj], rfl⟩
  | whole hj hlen =>
    refine ⟨buffer.take (headSize + (Head.ofBytes buffer).length), ?_, ?_⟩
    · rw [Head.consumed_conclude, List.length_take, Nat.min_eq_left hlen]
      rw [List.length_take, List.length_drop]
      omega
    · rw [Head.left_conclude, List.take_append_drop]

/-! ## Draining a buffer that grows -/

theorem drain_of_wait (h : next magic buffer = .wait) : drain magic buffer = ⟨[], none, buffer⟩ := by
  unfold drain
  split <;> simp_all

theorem drain_of_fail {e : NetError} {rest : Bytes} (h : next magic buffer = .fail e rest) :
    drain magic buffer = ⟨[], some e, rest⟩ := by
  unfold drain
  split <;> simp_all

theorem drain_of_packet {p : Packet} {rest : Bytes} (h : next magic buffer = .packet p rest) :
    drain magic buffer = { drain magic rest with packets := p :: (drain magic rest).packets } := by
  rw [drain]
  split <;> simp_all

theorem next_rest_drain (magic : UInt32) (buffer : Bytes) (h : (drain magic buffer).error = none) :
    next magic (drain magic buffer).rest = .wait := by
  fun_induction drain magic buffer with
  | case1 buffer hn => exact hn
  | case2 buffer e rest hn => cases h
  | case3 buffer p rest hn d ih => exact ih h

theorem drain_append_of_error {e : NetError} (h : (drain magic buffer).error = some e) (more : Bytes) :
    drain magic (buffer ++ more) = { drain magic buffer with rest := (drain magic buffer).rest ++ more } := by
  fun_induction drain magic buffer with
  | case1 buffer hn => cases h
  | case2 buffer e' rest hn =>
    have hn' : next magic (buffer ++ more) = .fail e' (rest ++ more) := by
      rw [next_append (by simp [hn]), hn]
      rfl
    rw [drain_of_fail hn']
  | case3 buffer p rest hn d ih =>
    have hn' : next magic (buffer ++ more) = .packet p (rest ++ more) := by
      rw [next_append (by simp [hn]), hn]
      rfl
    rw [drain_of_packet hn', ih h]

theorem drain_append_of_ok (h : (drain magic buffer).error = none) (more : Bytes) :
    drain magic (buffer ++ more) =
      { drain magic ((drain magic buffer).rest ++ more) with
        packets := (drain magic buffer).packets ++ (drain magic ((drain magic buffer).rest ++ more)).packets } := by
  fun_induction drain magic buffer with
  | case1 buffer hn => rfl
  | case2 buffer e rest hn => cases h
  | case3 buffer p rest hn d ih =>
    have hn' : next magic (buffer ++ more) = .packet p (rest ++ more) := by
      rw [next_append (by simp [hn]), hn]
      rfl
    rw [drain_of_packet hn', ih h]
    rfl

/-! ## Chunks -/

/-- Appends chunks to a buffer one by one and drains it behind each, up to the first failure; with the
chunks that were not touched then. -/
def drainChunks (magic : UInt32) : Bytes → List Bytes → Drained × List Bytes
  | buffer, [] => (⟨[], none, buffer⟩, [])
  | buffer, chunk :: later =>
    let d := drain magic (buffer ++ chunk)
    if d.error.isSome then (d, later)
    else
      let (d', untouched) := drainChunks magic d.rest later
      ({ d' with packets := d.packets ++ d'.packets }, untouched)

theorem drain_buffered (h : next magic buffer = .wait) (chunks : List Bytes) :
    drain magic (buffer ++ chunks.flatten) =
      { (drainChunks magic buffer chunks).1 with
        rest := (drainChunks magic buffer chunks).1.rest ++ (drainChunks magic buffer chunks).2.flatten } := by
  induction chunks generalizing buffer with
  | nil => simp [drainChunks, drain_of_wait h]
  | cons chunk later ih =>
    rw [List.flatten_cons, ← List.append_assoc, drainChunks]
    cases herror : (drain magic (buffer ++ chunk)).error with
    | some e => simp only [drain_append_of_error herror, herror, Option.isSome_some, if_true]
    | none =>
      have hrest := ih (next_rest_drain magic _ herror)
      simp only [drain_append_of_ok herror, hrest, Option.isSome_none, Bool.false_eq_true, if_false]

/-- Chunks give the frames of the whole stream, and a look takes off no more than the frame it judged. -/
theorem drain_flatten (magic : UInt32) (chunks : List Bytes) :
    drain magic chunks.flatten =
      { (drainChunks magic [] chunks).1 with
        rest := (drainChunks magic [] chunks).1.rest ++ (drainChunks magic [] chunks).2.flatten } ∧
    ∀ buffer, ∃ taken : Bytes, taken.length = (next magic buffer).consumed buffer ∧
      buffer = taken ++ (next magic buffer).left buffer :=
  ⟨@drain_buffered _ magic [] rfl chunks, fun buffer => (look_next magic buffer).exists_taken⟩

end ChainSync.Frame
