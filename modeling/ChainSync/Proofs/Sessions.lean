import ChainSync.Hash.Sha256
import ChainSync.Peer.Session
import ChainSync.Proofs.Framing
import ChainSync.Proofs.Outboxes

/-!
# What a session makes of its stream

However the stream is cut, a session dispatches the messages of the frames
in front of the first one that does not decode, and then ends, once: for a
violation if there was such a frame, otherwise because the stream is over.
-/

namespace ChainSync

/-- What of a peer only its session changes. -/
structure Bearing where
  id : PeerId
  addr : SocketAddress
  state : PeerState
  reason : Option DisconnectReason
  bestHeight : Nat

namespace Bearing

def raised (heights : List Nat) (b : Bearing) : Bearing :=
  { b with bestHeight := heights.foldl max b.bestHeight }

def ended (reason : DisconnectReason) (b : Bearing) : Bearing :=
  { b with state := .disconnected, reason := b.reason.or (some reason) }

theorem raised_append (older newer : List Nat) (b : Bearing) :
    b.raised (older ++ newer) = (b.raised older).raised newer := by
  simp only [raised, List.foldl_append]

end Bearing

namespace Peer

def bearing (p : Peer) : Bearing :=
  ⟨p.id, p.addr, p.state, p.reason, p.bestHeight⟩

/-- The event that a message raises. When it arrives is of no account. -/
def raises (p : Peer) (x : Message × Bytes) : Option PeerEvent :=
  (p.dispatch 0 x.1 x.2).2

theorem bearing_send (m : Message) (p : Peer) : (p.send m).1.bearing = p.bearing := by
  obtain h | h := Pool.send_cases m p <;> rw [h]
  rfl

theorem bearing_getData (now : Instant) (kind : InventoryKind) (hashes : List Hash) (p : Peer) :
    (p.getData now kind hashes).1.bearing = p.bearing := by
  unfold getData
  split
  · rfl
  · dsimp only
    rw [bearing_send]
    split <;> rfl

theorem bearing_disconnect (reason : DisconnectReason) (p : Peer) :
    (p.disconnect reason).bearing = p.bearing.ended reason :=
  rfl

end Peer

def Message.heights : Message → List Nat
  | headers hs => hs.map Header.height
  | block b => [b.height]
  | _ => []

namespace Peer

theorem bearing_dispatch (now : Instant) (m : Message) (payload : Bytes) (p : Peer) :
    (p.dispatch now m payload).1.bearing = p.bearing.raised m.heights := by
  cases m with
  | headers hs =>
    simp only [dispatch, topHeight?, Message.heights, Bearing.raised, List.foldl_max]
    cases (hs.map Header.height).max? with
    | none => exact congrArg (Bearing.mk p.id p.addr p.state p.reason) (Nat.max_self _).symm
    | some top => rfl
  | inv inventory =>
    obtain ⟨kind, hashes⟩ := inventory
    cases kind with
    | block => exact bearing_getData now .block hashes p
    | tx | consensus => rfl
  | _ => rfl

theorem event_dispatch (now : Instant) (m : Message) (payload : Bytes) (p : Peer) :
    (p.dispatch now m payload).2 = p.raises (m, payload) := by
  unfold raises dispatch
  cases m with
  | inv inventory => cases hkind : inventory.kind <;> simp only [hkind]
  | _ => rfl

theorem raises_congr {p q : Peer} (h : p.id = q.id) : p.raises = q.raises := by
  funext x
  unfold raises dispatch
  cases x.1 with
  | inv inventory => cases hkind : inventory.kind <;> simp only [hkind, h]
  | _ => simp only [h]

theorem raises_ne_disconnected {p : Peer} {x : Message × Bytes} {event : PeerEvent} (h : p.raises x = some event)
    (id : PeerId) (addr : SocketAddress) (reason : DisconnectReason) :
    event ≠ .pool (.disconnected id addr reason) := by
  rintro rfl
  unfold raises dispatch at h
  cases hm : x.1 with
  | inv inventory => cases hkind : inventory.kind <;> simp [hm, hkind] at h
  | _ => simp [hm] at h

end Peer

/-! ## What a stream carries -/

def Packet.messages : List Packet → List (Message × Bytes)
  | [] => []
  | p :: rest =>
    match Message.decode p with
    | .ok m => (m, p.payload) :: messages rest
    | .error _ => []

theorem Packet.messages_append_of_ok {packets : List Packet}
    (h : packets.all fun p => (Message.decode p).isOk) (more : List Packet) :
    messages (packets ++ more) = messages packets ++ messages more := by
  induction packets with
  | nil => rfl
  | cons p packets ih =>
    rw [List.all_cons, Bool.and_eq_true] at h
    cases hm : Message.decode p with
    | error e => simp [hm, Except.isOk, Except.toBool] at h
    | ok m => simp only [List.cons_append, messages, hm, ih h.2]

theorem Packet.messages_append_of_error {packets : List Packet}
    (h : (packets.all fun p => (Message.decode p).isOk) = false) (more : List Packet) :
    messages (packets ++ more) = messages packets := by
  induction packets with
  | nil => cases h
  | cons p packets ih =>
    cases hm : Message.decode p with
    | error e => simp only [List.cons_append, messages, hm]
    | ok m =>
      simp only [List.all_cons, hm, Except.isOk, Except.toBool, Bool.true_and] at h
      simp only [List.cons_append, messages, hm, ih h]

def Frame.Drained.legible (d : Drained) : Bool :=
  d.error.isNone && d.packets.all fun p => (Message.decode p).isOk

namespace Session

variable [Digest] {magic : UInt32}

/-- The messages in front of the first frame or payload that does not decode. -/
def carried (magic : UInt32) (stream : Bytes) : List (Message × Bytes) :=
  Packet.messages (Frame.drain magic stream).packets

def verdict (magic : UInt32) (stream : Bytes) : DisconnectReason :=
  if (Frame.drain magic stream).legible then .closed else .protocolViolation

section Cut

variable {front : Bytes}

theorem carried_append_of_legible (h : (Frame.drain magic front).legible) (more : Bytes) :
    carried magic (front ++ more) = carried magic front ++ carried magic ((Frame.drain magic front).rest ++ more) := by
  rw [Frame.Drained.legible, Bool.and_eq_true, Option.isNone_iff_eq_none] at h
  simp only [carried, Frame.drain_append_of_ok h.1, Packet.messages_append_of_ok h.2]

theorem verdict_append_of_legible (h : (Frame.drain magic front).legible) (more : Bytes) :
    verdict magic (front ++ more) = verdict magic ((Frame.drain magic front).rest ++ more) := by
  rw [Frame.Drained.legible, Bool.and_eq_true, Option.isNone_iff_eq_none] at h
  have hlegible : (Frame.drain magic (front ++ more)).legible =
      (Frame.drain magic ((Frame.drain magic front).rest ++ more)).legible := by
    simp only [Frame.Drained.legible, Frame.drain_append_of_ok h.1, List.all_append, h.2, Bool.true_and]
  rw [verdict, verdict, hlegible]

theorem append_of_not_legible (h : (Frame.drain magic front).legible = false) (more : Bytes) :
    carried magic (front ++ more) = carried magic front ∧ verdict magic (front ++ more) = .protocolViolation := by
  have hsuffices : ∀ {d : Frame.Drained}, Frame.drain magic (front ++ more) = d →
      Packet.messages d.packets = carried magic front → d.legible = false →
      carried magic (front ++ more) = carried magic front ∧ verdict magic (front ++ more) = .protocolViolation := by
    rintro d rfl hcarried hd
    exact ⟨hcarried, by rw [verdict, hd]; rfl⟩
  cases herror : (Frame.drain magic front).error with
  | some e =>
    refine hsuffices (Frame.drain_append_of_error herror more) rfl ?_
    simp only [Frame.Drained.legible, herror, Option.isNone_some, Bool.false_and]
  | none =>
    simp only [Frame.Drained.legible, herror, Option.isNone_none, Bool.true_and] at h
    refine hsuffices (Frame.drain_append_of_ok herror more) (Packet.messages_append_of_error h _) ?_
    simp only [Frame.Drained.legible, List.all_append, h, Bool.false_and, Bool.and_false]

end Cut

section Front

variable {buffer rest : Bytes} {packet : Packet} {m : Message}

theorem of_message (h : Frame.next magic buffer = .packet packet rest) (hm : Message.decode packet = .ok m) :
    carried magic buffer = (m, packet.payload) :: carried magic rest ∧
      (Frame.drain magic buffer).legible = (Frame.drain magic rest).legible ∧
      (Frame.drain magic buffer).rest = (Frame.drain magic rest).rest := by
  simp only [carried, Frame.Drained.legible, Frame.drain_of_packet h, Packet.messages, hm, List.all_cons, Except.isOk,
    Except.toBool, Bool.true_and, and_self]

theorem of_not_message {stop : Stop} (h : Frame.next magic buffer = .packet packet rest)
    (hm : Message.decode packet = .error stop) :
    carried magic buffer = [] ∧ (Frame.drain magic buffer).legible = false := by
  simp only [carried, Frame.Drained.legible, Frame.drain_of_packet h, Packet.messages, hm, List.all_cons, Except.isOk,
    Except.toBool, Bool.false_and, Bool.and_false, and_self]

end Front

/-! ## Reading what has arrived -/

section
omit [Digest]

theorem readReason_judge {head : Frame.Head} {e : NetError} (h : head.judge magic = .error e) :
    readReason e = .protocolViolation := by
  unfold Frame.Head.judge at h
  split at h
  · cases h
    rfl
  · split at h
    · rename_i hcommand
      cases h
      simp only [Frame.commandOfField] at hcommand
      split at hcommand
      · cases hcommand
        rfl
      · split at hcommand <;> cases hcommand
        rfl
    · split at h <;> cases h
      rfl

theorem readReason_messageOf {packet : Packet} {stop : Stop} (h : Message.decode packet = .error stop) :
    ∃ e, Connection.messageOf packet = .error e ∧ readReason e = .protocolViolation := by
  refine ⟨.ofStop stop, by rw [Connection.messageOf, h]; rfl, ?_⟩
  cases stop <;> rfl

end

theorem readReason_next {buffer rest : Bytes} {e : NetError} (h : Frame.next magic buffer = .fail e rest) :
    readReason e = .protocolViolation := by
  have look := Frame.look_next magic buffer
  rw [h] at look
  generalize hs : Frame.Step.fail e rest = step at look
  cases look with
  | short | unfinished => cases hs
  | refused _ hj =>
    cases hs
    exact readReason_judge hj
  | @whole command =>
    obtain hc | ⟨want, got, hc⟩ := (Frame.Head.ofBytes buffer).conclude_cases command
      ((buffer.drop Frame.headSize).take (Frame.Head.ofBytes buffer).length)
      (buffer.drop (Frame.headSize + (Frame.Head.ofBytes buffer).length))
    · rw [hc] at hs
      cases hs
    · rw [hc] at hs
      cases hs
      rfl

inductive Looking : ReaderState → Prop
  | filled : Looking .filled
  | closing : Looking .closing

section

variable {st : ReaderState} {buffer rest : Bytes} {packet : Packet}

theorem poll_packet (hst : Looking st) (h : Frame.next magic buffer = .packet packet rest) :
    (⟨magic, buffer, st⟩ : FrameReader).poll = (⟨magic, rest, st⟩, .packet packet) := by
  cases hst <;> simp only [FrameReader.poll, h]

theorem poll_failure {e : NetError} (hst : Looking st) (h : Frame.next magic buffer = .fail e rest) :
    ∃ reader, (⟨magic, buffer, st⟩ : FrameReader).poll = (reader, .failure e) := by
  cases hst
  · exact ⟨⟨magic, rest, .failed false⟩, by simp only [FrameReader.poll, h]⟩
  · exact ⟨⟨magic, rest, .failed true⟩, by simp only [FrameReader.poll, h]⟩

end

def behind (events : List PeerEvent) (x : Session × List PeerEvent × Option NetError) :
    Session × List PeerEvent × Option NetError :=
  (x.1, events ++ x.2.1, x.2.2)

section

variable {now : Instant} {st : ReaderState} {buffer : Bytes}

theorem readOn_message {rest : Bytes} {packet : Packet} {m : Message} (hst : Looking st)
    (h : Frame.next magic buffer = .packet packet rest) (hm : Message.decode packet = .ok m) (p : Peer) (w : Bool) :
    (⟨p, ⟨magic, buffer, st⟩, w⟩ : Session).readOn now =
      behind (p.raises (m, packet.payload)).toList
        ((⟨(p.dispatch now m packet.payload).1, ⟨magic, rest, st⟩, w⟩ : Session).readOn now) := by
  rw [readOn, poll_packet hst h]
  simp only [Connection.messageOf, hm, Except.mapError, Peer.event_dispatch]
  rfl

theorem readOn_failure {e : NetError} {reader reader' : FrameReader} (h : reader.poll = (reader', .failure e))
    (p : Peer) (w : Bool) : (⟨p, reader, w⟩ : Session).readOn now = (⟨p, reader', w⟩, [], some e) := by
  rw [readOn, h]

theorem readOn_of_legible (now : Instant) (hst : Looking st) (h : (Frame.drain magic buffer).legible) (p : Peer)
    (w : Bool) :
    ∃ q : Peer, q.bearing = p.bearing.raised ((carried magic buffer).flatMap (·.1.heights)) ∧
      (⟨p, ⟨magic, buffer, st⟩, w⟩ : Session).readOn now =
        behind ((carried magic buffer).filterMap p.raises)
          ((⟨q, ⟨magic, (Frame.drain magic buffer).rest, st⟩, w⟩ : Session).readOn now) := by
  -- frame by frame, the rest being read with what the dispatch has made of the peer
  induction buffer using Frame.drain.induct magic generalizing p with
  | case1 buffer hn =>
    have hd := Frame.drain_of_wait hn
    exact ⟨p, by simp only [carried, hd]; rfl, by simp only [carried, hd]; rfl⟩
  | case2 buffer e rest hn => simp [Frame.drain_of_fail hn, Frame.Drained.legible] at h
  | case3 buffer packet rest hn ih =>
    cases hm : Message.decode packet with
    | error stop =>
      rw [(of_not_message hn hm).2] at h
      cases h
    | ok m =>
      obtain ⟨hcarried, hlegible, hrest⟩ := of_message hn hm
      rw [hlegible] at h
      have hdispatch := Peer.bearing_dispatch now m packet.payload p
      obtain ⟨q, hq, hread⟩ := ih h (p.dispatch now m packet.payload).1
      refine ⟨q, ?_, ?_⟩
      · rw [hq, hdispatch, hcarried, List.flatMap_cons, Bearing.raised_append]
      · have hraises : (p.dispatch now m packet.payload).1.raises = p.raises :=
          Peer.raises_congr (congrArg Bearing.id hdispatch)
        rw [readOn_message hst hn hm, hread, hraises, hcarried, hrest, List.filterMap_cons]
        cases p.raises (m, packet.payload) <;> rfl

theorem readOn_of_not_legible (now : Instant) (hst : Looking st) (h : (Frame.drain magic buffer).legible = false)
    (p : Peer) (w : Bool) :
    ∃ (q : Peer) (reader : FrameReader) (e : NetError),
      q.bearing = p.bearing.raised ((carried magic buffer).flatMap (·.1.heights)) ∧
      readReason e = .protocolViolation ∧
      (⟨p, ⟨magic, buffer, st⟩, w⟩ : Session).readOn now =
        (⟨q, reader, w⟩, (carried magic buffer).filterMap p.raises, some e) := by
  induction buffer using Frame.drain.induct magic generalizing p with
  | case1 buffer hn => simp [Frame.drain_of_wait hn, Frame.Drained.legible] at h
  | case2 buffer e rest hn =>
    have hd := Frame.drain_of_fail hn
    obtain ⟨reader, hpoll⟩ := poll_failure hst hn
    refine ⟨p, reader, e, by simp only [carried, hd]; rfl, readReason_next hn, ?_⟩
    rw [readOn_failure hpoll]
    simp only [carried, hd]
    rfl
  | case3 buffer packet rest hn ih =>
    cases hm : Message.decode packet with
    | error stop =>
      obtain ⟨e, hmessage, hreason⟩ := readReason_messageOf hm
      have hcarried := (of_not_message hn hm).1
      refine ⟨p, ⟨magic, rest, st⟩, e, by rw [hcarried]; rfl, hreason, ?_⟩
      rw [readOn, poll_packet hst hn, hcarried]
      simp only [hmessage, List.filterMap_nil]
    | ok m =>
      obtain ⟨hcarried, hlegible, -⟩ := of_message hn hm
      rw [hlegible] at h
      have hdispatch := Peer.bearing_dispatch now m packet.payload p
      obtain ⟨q, reader, e, hq, hreason, hread⟩ := ih h (p.dispatch now m packet.payload).1
      refine ⟨q, reader, e, ?_, hreason, ?_⟩
      · rw [hq, hdispatch, hcarried, List.flatMap_cons, Bearing.raised_append]
      · have hraises : (p.dispatch now m packet.payload).1.raises = p.raises :=
          Peer.raises_congr (congrArg Bearing.id hdispatch)
        rw [readOn_message hst hn hm, hread, hraises, hcarried, List.filterMap_cons]
        cases p.raises (m, packet.payload) <;> rfl

end

/-! ## The whole stream -/

inductive Input
  | chunk (now : Instant) (bs : Bytes)
  | flush
  /-- Anything that the node does to the peer but to disconnect it. -/
  | touch (f : Peer → Peer) (hf : ∀ p, (f p).bearing = p.bearing)

namespace Input

def bytes : Input → Bytes
  | chunk _ bs => bs
  | flush | touch .. => []

def run (s : Session) : Input → Session × List PeerEvent
  | chunk now bs => s.arrive now bs
  | flush => (s.flush.1, s.flush.2.events)
  | touch f _ => ({ s with peer := f s.peer }, [])

end Input

def runToEnd (now : Instant) : List Input → Session → Session × List PeerEvent
  | [], s => s.arriveEnd now
  | input :: inputs, s =>
    let (s, events) := input.run s
    let (s, more) := s.runToEnd now inputs
    (s, events ++ more)

structure Ends (magic : UInt32) (stream : Bytes) (p : Peer) (x : Session × List PeerEvent) : Prop where
  bearing : x.1.peer.bearing =
    (p.bearing.raised ((carried magic stream).flatMap (·.1.heights))).ended (verdict magic stream)
  events : x.2 = (carried magic stream).filterMap p.raises ++
    [.pool (.disconnected p.id p.addr (verdict magic stream))]

section

variable {st : ReaderState} {buffer : Bytes} {p : Peer}

omit [Digest] in
theorem finish_running {q : Peer} {heights : List Nat} (hstate : p.state = .active) (hreason : p.reason = none)
    (hq : q.bearing = p.bearing.raised heights) (reason : DisconnectReason) (reader : FrameReader) (w : Bool) :
    (⟨q, reader, w⟩ : Session).finish reason =
      (⟨q.disconnect reason, reader, w⟩, [.pool (.disconnected p.id p.addr reason)]) := by
  have hqid : q.id = p.id := congrArg Bearing.id hq
  have hqaddr : q.addr = p.addr := congrArg Bearing.addr hq
  have hqstate : q.state = p.state := congrArg Bearing.state hq
  have hqreason : q.reason = p.reason := congrArg Bearing.reason hq
  simp only [finish, hqstate, hstate, reduceCtorEq, if_false, Peer.disconnect, hqid, hqaddr, hqreason, hreason,
    Option.none_or, Option.getD_some]

theorem read_of_legible (now : Instant) (h : (Frame.drain magic buffer).legible) (p : Peer) (w : Bool) :
    ∃ q : Peer, q.bearing = p.bearing.raised ((carried magic buffer).flatMap (·.1.heights)) ∧
      (⟨p, ⟨magic, buffer, .filled⟩, w⟩ : Session).read now =
        (⟨q, ⟨magic, (Frame.drain magic buffer).rest, .hungry⟩, w⟩, (carried magic buffer).filterMap p.raises) := by
  obtain ⟨q, hq, hread⟩ := readOn_of_legible now .filled h p w
  refine ⟨q, hq, ?_⟩
  rw [Frame.Drained.legible, Bool.and_eq_true, Option.isNone_iff_eq_none] at h
  have hpoll : (⟨magic, (Frame.drain magic buffer).rest, .filled⟩ : FrameReader).poll =
      (⟨magic, (Frame.drain magic buffer).rest, .hungry⟩, .waiting) := by
    simp only [FrameReader.poll, Frame.next_rest_drain magic buffer h.1]
  rw [read, hread, readOn, hpoll]
  simp only [behind, List.append_nil]

theorem read_of_not_legible (now : Instant) (hst : Looking st) (h : (Frame.drain magic buffer).legible = false)
    (hstate : p.state = .active) (hreason : p.reason = none) (w : Bool) (more : Bytes) :
    Ends magic (buffer ++ more) p ((⟨p, ⟨magic, buffer, st⟩, w⟩ : Session).read now) := by
  obtain ⟨q, reader, e, hq, hviolation, hread⟩ := readOn_of_not_legible now hst h p w
  obtain ⟨hcarried, hverdict⟩ := append_of_not_legible h more
  have hfinish := finish_running hstate hreason hq .protocolViolation reader w
  rw [read, hread]
  simp only [hviolation, hfinish]
  exact ⟨by rw [hcarried, hverdict, Peer.bearing_disconnect, hq], by rw [hcarried, hverdict]⟩

/-- An unfinished frame makes the end a failure to read, but none that the remote is blamed for. -/
theorem readOn_closing (now : Instant) (h : Frame.next magic buffer = .wait) (p : Peer) (w : Bool) :
    ∃ reader e, readReason e = .closed ∧
      (⟨p, ⟨magic, buffer, .closing⟩, w⟩ : Session).readOn now = (⟨p, reader, w⟩, [], some e) := by
  by_cases hempty : buffer.isEmpty
  · have hpoll : (⟨magic, buffer, .closing⟩ : FrameReader).poll = (⟨magic, buffer, .closed⟩, .ended) := by
      simp only [FrameReader.poll, h, FrameReader.close, hempty, if_true]
    exact ⟨_, .connectionClosed, rfl, by rw [readOn, hpoll]⟩
  · have hpoll : (⟨magic, buffer, .closing⟩ : FrameReader).poll =
        (⟨magic, buffer, .failed true⟩, .failure (.io "Other")) := by
      simp only [FrameReader.poll, h, FrameReader.close, hempty, Bool.false_eq_true, if_false]
    exact ⟨_, .io "Other", rfl, readOn_failure hpoll p w⟩

theorem ends_arriveEnd (now : Instant) (hstate : p.state = .active) (hreason : p.reason = none) (w : Bool) :
    Ends magic buffer p ((⟨p, ⟨magic, buffer, st⟩, w⟩ : Session).arriveEnd now) := by
  simp only [arriveEnd, hstate, reduceCtorEq, if_false, FrameReader.atEnd]
  cases h : (Frame.drain magic buffer).legible with
  | false =>
    have hends := read_of_not_legible now .closing h hstate hreason w []
    rwa [List.append_nil] at hends
  | true =>
    obtain ⟨q, hq, hread⟩ := readOn_of_legible now .closing h p w
    have hverdict : verdict magic buffer = .closed := by rw [verdict, h]; rfl
    rw [Frame.Drained.legible, Bool.and_eq_true, Option.isNone_iff_eq_none] at h
    obtain ⟨reader, e, hclosed, hlast⟩ := readOn_closing now (Frame.next_rest_drain magic buffer h.1) q w
    have hfinish := finish_running hstate hreason hq .closed reader w
    rw [read, hread, hlast]
    simp only [behind, hclosed, hfinish, List.append_nil]
    exact ⟨by rw [hverdict, Peer.bearing_disconnect, hq], by rw [hverdict]⟩

theorem runToEnd_of_over (now : Instant) (inputs : List Input) {s : Session} (h : s.peer.state = .disconnected) :
    (s.runToEnd now inputs).1.peer.bearing = s.peer.bearing ∧ (s.runToEnd now inputs).2 = [] := by
  induction inputs generalizing s with
  | nil => simp only [runToEnd, arriveEnd, h, if_true, and_self]
  | cons input inputs ih =>
    have hstep : (input.run s).1.peer.bearing = s.peer.bearing ∧ (input.run s).2 = [] := by
      cases input with
      | chunk now bs => simp only [Input.run, arrive, h, if_true, and_self]
      | flush => simp [Input.run, Session.flush, h]
      | touch f hf => exact ⟨hf s.peer, rfl⟩
    have hover : (input.run s).1.peer.state = .disconnected := (congrArg Bearing.state hstep.1).trans h
    obtain ⟨hbearing, hevents⟩ := ih hover
    exact ⟨hbearing.trans hstep.1, by simp only [runToEnd, hstep.2, hevents, List.append_nil]⟩

omit [Digest] in
theorem flush_running (hstate : p.state = .active) (reader : FrameReader) :
    ∃ q : Peer, q.bearing = p.bearing ∧ (⟨p, reader, true⟩ : Session).flush.1 = ⟨q, reader, true⟩ ∧
      (⟨p, reader, true⟩ : Session).flush.2.events = [] := by
  unfold Session.flush
  by_cases hempty : p.outbox.isEmpty
  · exact ⟨p, rfl, by simp [hempty], by simp [hempty]⟩
  · exact ⟨p.drain.1, rfl, by simp [hstate, hempty], by simp [hstate, hempty]⟩

theorem Ends.behind_legible {q : Peer} {more : Bytes} {x : Session × List PeerEvent}
    (h : (Frame.drain magic buffer).legible)
    (hq : q.bearing = p.bearing.raised ((carried magic buffer).flatMap (·.1.heights)))
    (hends : Ends magic ((Frame.drain magic buffer).rest ++ more) q x) :
    Ends magic (buffer ++ more) p (x.1, (carried magic buffer).filterMap p.raises ++ x.2) := by
  have hraises : q.raises = p.raises := Peer.raises_congr (congrArg Bearing.id hq)
  have hqid : q.id = p.id := congrArg Bearing.id hq
  have hqaddr : q.addr = p.addr := congrArg Bearing.addr hq
  constructor
  · rw [hends.bearing, hq, carried_append_of_legible h, verdict_append_of_legible h, List.flatMap_append,
      Bearing.raised_append]
  · rw [hends.events, hraises, hqid, hqaddr, carried_append_of_legible h, verdict_append_of_legible h,
      List.filterMap_append, List.append_assoc]

theorem Ends.of_bearing {q : Peer} {stream : Bytes} {x : Session × List PeerEvent} (hq : q.bearing = p.bearing)
    (hends : Ends magic stream q x) : Ends magic stream p x := by
  have hraises : q.raises = p.raises := Peer.raises_congr (congrArg Bearing.id hq)
  have hqid : q.id = p.id := congrArg Bearing.id hq
  have hqaddr : q.addr = p.addr := congrArg Bearing.addr hq
  exact ⟨by rw [hends.bearing, hq], by rw [hends.events, hraises, hqid, hqaddr]⟩

theorem ends_runToEnd (now : Instant) (inputs : List Input) (hstate : p.state = .active) (hreason : p.reason = none) :
    Ends magic (buffer ++ inputs.flatMap Input.bytes) p
      ((⟨p, ⟨magic, buffer, st⟩, true⟩ : Session).runToEnd now inputs) := by
  -- the buffer always holds what has arrived and was not dispatched
  induction inputs generalizing p buffer st with
  | nil =>
    rw [List.flatMap_nil, List.append_nil]
    exact ends_arriveEnd now hstate hreason true
  | cons input inputs ih =>
    cases input with
    | chunk at_ bs =>
      have harrive : (⟨p, ⟨magic, buffer, st⟩, true⟩ : Session).arrive at_ bs =
          (⟨p, ⟨magic, buffer ++ bs, .filled⟩, true⟩ : Session).read at_ := by
        simp only [arrive, hstate, reduceCtorEq, if_false, FrameReader.feed]
      rw [List.flatMap_cons, ← List.append_assoc]
      simp only [runToEnd, Input.run, Input.bytes, harrive]
      cases h : (Frame.drain magic (buffer ++ bs)).legible with
      | true =>
        obtain ⟨q, hq, hread⟩ := read_of_legible at_ h p true
        have hqstate : q.state = .active := (congrArg Bearing.state hq).trans hstate
        have hqreason : q.reason = none := (congrArg Bearing.reason hq).trans hreason
        rw [hread]
        exact (ih hqstate hqreason).behind_legible h hq
      | false =>
        have hends := read_of_not_legible at_ .filled h hstate hreason true (inputs.flatMap Input.bytes)
        obtain ⟨hbearing, hevents⟩ := runToEnd_of_over now inputs (congrArg Bearing.state hends.bearing)
        exact ⟨hbearing.trans hends.bearing, by rw [hevents, List.append_nil, hends.events]⟩
    | flush =>
      obtain ⟨q, hq, hflush, hevents⟩ := flush_running hstate ⟨magic, buffer, st⟩
      have hqstate : q.state = .active := (congrArg Bearing.state hq).trans hstate
      have hqreason : q.reason = none := (congrArg Bearing.reason hq).trans hreason
      simp only [runToEnd, Input.run, hflush, hevents, List.nil_append]
      exact (ih hqstate hqreason).of_bearing hq
    | touch f hf =>
      have hqstate : (f p).state = .active := (congrArg Bearing.state (hf p)).trans hstate
      have hqreason : (f p).reason = none := (congrArg Bearing.reason (hf p)).trans hreason
      simp only [runToEnd, Input.run, List.nil_append]
      exact (ih hqstate hqreason).of_bearing (hf p)

end

/-- Whatever an active session receives, and in whatever pieces, it dispatches the messages in front of the first frame
or payload that does not decode, then says once that it is over, and why. -/
theorem events_of_stream (now : Instant) (inputs : List Input) {p : Peer} (hstate : p.state = .active)
    (hreason : p.reason = none) (reader : FrameReader) :
    let stream := reader.buffer ++ inputs.flatMap Input.bytes
    let messages := carried reader.magic stream
    let reason := verdict reader.magic stream
    let (s, events) := (⟨p, reader, true⟩ : Session).runToEnd now inputs
    events = messages.filterMap p.raises ++ [.pool (.disconnected p.id p.addr reason)] ∧
    (∀ x ∈ messages, ∀ event, p.raises x = some event →
      ∀ id addr why, event ≠ .pool (.disconnected id addr why)) ∧
    s.peer.state = .disconnected ∧ s.peer.reason = some reason ∧
    s.peer.bestHeight = (messages.flatMap (·.1.heights)).foldl max p.bestHeight := by
  have hends : Ends reader.magic (reader.buffer ++ inputs.flatMap Input.bytes) p
      ((⟨p, reader, true⟩ : Session).runToEnd now inputs) := ends_runToEnd now inputs hstate hreason
  refine ⟨hends.events, fun x _ event h => Peer.raises_ne_disconnected h, ?_, ?_, ?_⟩
  · exact congrArg Bearing.state hends.bearing
  · refine (congrArg Bearing.reason hends.bearing).trans ?_
    simp only [Bearing.ended, Bearing.raised, Peer.bearing, hreason, Option.none_or]
  · exact congrArg Bearing.bestHeight hends.bearing

end Session

namespace Session

/-- A request cut in two is dispatched once, and nothing is behind a frame of another network. -/
theorem events_of_stream_violation :
    let p : Peer := { Peer.connecting 7 (.ofIp (.v4 (.ofNat 0x0A000007)) 10333) true 0 with state := .active }
    let frame := [1, 0, 0, 0] ++ Bytes.ofString "getaddr" ++ List.replicate 9 0 ++ [0x5D, 0xF6, 0xE0, 0xE2]
    let inputs := [.chunk 0 (frame.take 10), .flush, .chunk 1 (frame.drop 10 ++ List.replicate 24 0 ++ frame)]
    p.state = .active ∧ p.reason = none ∧
    ((⟨p, ⟨1, [], .hungry⟩, true⟩ : Session).runToEnd 2 inputs).2 =
      [.pool (.addressRequest 7), .pool (.disconnected 7 p.addr .protocolViolation)] := by
  intro p frame inputs
  have hcarried : carried 1 (inputs.flatMap Input.bytes) = [(.getaddr, [])] := by decide +kernel
  have hverdict : verdict 1 (inputs.flatMap Input.bytes) = .protocolViolation := by decide +kernel
  obtain ⟨hevents, -⟩ := events_of_stream 2 inputs (p := p) rfl rfl ⟨1, [], .hungry⟩
  rw [List.nil_append, hcarried, hverdict] at hevents
  exact ⟨rfl, rfl, hevents⟩

end Session

end ChainSync
