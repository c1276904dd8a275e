import ChainSync.Peer.Exchange
import ChainSync.Proofs.Framing
import ChainSync.Proofs.Messages

/-!
# Reading what was written

A frame that was written is read as one, wherever it was cut. A connection on
which nothing went wrong (`Intact`) hands out the first frame of all that has
arrived once it is whole, and an exchange moves by it. A version that fits a
frame is read as it was written, and so is a `verack`.
-/

namespace ChainSync

/-! ## Frames in front of a stream -/

namespace Frame

theorem length_commandField (command : String) : (commandField command).length = commandSize := by
  have hle : ((Bytes.ofString command).take commandSize).length ≤ commandSize := List.length_take_le ..
  unfold commandField
  rw [List.length_append, List.length_replicate]
  omega

theorem Head.ofBytes_fields {magic command length sum : Bytes} (hmagic : magic.length = 4)
    (hcommand : command.length = 12) (hlength : length.length = 4) (hsum : sum.length = 4) (rest : Bytes) :
    Head.ofBytes (magic ++ (command ++ (length ++ (sum ++ rest)))) =
      ⟨(Bytes.toNatLE magic).toUInt32, command, Bytes.toNatLE length, sum⟩ ∧
    (magic ++ (command ++ (length ++ (sum ++ rest)))).drop headSize = rest := by
  have h4 : (magic ++ (command ++ (length ++ (sum ++ rest)))).drop 4 = command ++ (length ++ (sum ++ rest)) :=
    List.drop_left' hmagic
  have h16 : (magic ++ (command ++ (length ++ (sum ++ rest)))).drop 16 = length ++ (sum ++ rest) := by
    rw [show 16 = 4 + 12 from rfl, ← List.drop_drop, h4, List.drop_left' hcommand]
  have h20 : (magic ++ (command ++ (length ++ (sum ++ rest)))).drop 20 = sum ++ rest := by
    rw [show 20 = 16 + 4 from rfl, ← List.drop_drop, h16, List.drop_left' hlength]
  constructor
  · unfold Head.ofBytes
    rw [h4, h16, h20, List.take_left' hmagic, List.take_left' hcommand, List.take_left' hlength, List.take_left' hsum]
  · rw [show headSize = 20 + 4 from rfl, ← List.drop_drop, h20, List.drop_left' hsum]

variable [Digest] {magic : UInt32} {p : Packet}

theorem length_checksum (payload : Bytes) : (checksum payload).length = 4 := by
  rw [checksum, List.length_take, FixedBytes.length_bytes]
  rfl

theorem ofBytes_encode {frame : Bytes} (hframe : encode magic p = .ok frame) (rest : Bytes) :
    Head.ofBytes (frame ++ rest) = ⟨magic, commandField p.command, p.payload.length, checksum p.payload⟩ ∧
      (frame ++ rest).drop headSize = p.payload ++ rest ∧
      frame.length = headSize + p.payload.length ∧ p.payload.length ≤ maxPayload := by
  unfold encode at hframe
  dsimp only at hframe
  split at hframe
  · cases hframe
  rename_i hsize
  cases hframe
  have hlength : Bytes.toNatLE (Bytes.ofNatLE 4 p.payload.length) = p.payload.length := by
    refine Bytes.toNatLE_ofNatLE 4 _ ?_
    simp only [maxPayload] at hsize
    omega
  have hmagic : (Bytes.toNatLE (Bytes.ofNatLE 4 magic.toNat)).toUInt32 = magic := by
    rw [Bytes.toNatLE_ofNatLE 4 _ magic.toNat_lt, Nat.toUInt32, UInt32.ofNat_toNat]
  simp only [List.append_assoc]
  obtain ⟨hhead, hdrop⟩ := Head.ofBytes_fields (Bytes.length_ofNatLE 4 magic.toNat) (length_commandField p.command)
    (Bytes.length_ofNatLE 4 p.payload.length) (length_checksum p.payload) (p.payload ++ rest)
  refine ⟨by rw [hhead, hlength, hmagic], hdrop, ?_, Nat.not_lt.1 hsize⟩
  simp only [List.length_append, Bytes.length_ofNatLE, length_commandField, length_checksum, headSize, commandSize]
  omega

theorem next_encode {frame : Bytes} (hframe : encode magic p = .ok frame)
    (hcommand : commandOfField (commandField p.command) = .ok p.command) (rest : Bytes) :
    next magic (frame ++ rest) = .packet p rest := by
  obtain ⟨hhead, hdrop, hlength, hsize⟩ := ofBytes_encode hframe rest
  have hjudged : (Head.ofBytes (frame ++ rest)).judge magic = .ok p.command := by
    rw [hhead]
    simp only [Head.judge, ne_eq, not_true_eq_false, if_false, hcommand, Nat.not_lt.2 hsize]
  have hwhole : headSize + (Head.ofBytes (frame ++ rest)).length ≤ (frame ++ rest).length := by
    rw [hhead, List.length_append, hlength]
    exact Nat.le_add_right ..
  rw [(Look.whole hjudged hwhole).next_eq, ← List.drop_drop, hdrop, hhead]
  dsimp only
  rw [List.take_left, List.drop_left, Head.conclude, checkSum, if_pos rfl]

def stream (magic : UInt32) (ms : List Message) : Bytes :=
  ms.flatMap fun m => (encode magic m.toPacket).toOption.getD []

theorem stream_append (magic : UInt32) (ms ms' : List Message) :
    stream magic (ms ++ ms') = stream magic ms ++ stream magic ms' :=
  List.flatMap_append

theorem stream_singleton {m : Message} {frame : Bytes} (hframe : encode magic m.toPacket = .ok frame) :
    stream magic [m] = frame := by
  unfold stream
  rw [List.flatMap_singleton, hframe]
  rfl

theorem next_of_stream {m : Message} {frame here coming : Bytes} {ms : List Message}
    (hframe : encode magic m.toPacket = .ok frame)
    (hcommand : commandOfField (commandField m.command.name) = .ok m.command.name)
    (hbytes : here ++ coming = stream magic (m :: ms)) :
    next magic here = .wait ∧ coming ≠ [] ∨
      ∃ rest, next magic here = .packet m.toPacket rest ∧ rest ++ coming = stream magic ms := by
  have hwhole : next magic (here ++ coming) = .packet m.toPacket (stream magic ms) := by
    rw [hbytes, ← List.singleton_append, stream_append, stream_singleton hframe]
    exact next_encode hframe hcommand _
  by_cases hwait : next magic here = .wait
  · refine Or.inl ⟨hwait, ?_⟩
    rintro rfl
    rw [List.append_nil, hwait] at hwhole
    cases hwhole
  · rw [next_append hwait] at hwhole
    cases hnext : next magic here with
    | wait => exact absurd hnext hwait
    | fail e rest =>
      rw [hnext] at hwhole
      cases hwhole
    | packet p rest =>
      rw [hnext] at hwhole
      injection hwhole with hp hrest
      exact Or.inr ⟨rest, by rw [hp], hrest⟩

end Frame

/-! ## Connections on which nothing went wrong -/

variable [Digest]

namespace FrameReader

theorem magic_poll (r : FrameReader) : r.poll.1.magic = r.magic := by
  unfold poll close
  repeat' split
  all_goals rfl

theorem magic_pollAtEnd (r : FrameReader) : r.pollAtEnd.1.magic = r.magic := by
  unfold pollAtEnd
  split
  · rfl
  · exact magic_poll _

end FrameReader

namespace Connection

def unread (c : Connection) : Bytes :=
  c.reader.buffer ++ c.arrived

structure Intact (magic : UInt32) (c : Connection) : Prop where
  network : c.reader.magic = magic
  sending : c.remote = .sending
  writable : c.writable = true
  /-- A reader that will not look has seen that there is nothing. -/
  state : c.reader.state = .filled ∨ c.reader.state = .hungry ∧ Frame.next magic c.reader.buffer = .wait

variable {magic : UInt32} {c : Connection}

theorem Intact.deliver (h : c.Intact magic) (bs : Bytes) : (c.deliver bs).Intact magic :=
  ⟨h.network, h.sending, h.writable, h.state⟩

omit [Digest] in
theorem unread_deliver (bs : Bytes) (c : Connection) : (c.deliver bs).unread = c.unread ++ bs :=
  (List.append_assoc ..).symm

theorem Intact.send_eq (h : c.Intact magic) {m : Message} {frame : Bytes}
    (hframe : Frame.encode magic m.toPacket = .ok frame) : c.send m = (c, .ok frame) := by
  unfold send
  rw [h.network, hframe]
  dsimp only
  rw [if_pos h.writable]

theorem send_eq_ok {m : Message} {c' : Connection} {bs : Bytes} (hsent : c.send m = (c', .ok bs)) :
    c' = c ∧ Frame.encode c.reader.magic m.toPacket = .ok bs := by
  unfold send at hsent
  cases hframe : Frame.encode c.reader.magic m.toPacket with
  | error e =>
    rw [hframe] at hsent
    cases hsent
  | ok frame =>
    rw [hframe] at hsent
    dsimp only at hsent
    split at hsent
    · cases hsent
      exact ⟨rfl, rfl⟩
    · cases hsent

theorem Intact.poll_reader (h : c.Intact magic) :
    c.reader.poll = (match Frame.next magic c.reader.buffer with
      | .wait => ({ c.reader with state := .hungry }, .waiting)
      | .packet p rest => ({ c.reader with buffer := rest }, .packet p)
      | .fail e rest => ({ c.reader with buffer := rest, state := .failed false }, .failure e)) := by
  obtain ⟨addr, ⟨network, buffer, state⟩, arrived, remote, writable, unsent, split⟩ := c
  obtain ⟨rfl, -, -, hstate⟩ := h
  rcases hstate with hfilled | ⟨hhungry, hwait⟩
  · obtain rfl : state = .filled := hfilled
    rfl
  · obtain rfl : state = .hungry := hhungry
    rw [hwait]
    rfl

theorem pollEnd_of_sending (h : c.remote = .sending) : c.pollEnd = (c, .waiting) := by
  unfold pollEnd
  rw [h]

theorem Intact.poll_of_wait (h : c.Intact magic) (hwait : Frame.next magic c.unread = .wait) :
    ∃ c', c.poll = (c', .waiting) ∧ c'.Intact magic ∧ c'.unread = c.unread := by
  have hbuffer : Frame.next magic c.reader.buffer = .wait := by
    cases hbuffer : Frame.next magic c.reader.buffer with
    | wait => rfl
    | packet | fail =>
      have hlonger := Frame.next_append (by rw [hbuffer]; nofun) c.arrived
      rw [show Frame.next magic (c.reader.buffer ++ c.arrived) = .wait from hwait, hbuffer] at hlonger
      cases hlonger
  unfold poll
  rw [h.poll_reader, hbuffer]
  dsimp only
  by_cases hempty : c.arrived.isEmpty = true
  · rw [if_pos hempty]
    exact ⟨_, pollEnd_of_sending h.sending, ⟨h.network, h.sending, h.writable, Or.inr ⟨rfl, hbuffer⟩⟩, rfl⟩
  · rw [if_neg hempty]
    have hfed : (FrameReader.feed c.arrived { c.reader with state := .hungry }).poll =
        ({ c.reader with buffer := c.unread, state := .hungry }, .waiting) := by
      unfold FrameReader.feed FrameReader.poll
      dsimp only
      rw [h.network, show Frame.next magic (c.reader.buffer ++ c.arrived) = .wait from hwait]
      rfl
    rw [hfed]
    exact ⟨_, pollEnd_of_sending h.sending, ⟨h.network, h.sending, h.writable, Or.inr ⟨rfl, hwait⟩⟩,
      List.append_nil _⟩

theorem Intact.poll_of_packet (h : c.Intact magic) {p : Packet} {rest : Bytes}
    (hpacket : Frame.next magic c.unread = .packet p rest) :
    ∃ c', c.poll = (c', .packet p) ∧ c'.Intact magic ∧ c'.unread = rest := by
  have hunread : Frame.next magic (c.reader.buffer ++ c.arrived) = .packet p rest := hpacket
  unfold poll
  rw [h.poll_reader]
  cases hbuffer : Frame.next magic c.reader.buffer with
  | wait =>
    -- the frame is whole only with what has arrived since
    dsimp only
    have hmore : ¬c.arrived.isEmpty = true := by
      intro hempty
      rw [List.isEmpty_iff.1 hempty, List.append_nil, hbuffer] at hunread
      cases hunread
    rw [if_neg hmore]
    have hfed : (FrameReader.feed c.arrived { c.reader with state := .hungry }).poll =
        ({ c.reader with buffer := rest, state := .filled }, .packet p) := by
      unfold FrameReader.feed FrameReader.poll
      dsimp only
      rw [h.network, hunread]
    rw [hfed]
    exact ⟨_, rfl, ⟨h.network, h.sending, h.writable, Or.inl rfl⟩, List.append_nil _⟩
  | packet p' rest' =>
    have hlonger := Frame.next_append (by rw [hbuffer]; nofun) c.arrived
    rw [hunread, hbuffer] at hlonger
    injection hlonger with hp hrest
    subst hp hrest
    have hfilled : c.reader.state = .filled := by
      obtain hfilled | ⟨-, hwait⟩ := h.state
      · exact hfilled
      · rw [hbuffer] at hwait
        cases hwait
    exact ⟨_, rfl, ⟨h.network, h.sending, h.writable, Or.inl hfilled⟩, rfl⟩
  | fail e rest' =>
    have hlonger := Frame.next_append (by rw [hbuffer]; nofun) c.arrived
    rw [hunread, hbuffer] at hlonger
    cases hlonger

/-! The network never changes. -/

theorem magic_pollEnd (c : Connection) : c.pollEnd.1.reader.magic = c.reader.magic := by
  unfold pollEnd
  split
  · rfl
  · exact FrameReader.magic_pollAtEnd c.reader
  · rfl

theorem magic_poll (c : Connection) : c.poll.1.reader.magic = c.reader.magic := by
  have hfirst := FrameReader.magic_poll c.reader
  unfold poll
  split
  · rename_i r hr
    rw [hr] at hfirst
    split
    · exact (magic_pollEnd _).trans hfirst
    · have hnext := FrameReader.magic_poll (r.feed c.arrived)
      split
      · rename_i r' hr'
        rw [hr'] at hnext
        exact (magic_pollEnd _).trans (hnext.trans hfirst)
      · rename_i r' a _ hr'
        rw [hr'] at hnext
        exact hnext.trans hfirst
  · rename_i r a _ hr
    rw [hr] at hfirst
    exact hfirst

theorem magic_receive (c : Connection) : c.receive.1.reader.magic = c.reader.magic := by
  have h := magic_poll c
  unfold receive
  split <;> rename_i heq <;> rw [heq] at h <;> exact h

end Connection

/-! ## Moves of an exchange -/

namespace Handshake

omit [Digest]

theorem of_waiting {h : Handshake} (hwaiting : h.isWaiting = true) (own : Version) :
    h.owed? own = none ∧ h.result? = none := by
  cases h with
  | awaitingVersion | awaitingVerack => exact ⟨rfl, rfl⟩
  | greeting | acknowledging | accepted | failed => cases hwaiting

theorem of_owed {h : Handshake} {own : Version} {m : Message} (howed : h.owed? own = some m) :
    h.result? = none ∧ (m = .version own ∨ m = .verack) := by
  cases h with
  | greeting => exact ⟨rfl, Or.inl (Option.some.inj howed).symm⟩
  | acknowledging => exact ⟨rfl, Or.inr (Option.some.inj howed).symm⟩
  | awaitingVersion | awaitingVerack | accepted | failed => cases howed

theorem of_open {h : Handshake} (hopen : h.result? = none) (own : Version) :
    h.isWaiting = true ∨ ∃ m, h.owed? own = some m := by
  cases h with
  | greeting | acknowledging => exact Or.inr ⟨_, rfl⟩
  | awaitingVersion | awaitingVerack => exact Or.inl rfl
  | accepted | failed => cases hopen

end Handshake

namespace Exchange

variable {magic : UInt32} {x : Exchange} {m : Message}

theorem move_of_owed (h : x.connection.Intact magic) (howed : x.stage.owed? x.own = some m) {frame : Bytes}
    (hframe : Frame.encode magic m.toPacket = .ok frame) :
    x.move = ({ x with stage := x.stage.afterSend, sent := x.sent ++ [m] }, frame) := by
  unfold move
  rw [howed]
  dsimp only
  rw [h.send_eq hframe]

theorem move_of_over {outcome : Except NetError Version} (hover : x.stage.result? = some outcome) :
    x.move = (x, []) := by
  unfold move
  cases hstage : x.stage with
  | accepted | failed => rfl
  | greeting | awaitingVersion | acknowledging | awaitingVerack =>
    rw [hstage] at hover
    cases hover

theorem move_of_wait (h : x.connection.Intact magic) (hwaiting : x.stage.isWaiting = true)
    (hwait : Frame.next magic x.connection.unread = .wait) :
    ∃ c, x.move = ({ x with connection := c }, []) ∧ c.Intact magic ∧ c.unread = x.connection.unread := by
  obtain ⟨c, hpoll, hc⟩ := h.poll_of_wait hwait
  refine ⟨c, ?_, hc⟩
  unfold move
  rw [(Handshake.of_waiting hwaiting x.own).1, hpoll]
  exact if_neg (not_not_intro hwaiting)

theorem move_of_packet (h : x.connection.Intact magic) (hwaiting : x.stage.isWaiting = true) {p : Packet} {rest : Bytes}
    (hpacket : Frame.next magic x.connection.unread = .packet p rest) (hm : Message.decode p = .ok m) :
    ∃ c, x.move = ({ x with connection := c, stage := x.stage.receive x.own m }, []) ∧ c.Intact magic ∧
      c.unread = rest := by
  obtain ⟨c, hpoll, hc⟩ := h.poll_of_packet hpacket
  refine ⟨c, ?_, hc⟩
  unfold move
  rw [(Handshake.of_waiting hwaiting x.own).1, hpoll]
  dsimp only
  rw [if_neg (not_not_intro hwaiting), Connection.messageOf, hm]
  rfl

end Exchange

/-! ## Messages that are read as they were written -/

structure Message.Crosses (magic : UInt32) (m : Message) : Prop where
  fits : ∃ frame, Frame.encode magic m.toPacket = .ok frame
  named : Frame.commandOfField (Frame.commandField m.command.name) = .ok m.command.name
  limits : m.WithinLimits

theorem Frame.encode_of_le {magic : UInt32} {p : Packet} (h : p.payload.length ≤ maxPayload) :
    ∃ frame, encode magic p = .ok frame := by
  unfold encode
  dsimp only
  rw [if_neg (Nat.not_lt.2 h)]
  exact ⟨_, rfl⟩

theorem Message.crosses_verack (magic : UInt32) : Message.verack.Crosses magic where
  fits := Frame.encode_of_le (Nat.zero_le _)
  named := rfl
  limits := trivial

theorem Message.crosses_version (magic : UInt32) {own : Version}
    (hfits : (Message.version own).payload.length ≤ maxPayload) : (Message.version own).Crosses magic where
  fits := Frame.encode_of_le hfits
  named := rfl
  limits := by
    have hlonger : (Bytes.ofString own.userAgent).length ≤ (Message.version own).payload.length := by
      show _ ≤ (Codec.encode own).length
      simp only [Codec.encode, VarString.encode, VarBytes.encode, List.length_append]
      omega
    exact Nat.le_trans hlonger hfits

end ChainSync
