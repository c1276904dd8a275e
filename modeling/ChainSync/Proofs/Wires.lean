import ChainSync.Proofs.Connections
import ChainSync.Proofs.Encounter

/-!
# The version exchange over byte streams

Exchanges see bytes that arrive in pieces of any size, not messages. What an
exchange has not read yet, here or still under way, are the frames of the
messages that an endpoint of an `Encounter` has not read (`Carries`). So two
exchanges of one network whose versions fit into a frame do nothing that
their endpoints could not do, and are not stuck where those can go on.
-/

namespace ChainSync

variable [Digest]

/-! ## Two exchanges and what is under way between them -/

structure Wires where
  ends : Side → Exchange
  coming : Side → Bytes

namespace Wires

def start (magic : UInt32) (addr : Side → SocketAddress) (own : Side → Version) : Wires where
  ends i := .start (own i) (.fresh (addr i) magic)
  coming _ := []

def after (w : Wires) (i : Side) (x : Exchange) (bs : Bytes) : Wires where
  ends := Function.update w.ends i x
  coming := Function.update w.coming i.other (w.coming i.other ++ bs)

/-- An exchange moves, bytes arrive, or a side behind its exchange sends or reads something. -/
inductive Step (w : Wires) : Wires → Prop
  | move (i : Side) : Step w (w.after i (w.ends i).move.1 (w.ends i).move.2)
  | arrive (i : Side) (n : Nat) : Step w
      { ends := Function.update w.ends i ((w.ends i).deliver ((w.coming i).take n))
        coming := Function.update w.coming i ((w.coming i).drop n) }
  | say (i : Side) {remote : Version} (haccepted : (w.ends i).stage = .accepted remote) {m : Message} {c : Connection}
      {bs : Bytes} (hsent : (w.ends i).connection.send m = (c, .ok bs)) :
      Step w (w.after i { w.ends i with connection := c, sent := (w.ends i).sent ++ [m] } bs)
  | listen (i : Side) {remote : Version} (haccepted : (w.ends i).stage = .accepted remote) :
      Step w (w.after i { w.ends i with connection := (w.ends i).connection.receive.1 } [])

/-- The bytes that a side has not read are those of the messages that its endpoint has not read. -/
structure Carries (magic : UInt32) (w : Wires) (s : Encounter) : Prop where
  own : ∀ i, (w.ends i).own = (s i).own
  stage : ∀ i, (w.ends i).stage = (s i).stage
  sent : ∀ i, (w.ends i).sent = (s i).sent
  network : ∀ i, (w.ends i).connection.reader.magic = magic
  unread : ∀ i, (s i).stage.result? = none → (w.ends i).connection.Intact magic ∧
    (w.ends i).connection.unread ++ w.coming i = Frame.stream magic ((s i.other).sent.drop (s i).heard)

variable {magic : UInt32} {addr : Side → SocketAddress} {own : Side → Version} {w w' : Wires} {s : Encounter}

theorem carries_start (magic : UInt32) (addr : Side → SocketAddress) (own : Side → Version) :
    (start magic addr own).Carries magic (Encounter.start own) where
  own := fun _ => rfl
  stage := fun _ => rfl
  sent := fun _ => rfl
  network := fun _ => rfl
  unread := fun _ _ => ⟨⟨rfl, rfl, rfl, Or.inr ⟨rfl, rfl⟩⟩, rfl⟩

theorem Carries.update (h : w.Carries magic s) (hs : s.Sound own) {i : Side} {x : Exchange} {e : Endpoint}
    (ms : List Message) {coming : Side → Bytes} (hown : x.own = e.own) (hstage : x.stage = e.stage)
    (hsent : x.sent = e.sent) (hnetwork : x.connection.reader.magic = magic) (hms : e.sent = (s i).sent ++ ms)
    (hunread : e.stage.result? = none → x.connection.Intact magic ∧
      x.connection.unread ++ coming i = Frame.stream magic ((s i.other).sent.drop e.heard))
    (hcoming : coming i.other = w.coming i.other ++ Frame.stream magic ms) :
    Carries magic ⟨Function.update w.ends i x, coming⟩ (Function.update s i e) := by
  have hends : Function.update w.ends i x i.other = w.ends i.other := Function.update_of_ne i.other_ne ..
  have hsame : Function.update s i e i.other = s i.other := Function.update_of_ne i.other_ne ..
  constructor
  case own =>
    intro j
    dsimp only
    rcases i.eq_or_eq_other j with rfl | rfl
    · rw [Function.update_self, Function.update_self, hown]
    · rw [hends, hsame, h.own]
  case stage =>
    intro j
    dsimp only
    rcases i.eq_or_eq_other j with rfl | rfl
    · rw [Function.update_self, Function.update_self, hstage]
    · rw [hends, hsame, h.stage]
  case sent =>
    intro j
    dsimp only
    rcases i.eq_or_eq_other j with rfl | rfl
    · rw [Function.update_self, Function.update_self, hsent]
    · rw [hends, hsame, h.sent]
  case network =>
    intro j
    dsimp only
    rcases i.eq_or_eq_other j with rfl | rfl
    · rw [Function.update_self, hnetwork]
    · rw [hends, h.network]
  case unread =>
    intro j
    dsimp only
    rcases i.eq_or_eq_other j with rfl | rfl
    · rw [Function.update_self, hsame, Function.update_self]
      exact hunread
    · rw [hends, hcoming, hsame, Side.other_other, Function.update_self]
      intro hopen
      obtain ⟨hintact, hbytes⟩ := h.unread i.other hopen
      rw [Side.other_other] at hbytes
      have hheard := (hs.facing i).heard_le
      rw [hms, List.drop_append_of_le_length hheard, Frame.stream_append, ← hbytes, List.append_assoc]
      exact ⟨hintact, rfl⟩

theorem Carries.after (h : w.Carries magic s) (hs : s.Sound own) {i : Side} {x : Exchange} {e : Endpoint}
    (ms : List Message) (hown : x.own = e.own) (hstage : x.stage = e.stage) (hsent : x.sent = e.sent)
    (hnetwork : x.connection.reader.magic = magic) (hms : e.sent = (s i).sent ++ ms)
    (hunread : e.stage.result? = none → x.connection.Intact magic ∧
      x.connection.unread ++ w.coming i = Frame.stream magic ((s i.other).sent.drop e.heard)) :
    (w.after i x (Frame.stream magic ms)).Carries magic (Function.update s i e) := by
  refine h.update hs ms hown hstage hsent hnetwork hms ?_ (Function.update_self ..)
  rwa [Function.update_of_ne i.other_ne.symm]

theorem Carries.reconnect (h : w.Carries magic s) (hs : s.Sound own) (i : Side) {c : Connection}
    {coming : Side → Bytes} (hnetwork : c.reader.magic = magic)
    (hunread : (s i).stage.result? = none → c.Intact magic ∧
      c.unread ++ coming i = (w.ends i).connection.unread ++ w.coming i)
    (hcoming : coming i.other = w.coming i.other) :
    Carries magic ⟨Function.update w.ends i { w.ends i with connection := c }, coming⟩ s := by
  have hkept : Carries magic ⟨Function.update w.ends i { w.ends i with connection := c }, coming⟩
      (Function.update s i (s i)) := by
    refine h.update hs [] (h.own i) (h.stage i) (h.sent i) hnetwork (List.append_nil _).symm (fun hopen => ?_) ?_
    · obtain ⟨hintact, hbytes⟩ := hunread hopen
      exact ⟨hintact, hbytes.trans (h.unread i hopen).2⟩
    · exact hcoming.trans (List.append_nil _).symm
  rwa [Function.update_eq_self] at hkept

theorem Carries.arrive (h : w.Carries magic s) (hs : s.Sound own) (i : Side) (n : Nat) :
    Carries magic
      { ends := Function.update w.ends i ((w.ends i).deliver ((w.coming i).take n))
        coming := Function.update w.coming i ((w.coming i).drop n) } s := by
  refine h.reconnect hs i (h.network i) (fun hopen => ⟨(h.unread i hopen).1.deliver _, ?_⟩) ?_
  · rw [Function.update_self, Connection.unread_deliver, List.append_assoc, List.take_append_drop]
  · exact Function.update_of_ne i.other_ne ..

theorem Carries.quiet (h : w.Carries magic s) (hs : s.Sound own) (i : Side) {c : Connection}
    (hnetwork : c.reader.magic = magic)
    (hunread : (s i).stage.result? = none → c.Intact magic ∧ c.unread = (w.ends i).connection.unread) :
    (w.after i { w.ends i with connection := c } []).Carries magic s := by
  refine h.reconnect hs i hnetwork (fun hopen => ?_) ?_
  · obtain ⟨hintact, hbytes⟩ := hunread hopen
    rw [Function.update_of_ne i.other_ne.symm, hbytes]
    exact ⟨hintact, rfl⟩
  · rw [Function.update_self, List.append_nil]

section
variable (hfits : ∀ i, (Message.version (own i)).payload.length ≤ maxPayload)
include hfits

/-- All that an exchange takes in or writes is read as it was written. -/
theorem crosses (magic : UInt32) {m : Message} {i : Side} (hm : m = .version (own i) ∨ m = .verack) : m.Crosses magic := by
  rcases hm with rfl | rfl
  · exact Message.crosses_version magic (hfits i)
  · exact Message.crosses_verack magic

theorem Carries.look (h : w.Carries magic s) (hs : s.Sound own) {i : Side} (hwaiting : (s i).stage.isWaiting = true) :
    (Frame.next magic (w.ends i).connection.unread = .wait ∧
      (w.coming i ≠ [] ∨ (s i.other).sent[(s i).heard]? = none)) ∨
    ∃ m rest, (s i.other).sent[(s i).heard]? = some m ∧ Message.decode m.toPacket = .ok m ∧
      Frame.next magic (w.ends i).connection.unread = .packet m.toPacket rest ∧
      rest ++ w.coming i = Frame.stream magic ((s i.other).sent.drop ((s i).heard + 1)) := by
  obtain ⟨-, hbytes⟩ := h.unread i (Handshake.of_waiting hwaiting (own i)).2
  cases hm : (s i.other).sent[(s i).heard]? with
  | none =>
    have hnothing : (s i.other).sent.drop (s i).heard = [] := List.drop_eq_nil_iff.2 (List.getElem?_eq_none_iff.1 hm)
    rw [hnothing] at hbytes
    have hempty := (List.append_eq_nil_iff.1 hbytes).1
    rw [hempty]
    exact Or.inl ⟨rfl, Or.inr rfl⟩
  | some m =>
    obtain ⟨hlt, hget⟩ := List.getElem?_eq_some_iff.1 hm
    have hcrosses : m.Crosses magic := by
      refine crosses hfits magic (i := i.other) ?_
      rw [← hs.own]
      exact (hs.fits i).hears (hs.facing i) hwaiting hm
    obtain ⟨frame, hframe⟩ := hcrosses.fits
    rw [List.drop_eq_getElem_cons hlt, hget] at hbytes
    obtain ⟨hwait, hcoming⟩ | ⟨rest, hpacket, hrest⟩ := Frame.next_of_stream hframe hcrosses.named hbytes
    · exact Or.inl ⟨hwait, Or.inl hcoming⟩
    · exact Or.inr ⟨m, rest, rfl, hcrosses.limits.decode_toPacket, hpacket, hrest⟩

/-- A move is a step of the exchange, or sees that there is nothing to do yet. -/
theorem Carries.move (h : w.Carries magic s) (hs : s.Sound own) (i : Side) :
    ∃ s', (s' = s ∨ s.Exchanges s') ∧ (w.after i (w.ends i).move.1 (w.ends i).move.2).Carries magic s' := by
  cases hopen : (s i).stage.result? with
  | some outcome =>
    rw [Exchange.move_of_over (by rw [h.stage, hopen])]
    exact ⟨s, Or.inl rfl, h.quiet hs i (h.network i) fun hopen => ⟨(h.unread i hopen).1, rfl⟩⟩
  | none =>
    obtain ⟨hintact, hbytes⟩ := h.unread i hopen
    obtain hwaiting | ⟨m, howed⟩ := Handshake.of_open hopen (s i).own
    · have hwaiting' : (w.ends i).stage.isWaiting = true := by rw [h.stage, hwaiting]
      obtain ⟨hwait, -⟩ | ⟨m, rest, hm, hdecoded, hpacket, hrest⟩ := h.look hfits hs hwaiting
      · -- the next message is not whole yet
        obtain ⟨c, hmove, hc, hunread⟩ := Exchange.move_of_wait hintact hwaiting' hwait
        rw [hmove]
        exact ⟨s, Or.inl rfl, h.quiet hs i hc.network fun _ => ⟨hc, hunread⟩⟩
      · obtain ⟨c, hmove, hc, hunread⟩ := Exchange.move_of_packet hintact hwaiting' hpacket hdecoded
        rw [hmove]
        refine ⟨_, Or.inr ⟨i, _, .hear hwaiting hm, rfl⟩, ?_⟩
        refine h.after hs [] (h.own i) ?_ (h.sent i) hc.network (List.append_nil _).symm fun _ => ⟨hc, ?_⟩
        · show (w.ends i).stage.receive (w.ends i).own m = _
          rw [h.stage, h.own]
        · rw [hunread, hrest]
    · have hm := (Handshake.of_owed howed).2
      obtain ⟨frame, hframe⟩ := (crosses hfits magic (i := i) (by rwa [← hs.own])).fits
      have howed' : (w.ends i).stage.owed? (w.ends i).own = some m := by rw [h.stage, h.own, howed]
      rw [Exchange.move_of_owed hintact howed' hframe, ← Frame.stream_singleton hframe]
      refine ⟨_, Or.inr ⟨i, _, .send howed, rfl⟩, ?_⟩
      refine h.after hs [m] (h.own i) ?_ ?_ (h.network i) rfl fun _ => ⟨hintact, hbytes⟩
      · show (w.ends i).stage.afterSend = _
        rw [h.stage]
      · show (w.ends i).sent ++ [m] = _
        rw [h.sent]

theorem Carries.step (h : w.Carries magic s) (hs : s.Sound own) (hstep : w.Step w') :
    ∃ s', (s' = s ∨ s.Step s') ∧ w'.Carries magic s' := by
  cases hstep with
  | move i =>
    obtain ⟨s', hs', h'⟩ := h.move hfits hs i
    exact ⟨s', hs'.imp_right Or.inl, h'⟩
  | arrive i n => exact ⟨s, Or.inl rfl, h.arrive hs i n⟩
  | @say i remote haccepted m c bs hsent =>
    obtain ⟨rfl, hframe⟩ := Connection.send_eq_ok hsent
    rw [h.network] at hframe
    rw [h.stage] at haccepted
    rw [← Frame.stream_singleton hframe]
    refine ⟨_, Or.inr (.say i haccepted m), ?_⟩
    refine h.after hs [m] (h.own i) (h.stage i) ?_ (h.network i) rfl (h.unread i)
    show (w.ends i).sent ++ [m] = (s i).sent ++ [m]
    rw [h.sent]
  | listen i haccepted =>
    -- what an endpoint reads behind its exchange is not kept track of
    rw [h.stage] at haccepted
    have hnetwork : (w.ends i).connection.receive.1.reader.magic = magic :=
      (Connection.magic_receive _).trans (h.network i)
    refine ⟨s, Or.inl rfl, h.quiet hs i hnetwork fun hopen => ?_⟩
    rw [haccepted] at hopen
    cases hopen

/-- Whatever two exchanges do, their endpoints can do in an encounter. -/
theorem exists_encounter (h : Relation.ReflTransGen Step (start magic addr own) w) :
    ∃ s, Relation.ReflTransGen Encounter.Step (Encounter.start own) s ∧ w.Carries magic s := by
  induction h with
  | refl => exact ⟨_, .refl, carries_start magic addr own⟩
  | tail _ hstep ih =>
    obtain ⟨s, hs, hc⟩ := ih
    obtain ⟨s', rfl | hnext, hc'⟩ := hc.step hfits (Encounter.sound_of_reachable hs) hstep
    · exact ⟨_, hs, hc'⟩
    · exact ⟨s', hs.tail hnext, hc'⟩

/-- Where an endpoint can go on, so can its exchange, at the latest when all that is under way has arrived. -/
theorem Carries.exists_move (h : w.Carries magic s) (hs : s.Sound own) (hnext : ∃ s', s.Exchanges s') :
    ∃ i, w.coming i ≠ [] ∨ (w.ends i).move.1.stage ≠ (w.ends i).stage := by
  obtain ⟨-, i, e, he, -⟩ := hnext
  refine ⟨i, or_iff_not_imp_left.2 fun harrived => ?_⟩
  cases he with
  | @send m howed =>
    obtain ⟨hopen, hm⟩ := Handshake.of_owed howed
    obtain ⟨frame, hframe⟩ := (crosses hfits magic (i := i) (by rwa [← hs.own])).fits
    have howed' : (w.ends i).stage.owed? (w.ends i).own = some m := by rw [h.stage, h.own, howed]
    rw [Exchange.move_of_owed (h.unread i hopen).1 howed' hframe]
    have hlt := Handshake.stepsLeft_afterSend howed'
    exact fun heq => Nat.ne_of_lt hlt (congrArg Handshake.stepsLeft heq)
  | @hear m hwaiting hm =>
    have hwaiting' : (w.ends i).stage.isWaiting = true := by rw [h.stage, hwaiting]
    obtain ⟨-, hcoming | hnone⟩ | ⟨m', rest, -, hdecoded, hpacket, -⟩ := h.look hfits hs hwaiting
    · exact absurd hcoming harrived
    · rw [hm] at hnone
      cases hnone
    · have hintact := (h.unread i (Handshake.of_waiting hwaiting (own i)).2).1
      obtain ⟨c, hmove, -⟩ := Exchange.move_of_packet hintact hwaiting' hpacket hdecoded
      rw [hmove]
      have hlt := Handshake.stepsLeft_receive (w.ends i).own m' hwaiting'
      exact fun heq => Nat.ne_of_lt hlt (congrArg Handshake.stepsLeft heq)

/-- What holds of every encounter holds over byte streams: nobody is stuck, and both accept or both refuse. -/
theorem exchange_outcome (h : Relation.ReflTransGen Step (start magic addr own) w) :
    ((∃ i, (w.ends i).stage.result? = none) →
      ∃ i, w.coming i ≠ [] ∨ (w.ends i).move.1.stage ≠ (w.ends i).stage) ∧
    ((own .left).nonce ≠ (own .right).nonce → ∀ i, (∀ err, (w.ends i).stage ≠ .failed err) ∧
      ∀ v, (w.ends i).stage.result? = some (.ok v) → v = own i.other ∧
        ((w.ends i.other).stage = .awaitingVerack (own i) ∨ (w.ends i.other).stage = .accepted (own i))) ∧
    ((own .left).nonce = (own .right).nonce → ∀ i, .verack ∉ (w.ends i).sent ∧
      ((w.ends i).stage.result? ≠ none → (w.ends i).stage.result? = some (.error .selfConnection))) := by
  obtain ⟨s, hreached, hc⟩ := exists_encounter hfits h
  have hs := Encounter.sound_of_reachable hreached
  simp only [hc.stage, hc.sent]
  refine ⟨fun ⟨i, hopen⟩ => ?_, hs.both_accept, fun hn i => ?_⟩
  · have hmove := hc.exists_move hfits hs (hs.exists_exchange hopen)
    simpa only [hc.stage] using hmove
  · obtain ⟨hsent, -, hrefused⟩ := hs.both_refuse hn i
    exact ⟨hsent, hrefused⟩

end

end Wires

end ChainSync
