import ChainSync.Peer.Link
import ChainSync.Scripted.Chain
import Mathlib.Logic.Function.Basic
import Mathlib.Logic.Relation

/-!
# Two endpoints that exchange versions

A direction is what one side has sent and how much of it the other has read,
so messages stay in order and are under way for as long as it takes. How far
an endpoint has come settles what it has sent and read (`Fits`), up to what
it says behind its own exchange. Hence a `verack` is always read as one, and
an endpoint that waits in vain faces one that can go on. Exchanges over byte
streams do nothing else (`Wires`).
-/

namespace ChainSync

namespace Side

theorem other_ne (i : Side) : i.other ≠ i := by
  cases i <;> decide

theorem other_other (i : Side) : i.other.other = i := by
  cases i <;> rfl

theorem eq_or_eq_other (i j : Side) : j = i ∨ j = i.other := by
  cases i <;> cases j <;> decide

end Side

structure Endpoint where
  own : Version
  stage : Handshake
  sent : List Message
  /-- How many messages of the other were read. -/
  heard : Nat

namespace Endpoint

def start (own : Version) : Endpoint :=
  ⟨own, .greeting, [], 0⟩

inductive Exchanges (incoming : List Message) (e : Endpoint) : Endpoint → Prop
  | send {m : Message} (h : e.stage.owed? e.own = some m) :
      Exchanges incoming e { e with stage := e.stage.afterSend, sent := e.sent ++ [m] }
  | hear {m : Message} (h : e.stage.isWaiting = true) (hm : incoming[e.heard]? = some m) :
      Exchanges incoming e { e with stage := e.stage.receive e.own m, heard := e.heard + 1 }

/-- Behind its own exchange an endpoint sends and reads whatever it likes. -/
inductive Chats (incoming : List Message) (e : Endpoint) : Endpoint → Prop
  | say {remote : Version} (h : e.stage = .accepted remote) (m : Message) :
      Chats incoming e { e with sent := e.sent ++ [m] }
  | listen {remote : Version} (h : e.stage = .accepted remote) {m : Message} (hm : incoming[e.heard]? = some m) :
      Chats incoming e { e with heard := e.heard + 1 }

/-- What an endpoint has sent and read at each stage. -/
inductive Fits : Endpoint → Endpoint → Prop
  | greeting {other : Endpoint} (own : Version) : Fits ⟨own, .greeting, [], 0⟩ other
  | awaitingVersion {other : Endpoint} (own : Version) : Fits ⟨own, .awaitingVersion, [.version own], 0⟩ other
  | acknowledging {own : Version} {other : Endpoint} (hn : other.own.nonce ≠ own.nonce)
      (hle : 1 ≤ other.sent.length) : Fits ⟨own, .acknowledging other.own, [.version own], 1⟩ other
  | awaitingVerack {own : Version} {other : Endpoint} (hn : other.own.nonce ≠ own.nonce)
      (hle : 1 ≤ other.sent.length) : Fits ⟨own, .awaitingVerack other.own, [.version own, .verack], 1⟩ other
  | accepted {own : Version} {other : Endpoint} {said : List Message} {heard : Nat}
      (hn : other.own.nonce ≠ own.nonce) (htwo : 2 ≤ heard) (hle : heard ≤ other.sent.length) :
      Fits ⟨own, .accepted other.own, .version own :: .verack :: said, heard⟩ other
  | failed {own : Version} {other : Endpoint} (hn : other.own.nonce = own.nonce) (hle : 1 ≤ other.sent.length) :
      Fits ⟨own, .failed .selfConnection, [.version own], 1⟩ other

variable {e e' other : Endpoint} {m : Message}

/-! ## What the other has sent -/

theorem Fits.first_sent (f : e.Fits other) (hm : e.sent[0]? = some m) : m = .version e.own := by
  cases f with
  | greeting => cases hm
  | awaitingVersion | acknowledging | awaitingVerack | accepted | failed => exact (Option.some.inj hm).symm

theorem Fits.second_sent (f : e.Fits other) (hm : e.sent[1]? = some m) : m = .verack := by
  cases f with
  | greeting | awaitingVersion | acknowledging | failed => cases hm
  | awaitingVerack | accepted => exact (Option.some.inj hm).symm

theorem Fits.heard_le (f : e.Fits other) : e.heard ≤ other.sent.length := by
  cases f with
  | greeting | awaitingVersion => exact Nat.zero_le _
  | acknowledging hn hle | awaitingVerack hn hle | failed hn hle => exact hle
  | accepted hn htwo hle => exact hle

/-- What an endpoint takes in is part of the exchange, never what comes behind it. -/
theorem Fits.hears (f : e.Fits other) (g : other.Fits e) (hwaiting : e.stage.isWaiting = true)
    (hm : other.sent[e.heard]? = some m) : m = .version other.own ∨ m = .verack := by
  cases f with
  | awaitingVersion => exact Or.inl (g.first_sent hm)
  | awaitingVerack => exact Or.inr (g.second_sent hm)
  | greeting | acknowledging | accepted | failed => cases hwaiting

theorem Fits.mono (f : other.Fits e) (hown : e'.own = e.own) (hsent : e.sent.length ≤ e'.sent.length) :
    other.Fits e' := by
  cases f with
  | greeting own => exact .greeting own
  | awaitingVersion own => exact .awaitingVersion own
  | acknowledging hn hle => exact hown ▸ .acknowledging (hown ▸ hn) (Nat.le_trans hle hsent)
  | awaitingVerack hn hle => exact hown ▸ .awaitingVerack (hown ▸ hn) (Nat.le_trans hle hsent)
  | accepted hn htwo hle => exact hown ▸ .accepted (hown ▸ hn) htwo (Nat.le_trans hle hsent)
  | failed hn hle => exact .failed (hown ▸ hn) (Nat.le_trans hle hsent)

/-! ## One step -/

theorem lt_length_of_hears (hm : other.sent[e.heard]? = some m) : e.heard < other.sent.length :=
  (List.getElem?_eq_some_iff.1 hm).1

theorem Exchanges.grows (h : e.Exchanges other.sent e') : e'.own = e.own ∧ e.sent.length ≤ e'.sent.length := by
  cases h with
  | send => exact ⟨rfl, by simp⟩
  | hear => exact ⟨rfl, Nat.le_refl _⟩

theorem Chats.grows (h : e.Chats other.sent e') : e'.own = e.own ∧ e.sent.length ≤ e'.sent.length := by
  cases h with
  | say => exact ⟨rfl, by simp⟩
  | listen => exact ⟨rfl, Nat.le_refl _⟩

theorem Fits.exchanges (f : e.Fits other) (g : other.Fits e) (h : e.Exchanges other.sent e') : e'.Fits other := by
  cases h with
  | send howed =>
    cases f with
    | greeting own =>
      cases howed
      exact .awaitingVersion own
    | acknowledging hn hle =>
      cases howed
      exact .awaitingVerack hn hle
    | awaitingVersion | awaitingVerack | accepted | failed => cases howed
  | @hear m hwaiting hm =>
    have hle := lt_length_of_hears hm
    cases f with
    | greeting | acknowledging | accepted | failed => cases hwaiting
    | awaitingVersion own =>
      obtain rfl := g.first_sent hm
      show Fits ⟨own, if other.own.nonce = own.nonce then .failed .selfConnection else .acknowledging other.own, _, _⟩ other
      split
      case isTrue hn => exact .failed hn hle
      case isFalse hn => exact .acknowledging hn hle
    | @awaitingVerack own _ hn =>
      obtain rfl := g.second_sent hm
      have haccepted : Fits ⟨own, .accepted other.own, [.version own, .verack], 2⟩ other :=
        .accepted hn (Nat.le_refl 2) hle
      exact haccepted

theorem Fits.chats (f : e.Fits other) (h : e.Chats other.sent e') : e'.Fits other := by
  cases h with
  | say haccepted m =>
    cases f with
    | accepted hn htwo hle => exact .accepted hn htwo hle
    | _ => cases haccepted
  | listen haccepted hm =>
    have hlt := lt_length_of_hears hm
    cases f with
    | accepted hn htwo hle => exact .accepted hn (Nat.le_succ_of_le htwo) hlt
    | _ => cases haccepted

/-! ## No standstill -/

/-- To owe a `verack` is to send it next, or to read the other's version first. -/
theorem Fits.owes_verack (f : e.Fits other) (hn : other.own.nonce ≠ e.own.nonce) (hle : 1 ≤ e.sent.length)
    (hnone : e.sent[1]? = none) :
    e.stage = .awaitingVersion ∧ e.heard = 0 ∨ e.stage = .acknowledging other.own := by
  cases f with
  | greeting => cases hle
  | awaitingVersion => exact Or.inl ⟨rfl, rfl⟩
  | acknowledging => exact Or.inr rfl
  | failed heq => exact absurd heq hn
  | awaitingVerack | accepted => cases hnone

/-- While one endpoint is not through, one of the two can go on with its exchange. -/
theorem Fits.exists_exchange (f : e.Fits other) (g : other.Fits e) (hopen : e.stage.result? = none) :
    (∃ e', e.Exchanges other.sent e') ∨ ∃ o', other.Exchanges e.sent o' := by
  cases f with
  | greeting | acknowledging => exact Or.inl ⟨_, .send rfl⟩
  | accepted | failed => cases hopen
  | awaitingVersion own =>
    cases hsent : other.sent[0]? with
    | some m => exact Or.inl ⟨_, .hear rfl hsent⟩
    | none =>
      -- the other has not even greeted
      cases g with
      | greeting => exact Or.inr ⟨_, .send rfl⟩
      | _ => cases hsent
  | @awaitingVerack own _ hn hle =>
    cases hsent : other.sent[1]? with
    | some m => exact Or.inl ⟨_, .hear rfl hsent⟩
    | none =>
      obtain ⟨hstage, hheard⟩ | hstage := g.owes_verack hn.symm hle hsent
      · have hversion : [Message.version own, .verack][other.heard]? = some (.version own) := by
          rw [hheard]
          rfl
        exact Or.inr ⟨_, .hear (by rw [hstage]; rfl) hversion⟩
      · have howed : other.stage.owed? other.own = some .verack := by
          rw [hstage]
          rfl
        exact Or.inr ⟨_, .send howed⟩

/-! ## How an exchange ends -/

theorem Fits.not_failed (f : e.Fits other) (hn : other.own.nonce ≠ e.own.nonce) (err : NetError) :
    e.stage ≠ .failed err := by
  cases f with
  | failed heq => exact absurd heq hn
  | _ => nofun

theorem Fits.acknowledged (f : e.Fits other) (hle : 2 ≤ e.sent.length) :
    e.stage = .awaitingVerack other.own ∨ e.stage = .accepted other.own := by
  cases f with
  | greeting | awaitingVersion | acknowledging | failed => simp at hle
  | awaitingVerack => exact Or.inl rfl
  | accepted => exact Or.inr rfl

theorem Fits.of_accepted (f : e.Fits other) {v : Version} (haccepted : e.stage.result? = some (.ok v)) :
    v = other.own ∧ 2 ≤ other.sent.length := by
  cases f with
  | accepted hn htwo hle =>
    cases haccepted
    exact ⟨rfl, Nat.le_trans htwo hle⟩
  | _ => cases haccepted

theorem Fits.of_same_nonce (f : e.Fits other) (hn : other.own.nonce = e.own.nonce) :
    .verack ∉ e.sent ∧ (∀ v, e.stage ≠ .accepted v) ∧
      (e.stage.result? ≠ none → e.stage.result? = some (.error .selfConnection)) := by
  cases f with
  | greeting | awaitingVersion => exact ⟨by simp, nofun, fun hover => absurd rfl hover⟩
  | failed => exact ⟨by simp, nofun, fun _ => rfl⟩
  | acknowledging hne | awaitingVerack hne | accepted hne => exact absurd hn hne

end Endpoint

def Handshake.stepsLeft : Handshake → Nat
  | greeting => 4
  | awaitingVersion => 3
  | acknowledging _ => 2
  | awaitingVerack _ => 1
  | accepted _ | failed _ => 0

theorem Handshake.stepsLeft_afterSend {h : Handshake} {own : Version} {m : Message} (howed : h.owed? own = some m) :
    h.afterSend.stepsLeft < h.stepsLeft := by
  cases h with
  | greeting | acknowledging => exact Nat.lt_succ_self _
  | awaitingVersion | awaitingVerack | accepted | failed => cases howed

theorem Handshake.stepsLeft_receive {h : Handshake} (own : Version) (m : Message) (hwaiting : h.isWaiting = true) :
    (h.receive own m).stepsLeft < h.stepsLeft := by
  cases h with
  | greeting | acknowledging | accepted | failed => cases hwaiting
  | awaitingVersion =>
    unfold Handshake.receive
    cases m with
    | version remote =>
      dsimp only
      split
      · exact Nat.zero_lt_succ _
      · exact Nat.lt_succ_self _
    | _ => exact Nat.zero_lt_succ _
  | awaitingVerack remote => cases m <;> exact Nat.lt_succ_self _

theorem Endpoint.Exchanges.stepsLeft_lt {incoming : List Message} {e e' : Endpoint} (h : e.Exchanges incoming e') :
    e'.stage.stepsLeft < e.stage.stepsLeft := by
  cases h with
  | send howed => exact Handshake.stepsLeft_afterSend howed
  | hear hwaiting => exact Handshake.stepsLeft_receive _ _ hwaiting

/-! ## Runs of both -/

abbrev Encounter :=
  Side → Endpoint

namespace Encounter

def start (own : Side → Version) : Encounter :=
  fun i => .start (own i)

def Exchanges (s s' : Encounter) : Prop :=
  ∃ i e, (s i).Exchanges (s i.other).sent e ∧ s' = Function.update s i e

def Chats (s s' : Encounter) : Prop :=
  ∃ i e, (s i).Chats (s i.other).sent e ∧ s' = Function.update s i e

def Step (s s' : Encounter) : Prop :=
  s.Exchanges s' ∨ s.Chats s'

section
variable {s : Encounter} (i : Side)

theorem Step.send {m : Message} (h : (s i).stage.owed? (s i).own = some m) :
    s.Step (Function.update s i { s i with stage := (s i).stage.afterSend, sent := (s i).sent ++ [m] }) :=
  Or.inl ⟨i, _, .send h, rfl⟩

theorem Step.hear {m : Message} (h : (s i).stage.isWaiting = true) (hm : (s i.other).sent[(s i).heard]? = some m) :
    s.Step (Function.update s i { s i with stage := (s i).stage.receive (s i).own m, heard := (s i).heard + 1 }) :=
  Or.inl ⟨i, _, .hear h hm, rfl⟩

theorem Step.say {remote : Version} (h : (s i).stage = .accepted remote) (m : Message) :
    s.Step (Function.update s i { s i with sent := (s i).sent ++ [m] }) :=
  Or.inr ⟨i, _, .say h m, rfl⟩

theorem reaches_of_eq {s' : Encounter} (h : s = s') : Relation.ReflTransGen Step s s' :=
  h ▸ .refl

end

structure Sound (own : Side → Version) (s : Encounter) : Prop where
  own : ∀ i, (s i).own = own i
  fits : ∀ i, (s i).Fits (s i.other)

variable {own : Side → Version} {s s' : Encounter}

theorem sound_start (own : Side → Version) : (start own).Sound own :=
  ⟨fun _ => rfl, fun i => .greeting (own i)⟩

theorem Sound.facing (h : s.Sound own) (i : Side) : (s i.other).Fits (s i) := by
  have hother := h.fits i.other
  rwa [Side.other_other] at hother

theorem Sound.update (h : s.Sound own) {i : Side} {e : Endpoint} (hfits : e.Fits (s i.other))
    (hgrows : e.own = (s i).own ∧ (s i).sent.length ≤ e.sent.length) : Sound own (Function.update s i e) := by
  have hother : Function.update s i e i.other = s i.other := Function.update_of_ne i.other_ne e s
  constructor
  · intro j
    rcases i.eq_or_eq_other j with rfl | rfl
    · rw [Function.update_self, hgrows.1, h.own]
    · rw [hother, h.own]
  · intro j
    rcases i.eq_or_eq_other j with rfl | rfl
    · rw [Function.update_self, hother]
      exact hfits
    · rw [hother, Side.other_other, Function.update_self]
      exact (h.facing i).mono hgrows.1 hgrows.2

theorem Sound.step (h : s.Sound own) (hstep : s.Step s') : s'.Sound own := by
  rcases hstep with ⟨i, e, he, rfl⟩ | ⟨i, e, he, rfl⟩
  · exact h.update ((h.fits i).exchanges (h.facing i) he) he.grows
  · exact h.update ((h.fits i).chats he) he.grows

theorem sound_of_reachable (h : Relation.ReflTransGen Step (start own) s) : s.Sound own := by
  induction h with
  | refl => exact sound_start own
  | tail _ hstep ih => exact ih.step hstep

theorem Sound.exists_exchange (h : s.Sound own) {i : Side} (hopen : (s i).stage.result? = none) :
    ∃ s', s.Exchanges s' := by
  obtain ⟨e, he⟩ | ⟨e, he⟩ := (h.fits i).exists_exchange (h.facing i) hopen
  · exact ⟨_, i, e, he, rfl⟩
  · exact ⟨_, i.other, e, by rwa [Side.other_other], rfl⟩

def stepsLeft (s : Encounter) : Nat :=
  (s .left).stage.stepsLeft + (s .right).stage.stepsLeft

theorem stepsLeft_lt (h : s.Exchanges s') : s'.stepsLeft < s.stepsLeft := by
  obtain ⟨i, e, he, rfl⟩ := h
  have hlt := he.stepsLeft_lt
  cases i with
  | left => exact Nat.add_lt_add_right hlt _
  | right => exact Nat.add_lt_add_left hlt _

/-! ## Both accept or both refuse -/

theorem Sound.both_accept (h : s.Sound own) (hn : (own .left).nonce ≠ (own .right).nonce) (i : Side) :
    (∀ err, (s i).stage ≠ .failed err) ∧ ∀ v, (s i).stage.result? = some (.ok v) → v = own i.other ∧
      ((s i.other).stage = .awaitingVerack (own i) ∨ (s i.other).stage = .accepted (own i)) := by
  constructor
  · refine (h.fits i).not_failed ?_
    rw [h.own, h.own]
    cases i with
    | left => exact hn.symm
    | right => exact hn
  · intro v haccepted
    obtain ⟨hv, hle⟩ := (h.fits i).of_accepted haccepted
    have hacknowledged := (h.facing i).acknowledged hle
    rw [h.own] at hv hacknowledged
    exact ⟨hv, hacknowledged⟩

section
variable (hn : (own .left).nonce = (own .right).nonce)
include hn

theorem Sound.both_refuse (h : s.Sound own) (i : Side) :
    .verack ∉ (s i).sent ∧ (∀ v, (s i).stage ≠ .accepted v) ∧
      ((s i).stage.result? ≠ none → (s i).stage.result? = some (.error .selfConnection)) := by
  refine (h.fits i).of_same_nonce ?_
  rw [h.own, h.own]
  cases i with
  | left => exact hn.symm
  | right => exact hn

theorem Sound.exchanges_of_step (h : s.Sound own) (hstep : s.Step s') : s.Exchanges s' := by
  rcases hstep with hstep | ⟨i, e, he, -⟩
  · exact hstep
  · have hnever := (h.both_refuse hn i).2.1
    cases he with
    | say haccepted | listen haccepted => exact absurd haccepted (hnever _)

theorem Sound.finite (h : s.Sound own) : ¬∃ run : Nat → Encounter, run 0 = s ∧ ∀ n, (run n).Step (run (n + 1)) := by
  rintro ⟨run, rfl, hrun⟩
  have hbound : ∀ n, (run n).Sound own ∧ (run n).stepsLeft + n ≤ (run 0).stepsLeft := by
    intro n
    induction n with
    | zero => exact ⟨h, Nat.le_refl _⟩
    | succ n ih =>
      obtain ⟨hsound, hle⟩ := ih
      have hlt := stepsLeft_lt (hsound.exchanges_of_step hn (hrun n))
      exact ⟨hsound.step (hrun n), by omega⟩
  have hlong := (hbound ((run 0).stepsLeft + 1)).2
  omega

end

/-- Two endpoints with different nonces never fail and never get stuck, and one that accepts has what the other
sent, which has accepted it in turn. With the same nonce both refuse, and neither ever sends a `verack`.

Messages cross here one by one. Exchanges over byte streams are such endpoints when both are of one network and each
version fits into a frame (`Wires.exists_encounter`), and then come to the same (`Wires.exchange_outcome`). Of two
networks, or when it is too long for a frame, a version does not get across. -/
theorem both_accept_or_both_refuse (h : Relation.ReflTransGen Step (start own) s) :
    ((own .left).nonce ≠ (own .right).nonce →
      (∀ i err, (s i).stage ≠ .failed err) ∧
      ((∃ i, (s i).stage.result? = none) → ∃ s', s.Exchanges s') ∧
      ∀ i v, (s i).stage.result? = some (.ok v) → v = own i.other ∧
        ((s i.other).stage = .awaitingVerack (own i) ∨ (s i.other).stage = .accepted (own i))) ∧
    ((own .left).nonce = (own .right).nonce →
      (∀ i, .verack ∉ (s i).sent) ∧
      ((∀ s', ¬s.Step s') → ∀ i, (s i).stage.result? = some (.error .selfConnection)) ∧
      ¬∃ run : Nat → Encounter, run 0 = s ∧ ∀ n, (run n).Step (run (n + 1))) := by
  have hs := sound_of_reachable h
  constructor
  · intro hn
    have haccept := fun i => hs.both_accept hn i
    exact ⟨fun i => (haccept i).1, fun ⟨i, hopen⟩ => hs.exists_exchange hopen, fun i => (haccept i).2⟩
  · intro hn
    have hrefuse := fun i => hs.both_refuse hn i
    refine ⟨fun i => (hrefuse i).1, fun hend i => (hrefuse i).2.2 fun hopen => ?_, hs.finite hn⟩
    obtain ⟨s', hnext⟩ := hs.exists_exchange hopen
    exact hend s' (Or.inl hnext)

end Encounter

namespace Scripted

def facing (nonce : UInt32) : Side → Version
  | .left => version 1 10333 0
  | .right => version nonce 10334 5

def talkative : Encounter
  | .left => ⟨facing 2 .left, .accepted (facing 2 .right), [.version (facing 2 .left), .verack, .getaddr], 2⟩
  | .right => ⟨facing 2 .right, .awaitingVerack (facing 2 .left), [.version (facing 2 .right), .verack], 1⟩

def mirrored : Encounter :=
  fun i => ⟨facing 1 i, .failed .selfConnection, [.version (facing 1 i)], 1⟩

open Encounter in
theorem reaches_talkative : Relation.ReflTransGen Step (start (facing 2)) talkative := by
  refine .head (Step.send .left rfl) (.head (Step.send .right rfl) ?_)
  refine .head (Step.hear .right rfl rfl) (.head (Step.send .right rfl) ?_)
  refine .head (Step.hear .left rfl rfl) (.head (Step.send .left rfl) ?_)
  refine .head (Step.hear .left rfl rfl) (.head (Step.say .left rfl .getaddr) ?_)
  exact reaches_of_eq (funext fun i => by cases i <;> rfl)

open Encounter in
theorem reaches_mirrored : Relation.ReflTransGen Step (start (facing 1)) mirrored := by
  refine .head (Step.send .left rfl) (.head (Step.send .right rfl) ?_)
  refine .head (Step.hear .left rfl rfl) (.head (Step.hear .right rfl rfl) ?_)
  exact reaches_of_eq (funext fun i => by cases i <;> rfl)

theorem mirrored_stands (s : Encounter) : ¬mirrored.Step s := by
  rintro (⟨i, e, he, -⟩ | ⟨i, e, he, -⟩)
  · cases he with
    | send howed => cases howed
    | hear hwaiting => cases hwaiting
  · cases he with
    | say haccepted | listen haccepted => cases haccepted

end Scripted

/-- One endpoint is ahead of the other; and one that reaches itself. -/
theorem Encounter.both_accept_or_both_refuse_first :
    (∃ s', Scripted.talkative.Exchanges s') ∧ (Scripted.talkative .right).stage.result? = none ∧
      (Scripted.talkative .right).stage = .awaitingVerack (Scripted.facing 2 .left) ∧
        ∀ i, (Scripted.mirrored i).stage.result? = some (.error .selfConnection) := by
  have hdiffer : (Scripted.facing 2 .left).nonce ≠ (Scripted.facing 2 .right).nonce := by decide
  obtain ⟨-, hgoes, hagree⟩ := (Encounter.both_accept_or_both_refuse Scripted.reaches_talkative).1 hdiffer
  obtain ⟨-, hrefused, -⟩ := (Encounter.both_accept_or_both_refuse Scripted.reaches_mirrored).2 rfl
  have hwaits : (Scripted.talkative .right).stage.result? = none := rfl
  refine ⟨hgoes ⟨.right, hwaits⟩, hwaits, ?_, hrefused Scripted.mirrored_stands⟩
  exact (hagree .left _ rfl).2.resolve_right nofun

end ChainSync
