import ChainSync.Proofs.Assoc
import ChainSync.Sync.Request
import Mathlib.Data.List.Induction

/-!
# The flights that are left

Which flights a request holds can be read off what was done to it: a flight
remains until its peer is asked again or taken off. The latest of them is on
the peer used last, as long as that flight remains, and has to be looked for
once it does not.
-/

namespace ChainSync

inductive FlightStep
  | ask (peer : PeerId) (height : Nat)
  | drop (peer : PeerId)
  | fail (peer : PeerId)
  | wait (d : Duration)
deriving DecidableEq

namespace FlightStep

def ends (peer : PeerId) : FlightStep → Bool
  | ask p _ | drop p => p = peer
  | fail _ | wait _ => false

def isAsk : FlightStep → Bool
  | ask .. => true
  | _ => false

def duration : FlightStep → Duration
  | wait d => d
  | _ => 0

end FlightStep

open FlightStep (ask drop fail wait)

def clockAfter (now : Instant) (steps : List FlightStep) : Instant :=
  steps.foldl (fun t s => t + s.duration) now

/-- One of the steps sent this flight off, at its start, and none behind it ended a flight on its peer. -/
def Flight.Remains (now : Instant) (steps : List FlightStep) (f : Flight) : Prop :=
  ∃ before after, steps = before ++ ask f.peer f.height :: after ∧ f.start = clockAfter now before ∧
    ∀ s ∈ after, s.ends f.peer = false

structure DatedRequest where
  now : Instant
  request : Request

namespace DatedRequest

def step (t : DatedRequest) : FlightStep → DatedRequest
  | .ask peer height => { t with request := t.request.addFlight ⟨peer, height, t.now⟩ }
  | .drop peer => { t with request := t.request.removeFlight peer }
  | .fail peer => { t with request := t.request.addFailure peer }
  | .wait d => { t with now := t.now + d }

def run (steps : List FlightStep) (t : DatedRequest) : DatedRequest :=
  steps.foldl step t

theorem run_concat (steps : List FlightStep) (s : FlightStep) (t : DatedRequest) :
    t.run (steps ++ [s]) = (t.run steps).step s := by
  rw [run, run, List.foldl_append]
  rfl

end DatedRequest

/-! ## What remains, step by step -/

section
variable {now : Instant} {steps : List FlightStep} {s : FlightStep} {f g : Flight}

theorem clockAfter_concat : clockAfter now (steps ++ [s]) = clockAfter now steps + s.duration := by
  simp [clockAfter]

theorem clockAfter_mono (now : Instant) (steps rest : List FlightStep) :
    clockAfter now steps ≤ clockAfter now (steps ++ rest) := by
  induction rest using List.reverseRecOn with
  | nil => simp
  | append_singleton rest s ih =>
    rw [← List.append_assoc, clockAfter_concat]
    exact Nat.le_add_right_of_le ih

namespace Flight

theorem not_remains_nil : ¬ f.Remains now [] := by
  rintro ⟨before, after, hsteps, -⟩
  simp at hsteps

theorem remains_concat : f.Remains now (steps ++ [s]) ↔
    f.Remains now steps ∧ s.ends f.peer = false ∨ s = ask f.peer f.height ∧ f.start = clockAfter now steps := by
  constructor
  · rintro ⟨before, after, hsteps, hstart, hafter⟩
    rcases List.eq_nil_or_concat after with rfl | ⟨after, x, rfl⟩
    · obtain ⟨rfl, hs⟩ := List.append_inj' hsteps rfl
      exact Or.inr ⟨List.singleton_inj.1 hs, hstart⟩
    · have hsplit : steps ++ [s] = (before ++ ask f.peer f.height :: after) ++ [x] := by simpa using hsteps
      obtain ⟨rfl, hs⟩ := List.append_inj' hsplit rfl
      obtain rfl := List.singleton_inj.1 hs
      exact Or.inl ⟨⟨before, after, rfl, hstart, fun t ht => hafter t (by simp [ht])⟩, hafter s (by simp)⟩
  · rintro (⟨⟨before, after, rfl, hstart, hafter⟩, hs⟩ | ⟨rfl, hstart⟩)
    · refine ⟨before, after ++ [s], by simp, hstart, fun t ht => ?_⟩
      rcases List.mem_append.1 ht with ht | ht
      · exact hafter t ht
      · rwa [List.mem_singleton.1 ht]
    · exact ⟨steps, [], rfl, hstart, by simp⟩

theorem remains_concat_of_not_ask (hs : s.isAsk = false) :
    f.Remains now (steps ++ [s]) ↔ f.Remains now steps ∧ s.ends f.peer = false := by
  rw [remains_concat]
  refine or_iff_left fun hask => ?_
  rw [hask.1] at hs
  cases hs

theorem Remains.start_le (h : f.Remains now steps) : f.start ≤ clockAfter now steps := by
  obtain ⟨before, after, rfl, hstart, -⟩ := h
  rw [hstart]
  exact clockAfter_mono now before _

end Flight

end

/-! ## What a request holds -/

theorem Request.flight?_addFlight (f : Flight) (peer : PeerId) (r : Request) :
    (r.addFlight f).flight? peer = if peer = f.peer then some f else r.flight? peer :=
  Assoc.get?_set peer f.peer f r.flights

theorem Request.flight?_removeFlight (dropped peer : PeerId) (r : Request) :
    (r.removeFlight dropped).flight? peer = if peer = dropped then none else r.flight? peer :=
  Assoc.get?_erase peer dropped r.flights

/-- A request holds the flights that remain, each under its peer, and the one on the peer used last is the latest. -/
structure DatedRequest.Holds (now : Instant) (steps : List FlightStep) (t : DatedRequest) : Prop where
  clock : t.now = clockAfter now steps
  nodup : (Assoc.keys t.request.flights).Nodup
  flights : ∀ peer f, t.request.flight? peer = some f ↔ f.peer = peer ∧ f.Remains now steps
  latest : ∀ peer f, t.request.lastUsed = some peer → t.request.flight? peer = some f →
    ∀ g : Flight, g.Remains now steps → g.start ≤ f.start

namespace DatedRequest

variable {now : Instant} {steps : List FlightStep} {t : DatedRequest}

theorem holds_new (now : Instant) (height : Nat) : Holds now [] ⟨now, .new height⟩ where
  clock := rfl
  nodup := List.nodup_nil
  flights peer f := by simp [Request.flight?, Request.new, Assoc.get?, Flight.not_remains_nil]
  latest peer f hlast := by cases hlast

theorem Holds.ask (h : t.Holds now steps) (peer : PeerId) (height : Nat) :
    (t.step (.ask peer height)).Holds now (steps ++ [.ask peer height]) where
  clock := by rw [clockAfter_concat, ← h.clock]; rfl
  nodup := Assoc.nodup_keys_set h.nodup
  flights p f := by
    rw [step, Request.flight?_addFlight, Flight.remains_concat, FlightStep.ends, ← h.clock]
    by_cases hp : p = peer
    · subst hp
      obtain ⟨q, height', start⟩ := f
      simp only [if_true, Option.some.injEq, Flight.mk.injEq, FlightStep.ask.injEq, decide_eq_false_iff_not]
      constructor
      · rintro ⟨rfl, rfl, rfl⟩
        exact ⟨rfl, Or.inr ⟨⟨rfl, rfl⟩, rfl⟩⟩
      · rintro ⟨rfl, ⟨-, hne⟩ | ⟨⟨-, rfl⟩, rfl⟩⟩
        · exact absurd rfl hne
        · exact ⟨rfl, rfl, rfl⟩
    · rw [if_neg hp]
      refine (h.flights p f).trans (and_congr_right fun hpeer => ?_)
      subst hpeer
      simp [Ne.symm hp]
  latest p f hlast hf g hg := by
    -- the new flight starts now, and no flight starts later
    obtain rfl : peer = p := Option.some.inj hlast
    rw [step, Request.flight?_addFlight, if_pos rfl] at hf
    obtain rfl := Option.some.inj hf
    have hle := hg.start_le
    rwa [clockAfter_concat, ← h.clock] at hle

theorem Holds.drop (h : t.Holds now steps) (peer : PeerId) :
    (t.step (.drop peer)).Holds now (steps ++ [.drop peer]) where
  clock := by rw [clockAfter_concat, ← h.clock]; rfl
  nodup := h.nodup.sublist (List.filter_sublist.map _)
  flights p f := by
    rw [step, Request.flight?_removeFlight, Flight.remains_concat_of_not_ask rfl, FlightStep.ends]
    by_cases hp : p = peer
    · subst hp
      refine iff_of_false (by simp) ?_
      rintro ⟨rfl, -, hne⟩
      simp at hne
    · rw [if_neg hp]
      refine (h.flights p f).trans (and_congr_right fun hpeer => ?_)
      subst hpeer
      simp [Ne.symm hp]
  latest p f hlast hf g hg := by
    rw [step, Request.flight?_removeFlight] at hf
    split at hf
    · cases hf
    · exact h.latest p f hlast hf g ((Flight.remains_concat_of_not_ask rfl).1 hg).1

theorem Holds.idle {t' : DatedRequest} {s : FlightStep} (h : t.Holds now steps) (hask : s.isAsk = false)
    (hends : ∀ peer, s.ends peer = false) (hclock : t'.now = t.now + s.duration)
    (hflights : t'.request.flights = t.request.flights) (hlast : t'.request.lastUsed = t.request.lastUsed) :
    t'.Holds now (steps ++ [s]) := by
  have hsame : ∀ peer, t'.request.flight? peer = t.request.flight? peer := by
    intro peer
    rw [Request.flight?, Request.flight?, hflights]
  have hremains : ∀ f : Flight, f.Remains now (steps ++ [s]) ↔ f.Remains now steps := by
    intro f
    rw [Flight.remains_concat_of_not_ask hask]
    exact and_iff_left (hends f.peer)
  refine ⟨by rw [hclock, clockAfter_concat, h.clock], hflights ▸ h.nodup, fun peer f => ?_, fun peer f hp hf g hg => ?_⟩
  · rw [hsame, hremains]
    exact h.flights peer f
  · rw [hlast] at hp
    rw [hsame] at hf
    exact h.latest peer f hp hf g ((hremains g).1 hg)

theorem Holds.step (h : t.Holds now steps) (s : FlightStep) : (t.step s).Holds now (steps ++ [s]) := by
  cases s with
  | ask peer height => exact h.ask peer height
  | drop peer => exact h.drop peer
  | fail peer => exact h.idle rfl (fun _ => rfl) rfl rfl rfl
  | wait d => exact h.idle rfl (fun _ => rfl) rfl rfl rfl

theorem holds_run (now : Instant) (height : Nat) (steps : List FlightStep) :
    (run steps ⟨now, .new height⟩).Holds now steps := by
  induction steps using List.reverseRecOn with
  | nil => exact holds_new now height
  | append_singleton steps s ih =>
    rw [run_concat]
    exact ih.step s

theorem lastUsed_run (peer : PeerId) (after : List FlightStep) (hafter : ∀ s ∈ after, s.isAsk = false)
    (ht : t.request.lastUsed = some peer) : (t.run after).request.lastUsed = some peer := by
  induction after using List.reverseRecOn with
  | nil => exact ht
  | append_singleton after s ih =>
    rw [run_concat]
    have hbefore := ih fun x hx => hafter x (by simp [hx])
    have hs := hafter s (by simp)
    cases s with
    | ask => cases hs
    | drop | fail | wait => exact hbefore

end DatedRequest

/-! ## The latest of them -/

namespace Request

theorem latest?_eq_none_iff {fs : List Flight} : latest? fs = none ↔ fs = [] := by
  cases fs with
  | nil => simp [latest?]
  | cons f fs =>
    rw [latest?]
    cases latest? fs <;> simp

theorem latest?_spec : ∀ {fs : List Flight} {f : Flight}, latest? fs = some f → f ∈ fs ∧ ∀ g ∈ fs, g.start ≤ f.start
  | [], _, h => by cases h
  | e :: fs, f, h => by
    rw [latest?] at h
    cases hrest : latest? fs with
    | none =>
      rw [hrest] at h
      obtain rfl := Option.some.inj h
      simp [latest?_eq_none_iff.1 hrest]
    | some g =>
      obtain ⟨hmem, hle⟩ := latest?_spec hrest
      rw [hrest] at h
      have hf := Option.some.inj h
      by_cases hge : e.start ≤ g.start
      · rw [if_pos hge] at hf
        subst hf
        simpa [hmem, hge] using hle
      · rw [if_neg hge] at hf
        subst hf
        refine ⟨List.mem_cons_self .., fun x hx => ?_⟩
        rcases List.mem_cons.1 hx with rfl | hx
        · exact Nat.le_refl _
        · exact Nat.le_trans (hle x hx) (Nat.le_of_not_le hge)

end Request

namespace DatedRequest.Holds

variable {now : Instant} {steps : List FlightStep} {t : DatedRequest} {f : Flight}

/-- The order in which the flights are kept does not matter. -/
theorem perm (h : t.Holds now steps) {flights : List (PeerId × Flight)} (hp : flights.Perm t.request.flights) :
    Holds now steps { t with request := { t.request with flights } } := by
  have hnodup : (Assoc.keys flights).Nodup := (hp.map Prod.fst).nodup_iff.2 h.nodup
  have hsame : ∀ peer f, Assoc.get? peer flights = some f ↔ t.request.flight? peer = some f := by
    intro peer f
    rw [Request.flight?, Assoc.get?_eq_some_iff hnodup, Assoc.get?_eq_some_iff h.nodup]
    exact hp.mem_iff
  exact ⟨h.clock, hnodup, fun peer f => (hsame peer f).trans (h.flights peer f), fun peer f hlast hf =>
    h.latest peer f hlast ((hsame peer f).1 hf)⟩

theorem mem_flights_iff (h : t.Holds now steps) : f ∈ t.request.flights.map (·.2) ↔ f.Remains now steps := by
  constructor
  · intro hf
    obtain ⟨⟨peer, f⟩, hmem, rfl⟩ := List.mem_map.1 hf
    exact ((h.flights peer f).1 ((Assoc.get?_eq_some_iff h.nodup).2 hmem)).2
  · intro hf
    exact List.mem_map.2 ⟨(f.peer, f), Assoc.mem_of_get? ((h.flights f.peer f).2 ⟨rfl, hf⟩), rfl⟩

theorem recent?_eq_none_iff (h : t.Holds now steps) :
    t.request.recent? = none ↔ ∀ f : Flight, ¬ f.Remains now steps := by
  have hlatest : Request.latest? (t.request.flights.map (·.2)) = none ↔ ∀ f : Flight, ¬ f.Remains now steps := by
    rw [Request.latest?_eq_none_iff, List.eq_nil_iff_forall_not_mem]
    exact forall_congr' fun f => not_congr h.mem_flights_iff
  rw [Request.recent?, Option.or_eq_none_iff, hlatest]
  refine and_iff_right_of_imp fun hnone => ?_
  cases hlast : t.request.lastUsed with
  | none => rfl
  | some peer =>
    cases hf : t.request.flight? peer with
    | none => exact hf
    | some f => exact absurd ((h.flights peer f).1 hf).2 (hnone f)

theorem recent?_spec (h : t.Holds now steps) (hf : t.request.recent? = some f) :
    f.Remains now steps ∧ ∀ g : Flight, g.Remains now steps → g.start ≤ f.start := by
  rcases Option.or_eq_some_iff.1 hf with hf | ⟨-, hf⟩
  · obtain ⟨peer, hlast, hflight⟩ := Option.bind_eq_some_iff.1 hf
    exact ⟨((h.flights peer f).1 hflight).2, h.latest peer f hlast hflight⟩
  · obtain ⟨hmem, hle⟩ := Request.latest?_spec hf
    exact ⟨h.mem_flights_iff.1 hmem, fun g hg => hle g (h.mem_flights_iff.2 hg)⟩

theorem recent?_of_last (h : t.Holds now steps) (hlast : t.request.lastUsed = some f.peer)
    (hf : f.Remains now steps) : t.request.recent? = some f := by
  rw [Request.recent?, hlast, Option.bind_some, (h.flights f.peer f).2 ⟨rfl, hf⟩, Option.some_or]

end DatedRequest.Holds

theorem DatedRequest.lastUsed_of_split {now : Instant} {height : Nat} {before after : List FlightStep} {f : Flight}
    (hafter : ∀ s ∈ after, s.isAsk = false) :
    (run (before ++ ask f.peer f.height :: after) ⟨now, .new height⟩).request.lastUsed = some f.peer := by
  rw [run, List.foldl_append, List.foldl_cons]
  exact lastUsed_run f.peer after hafter rfl

/-- After any steps a request holds, under each peer, the flight on it that remains, so at most one and none that was
sent before the peer was asked again. However the flights are kept in order, the recent one is one of those that
remain and started last of them, there is none only if none remains, and it is the last one sent if that remains. -/
theorem DatedRequest.recent_flight_started_last (height : Nat) (now : Instant) (steps : List FlightStep) :
    let r := (run steps ⟨now, .new height⟩).request
    (Assoc.keys r.flights).Nodup ∧
      (∀ peer f, r.flight? peer = some f ↔ f.peer = peer ∧ f.Remains now steps) ∧
      ∀ flights, flights.Perm r.flights →
        let r : Request := { r with flights }
        (r.recent? = none ↔ ∀ f : Flight, ¬ f.Remains now steps) ∧
          (∀ f, r.recent? = some f → f.Remains now steps ∧ ∀ g : Flight, g.Remains now steps → g.start ≤ f.start) ∧
          ∀ before after f, steps = before ++ ask f.peer f.height :: after → f.start = clockAfter now before →
            (∀ s ∈ after, s.isAsk = false) → drop f.peer ∉ after → r.recent? = some f := by
  intro r
  have h : Holds now steps _ := holds_run now height steps
  refine ⟨h.nodup, h.flights, fun flights hp => ?_⟩
  have hany := h.perm hp
  refine ⟨hany.recent?_eq_none_iff, fun f => hany.recent?_spec, fun before after f hsteps hstart hasks hdrop => ?_⟩
  refine hany.recent?_of_last ?_ ⟨before, after, hsteps, hstart, fun s hs => ?_⟩
  · show (run steps ⟨now, .new height⟩).request.lastUsed = some f.peer
    rw [hsteps]
    exact lastUsed_of_split hasks
  · cases s with
    | ask => exact absurd (hasks _ hs) (by simp [FlightStep.isAsk])
    | drop peer =>
      have hne : peer ≠ f.peer := by
        rintro rfl
        exact hdrop hs
      simp [FlightStep.ends, hne]
    | fail | wait => rfl

/-- One peer asked twice and another in between, with the flights kept in the order of the last attempts. -/
theorem DatedRequest.recent_flight_started_last_asked_again :
    let steps := [ask 1 7, wait 5, ask 2 7, wait 5, ask 1 7, fail 2]
    let r := (run steps ⟨0, .new 7⟩).request
    let kept : Request := { r with flights := [(2, ⟨2, 7, 5⟩), (1, ⟨1, 7, 10⟩)] }
    kept.flights.Perm r.flights ∧ kept.recent? = some ⟨1, 7, 10⟩ ∧ (⟨2, 7, 5⟩ : Flight).Remains 0 steps ∧
      (⟨2, 7, 5⟩ : Flight).start ≤ (⟨1, 7, 10⟩ : Flight).start ∧ ¬ (⟨1, 7, 0⟩ : Flight).Remains 0 steps := by
  intro steps r kept
  have hperm : kept.flights.Perm r.flights := List.Perm.swap _ _ []
  obtain ⟨-, hflights, hany⟩ := recent_flight_started_last 7 0 steps
  obtain ⟨-, hlatest, hlast⟩ := hany kept.flights hperm
  have hrecent : kept.recent? = some ⟨1, 7, 10⟩ :=
    hlast [ask 1 7, wait 5, ask 2 7, wait 5] [fail 2] ⟨1, 7, 10⟩ rfl rfl (by decide) (by decide)
  have hother : (⟨2, 7, 5⟩ : Flight).Remains 0 steps := ((hflights 2 _).1 rfl).2
  refine ⟨hperm, hrecent, hother, (hlatest _ hrecent).2 _ hother, fun hgone => ?_⟩
  exact absurd ((hflights 1 _).2 ⟨rfl, hgone⟩) (by decide)

end ChainSync
