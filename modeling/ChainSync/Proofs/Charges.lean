import ChainSync.Proofs.Room
import ChainSync.Proofs.Uncharged
import Mathlib.Data.Finset.Card

/-!
# Timeouts and the messages they are charged for

Each charge is paid for by a message whose deadline has passed. What carries
the count over all rounds is how many different times the latest flights to
a peer started at, of those that are overdue: a message adds one at most, as
all its flights start with it, and when they lapse at least one is gone for
the one charge.
-/

namespace ChainSync

def SyncConfig.isDue (config : SyncConfig) (now : Instant) (sent : Instant × Message) : Bool :=
  match sent.2 with
  | .getheaders _ => sent.1 + config.headerTimeout ≤ now
  | .getdata inventory => inventory.kind = .block && sent.1 + config.blockTimeout ≤ now
  | _ => false

section
variable {config : SyncConfig} {now due : Instant}

theorem SyncConfig.isDue_getheaders {locator : Locator} :
    config.isDue due (now, .getheaders locator) = true ↔ now + config.headerTimeout ≤ due :=
  decide_eq_true_iff

theorem SyncConfig.isDue_getdata {hashes : List Hash} :
    config.isDue due (now, .getdata ⟨.block, hashes⟩) = true ↔ now + config.blockTimeout ≤ due :=
  decide_eq_true_iff

end

theorem Flight.isTimedOut_iff {now : Instant} {timeout : Duration} {f : Flight} :
    f.isTimedOut now timeout = true ↔ timeout ≤ now - f.start :=
  decide_eq_true_iff

namespace Node

/-! ## Overdue flights -/

/-- When the latest flights to a peer started, of those that are overdue by `due`. -/
def lateStarts (due : Instant) (timeout : Duration) (id : PeerId) (requests : List Request) : Finset Instant :=
  (((requests.filterMap Request.recent?).filter fun f => f.peer = id && f.isTimedOut due timeout).map
    Flight.start).toFinset

variable {due now : Instant} {timeout : Duration} {id : PeerId} {requests requests' : List Request}

theorem mem_lateStarts {start : Instant} : start ∈ lateStarts due timeout id requests ↔
    ∃ r ∈ requests, ∃ f, r.recent? = some f ∧ f.peer = id ∧ f.isTimedOut due timeout = true ∧ f.start = start := by
  simp only [lateStarts, List.mem_toFinset, List.mem_map, List.mem_filter, List.mem_filterMap, Bool.and_eq_true,
    decide_eq_true_eq]
  constructor
  · rintro ⟨f, ⟨⟨r, hr, hf⟩, hid, hlate⟩, hstart⟩
    exact ⟨r, hr, f, hf, hid, hlate, hstart⟩
  · rintro ⟨r, hr, f, hf, hid, hlate, hstart⟩
    exact ⟨f, ⟨⟨r, hr, hf⟩, hid, hlate⟩, hstart⟩

theorem lateStarts_mono (h : ∀ r ∈ requests', r ∈ requests) :
    lateStarts due timeout id requests' ⊆ lateStarts due timeout id requests := by
  intro start hstart
  obtain ⟨r, hr, hf⟩ := mem_lateStarts.1 hstart
  exact mem_lateStarts.2 ⟨r, h r hr, hf⟩

theorem card_lateStarts_ask {peer : PeerId} (timeout : Duration) (id : PeerId) (hdue : now ≤ due)
    (h : ∀ r ∈ requests', r ∈ requests ∨ r.FlownTo peer now) :
    (lateStarts due timeout id requests').card ≤
      (lateStarts due timeout id requests).card + if id = peer ∧ now + timeout ≤ due then 1 else 0 := by
  by_cases hnew : id = peer ∧ now + timeout ≤ due
  · rw [if_pos hnew]
    have hsub : lateStarts due timeout id requests' ⊆ insert now (lateStarts due timeout id requests) := by
      intro start hstart
      obtain ⟨r, hr, f, hf, hid, hlate, rfl⟩ := mem_lateStarts.1 hstart
      obtain hold | hflown := h r hr
      · exact Finset.mem_insert_of_mem (mem_lateStarts.2 ⟨r, hold, f, hf, hid, hlate, rfl⟩)
      · obtain rfl := Option.some.inj (hf.symm.trans hflown.recent)
        exact Finset.mem_insert_self _ _
    exact (Finset.card_le_card hsub).trans (Finset.card_insert_le _ _)
  · rw [if_neg hnew, Nat.add_zero]
    apply Finset.card_le_card
    intro start hstart
    obtain ⟨r, hr, f, hf, hid, hlate, rfl⟩ := mem_lateStarts.1 hstart
    obtain hold | hflown := h r hr
    · exact mem_lateStarts.2 ⟨r, hold, f, hf, hid, hlate, rfl⟩
    · obtain rfl := Option.some.inj (hf.symm.trans hflown.recent)
      have helapsed : timeout ≤ due - now := Flight.isTimedOut_iff.1 hlate
      exact absurd ⟨hid.symm, Nat.add_le_of_le_sub' hdue helapsed⟩ hnew

theorem card_lateStarts_lapse (hdue : now ≤ due) (h : Blames now timeout requests id) :
    (lateStarts due timeout id (requests.filter fun r => !isOverdue now timeout r)).card <
      (lateStarts due timeout id requests).card := by
  obtain ⟨r, hr, f, hf, hlate, hid⟩ := h
  have hlater : f.isTimedOut due timeout = true := by
    rw [Flight.isTimedOut_iff] at hlate ⊢
    exact Nat.le_trans hlate (Nat.sub_le_sub_right hdue _)
  apply Finset.card_lt_card
  rw [Finset.ssubset_iff_of_subset (lateStarts_mono fun r hr => List.mem_of_mem_filter hr)]
  -- whether a flight is overdue depends on its start alone, so none with this start is kept
  refine ⟨f.start, mem_lateStarts.2 ⟨r, hr, f, hf, hid, hlater, rfl⟩, fun hmem => ?_⟩
  obtain ⟨r', hr', f', hf', -, -, hstart⟩ := mem_lateStarts.1 hmem
  have hkept : isOverdue now timeout r' = false := by simpa using (List.mem_filter.1 hr').2
  have hlate' : f'.isTimedOut now timeout = true := by
    rw [Flight.isTimedOut, Flight.elapsed, hstart]
    exact hlate
  simp [isOverdue, hf', hlate'] at hkept

/-! ## What charges are paid with -/

/-- The overdue messages to a peer for which nobody was charged yet, as far as the requests tell. -/
def unpaid (due : Instant) (id : PeerId) (n : Node) : Nat :=
  (lateStarts due n.sync.config.headerTimeout id n.sync.header.toList).card +
    (lateStarts due n.sync.config.blockTimeout id (n.sync.blocks.map (·.2))).card

variable {n n' : Node}

theorem Lapses.unpaid (l : n.Lapses now n') (hdue : now ≤ due) : ∃ charged,
    n.pool.Deals Pool.silent charged n'.pool ∧ ∀ id, charged id + n'.unpaid due id ≤ n.unpaid due id := by
  -- of either kind of requests, with `kept` what is not overdue of `old`
  have hcount : ∀ {timeout : Duration} {ids : List PeerId} {old kept : List Request},
      kept = old.filter (fun r => !isOverdue now timeout r) → (∀ id ∈ ids, Blames now timeout old id) → ∀ id,
      (if id ∈ ids then 1 else 0) + (lateStarts due timeout id kept).card ≤ (lateStarts due timeout id old).card := by
    rintro timeout ids old kept rfl hids id
    by_cases hid : id ∈ ids
    · have := card_lateStarts_lapse hdue (hids id hid)
      rw [if_pos hid]
      omega
    · rw [if_neg hid, Nat.zero_add]
      exact Finset.card_le_card (lateStarts_mono fun r hr => List.mem_of_mem_filter hr)
  cases l with
  | headers ids hd hids =>
    have hkept : (n.pendingHeader now).toList =
        n.sync.header.toList.filter fun r => !isOverdue now n.sync.config.headerTimeout r := by
      unfold pendingHeader
      cases n.sync.header with
      | none => rfl
      | some r => cases hr : isOverdue now n.sync.config.headerTimeout r <;> simp [hr]
    refine ⟨_, Pool.deals_charge hd n.pool, fun id => ?_⟩
    unfold unpaid
    rw [← Nat.add_assoc]
    exact Nat.add_le_add_right (hcount hkept hids id) _
  | blocks ids hd hids =>
    have hkept : (n.pendingBlocks now).map (·.2) =
        (n.sync.blocks.map (·.2)).filter fun r => !isOverdue now n.sync.config.blockTimeout r := by
      rw [List.filter_map]
      rfl
    refine ⟨_, Pool.deals_charge hd n.pool, fun id => ?_⟩
    unfold unpaid
    rw [Nat.add_left_comm]
    exact Nat.add_le_add_left (hcount hkept hids id) _

variable [Digest] {told : PeerId → List Message}

omit [Digest] in
theorem countP_onlyTo (peer id : PeerId) (m : Message) (p : Message → Bool) :
    (m.onlyTo peer id).countP p = if id = peer ∧ p m = true then 1 else 0 := by
  unfold Message.onlyTo
  by_cases hid : id = peer
  · simp [hid, List.countP_singleton]
  · simp [hid]

theorem Asks.unpaid (q : n.Asks now told n') (hdue : now ≤ due) (id : PeerId) :
    n'.unpaid due id ≤ n.unpaid due id + (told id).countP fun m => n.sync.config.isDue due (now, m) := by
  cases q with
  | nothing pool h => exact Nat.le_refl _
  | headers peer pool r hflown h =>
    have hall : ∀ r' ∈ [r], r' ∈ n.sync.header.toList ∨ r'.FlownTo peer now := by
      intro r' hr'
      exact .inr (List.mem_singleton.1 hr' ▸ hflown)
    have hcount := card_lateStarts_ask n.sync.config.headerTimeout id hdue hall
    simp only [countP_onlyTo, SyncConfig.isDue_getheaders]
    unfold Node.unpaid
    rw [Nat.add_right_comm]
    exact Nat.add_le_add_right hcount _
  | blocks peer pool hashes blocks hblocks h =>
    have hall : ∀ r ∈ blocks.map (·.2), r ∈ n.sync.blocks.map (·.2) ∨ r.FlownTo peer now := by
      intro r hr
      obtain ⟨e, he, rfl⟩ := List.mem_map.1 hr
      exact (hblocks e he).imp List.mem_map_of_mem And.right
    have hcount := card_lateStarts_ask n.sync.config.blockTimeout id hdue hall
    simp only [countP_onlyTo, SyncConfig.isDue_getdata]
    unfold Node.unpaid
    rw [Nat.add_assoc]
    exact Nat.add_le_add_left hcount _

/-- Along turns each charge is paid for by what was unpaid before or by a message of theirs. -/
theorem Turns.paid (t : n.Turns now told n') (hdue : now ≤ due) : ∃ charged, n.pool.Deals told charged n'.pool ∧
    ∀ id, charged id + n'.unpaid due id ≤
      n.unpaid due id + (told id).countP fun m => n.sync.config.isDue due (now, m) := by
  induction t with
  | refl => exact ⟨Pool.free, .refl _, fun id => by simp [Pool.free, Pool.silent]⟩
  | lapse t l ih =>
    obtain ⟨charged, hdeals, hpaid⟩ := ih
    obtain ⟨charged', hdeals', hpaid'⟩ := l.unpaid hdue
    have hboth := hdeals.trans hdeals'
    simp only [Pool.silent, List.append_nil] at hboth
    refine ⟨_, hboth, fun id => ?_⟩
    have := hpaid id
    have := hpaid' id
    omega
  | ask t q ih =>
    obtain ⟨charged, hdeals, hpaid⟩ := ih
    refine ⟨_, hdeals.trans q.pool, fun id => ?_⟩
    have := hpaid id
    have hadded := q.unpaid hdue id
    rw [t.config] at hadded
    rw [List.countP_append, Pool.free, Nat.add_zero]
    omega

omit [Digest] in
theorem Wanes.unpaid_le (h : n.Wanes n') (hconfig : n'.sync.config = n.sync.config) (due : Instant) (id : PeerId) :
    n'.unpaid due id ≤ n.unpaid due id := by
  unfold Node.unpaid
  rw [hconfig]
  refine Nat.add_le_add (Finset.card_le_card (lateStarts_mono fun r hr => ?_))
    (Finset.card_le_card (lateStarts_mono fun r hr => ?_))
  · rw [Option.mem_toList] at hr ⊢
    exact h.header r hr
  · obtain ⟨e, he, rfl⟩ := List.mem_map.1 hr
    exact List.mem_map_of_mem (h.blocks e he)

end Node

/-! ## Runs -/

namespace World

variable [Digest]

def asked (id : PeerId) (w : World) : List Action → List (Instant × Message)
  | [] => []
  | a :: actions => (a.asks id w).map (w.now, ·) ++ asked id (a.step w) actions

theorem now_le_run : ∀ (actions : List Action) (w : World), w.now ≤ (w.run actions).now
  | [], _ => Nat.le_refl _
  | a :: actions, w => Nat.le_trans (Nat.le_add_right w.now a.elapsed) (now_le_run actions (a.step w))

theorem paid_step {w : World} (h : w.node.Regular) (a : Action) {due : Instant} (hdue : w.now ≤ due) :
    ∃ charged : PeerId → Nat,
      (∀ bound, w.node.pool.Within bound → (a.step w).node.pool.Within fun id => bound id + charged id) ∧
      ∀ id, charged id + (a.step w).node.unpaid due id ≤
        w.node.unpaid due id + (a.asks id w).countP fun m => w.node.sync.config.isDue due (w.now, m) := by
  cases ha : a.isRound with
  | true =>
    obtain ⟨charged, hdeals, hpaid⟩ := (Action.turns_act ha h).paid hdue
    exact ⟨charged, hdeals.within, hpaid⟩
  | false =>
    refine ⟨Pool.free, (a.inherits_act ha w.now h.keyed).spares, fun id => ?_⟩
    have hwanes := (a.wanes_act ha w.now w.node).unpaid_le (w.config_run [a]).1 due id
    rw [Pool.free, Nat.zero_add]
    exact Nat.le_add_right_of_le hwanes

/-- What is left unpaid carries over from each action to the next. -/
theorem paid_run : ∀ (actions : List Action) {w : World}, w.node.Regular → ∀ {due : Instant},
    (w.run actions).now ≤ due → ∃ charged : PeerId → Nat,
      (∀ bound, w.node.pool.Within bound → (w.run actions).node.pool.Within fun id => bound id + charged id) ∧
      ∀ id, charged id + (w.run actions).node.unpaid due id ≤
        w.node.unpaid due id + (w.asked id actions).countP (w.node.sync.config.isDue due)
  | [], w, _, due, _ => ⟨Pool.free, fun _ h => h, fun id => by simp [Pool.free, asked, run]⟩
  | a :: actions, w, h, due, hdue => by
    obtain ⟨charged, hwithin, hpaid⟩ := paid_step h a ((now_le_run (a :: actions) w).trans hdue)
    obtain ⟨charged', hwithin', hpaid'⟩ := paid_run actions (w := a.step w) (h.act w.now a) hdue
    refine ⟨fun id => charged id + charged' id, fun bound hb p hp => ?_, fun id => ?_⟩
    · have := hwithin' _ (hwithin bound hb) p hp
      simpa only [Nat.add_assoc] using this
    · have := hpaid id
      have hlater := hpaid' id
      have hconfig : (a.step w).node.sync.config = w.node.sync.config := (w.config_run [a]).1
      rw [hconfig] at hlater
      have hasked : (w.asked id (a :: actions)).countP (w.node.sync.config.isDue due) =
          (a.asks id w).countP (fun m => w.node.sync.config.isDue due (w.now, m)) +
            ((a.step w).asked id actions).countP (w.node.sync.config.isDue due) := by
        rw [asked, List.countP_append, List.countP_map]
        rfl
      show charged id + charged' id + ((a.step w).run actions).node.unpaid due id ≤ _
      rw [hasked]
      omega

end World

/-- No peer was ever charged with more timeouts than there were requests to it whose deadline has passed by now. -/
theorem World.charges_are_due [Digest] (now : Instant) (g : Block) (ops : List Ledger.Op) (pool : PoolConfig)
    (nonce : UInt32) (config : SyncConfig) (actions : List Action) :
    let w : World := ⟨now, .fresh ((Ledger.ofGenesis g).runOps ops) pool nonce config⟩
    let w' := w.run actions
    ∀ p ∈ w'.node.pool.peers, p.weight.timeouts ≤ (w.asked p.id actions).countP (config.isDue w'.now) := by
  intro w w' p hp
  have hregular : w.node.Regular := Node.regular_fresh ..
  have hfresh : w.node.pool.Within fun _ => 0 := fun _ hp => absurd hp List.not_mem_nil
  obtain ⟨charged, hwithin, hpaid⟩ := paid_run actions hregular (Nat.le_refl w'.now)
  have hcharged : p.weight.timeouts ≤ 0 + charged p.id := hwithin _ hfresh p hp
  have hnone : w.node.unpaid w'.now p.id = 0 := rfl
  have := hpaid p.id
  rw [hnone] at this
  show _ ≤ List.countP (w.node.sync.config.isDue w'.now) _
  omega

end ChainSync
