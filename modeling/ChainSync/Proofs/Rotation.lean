import ChainSync.Proofs.Batches
import Mathlib.Algebra.BigOperators.Group.Finset.Piecewise
import Mathlib.Algebra.Order.BigOperators.Group.Finset

/-!
# Turns at a request for headers

An overdue request goes to a peer that failed it least. As long as the same
peers may be asked, nothing else is needed to make them take turns: the one
in charge has failed the request as seldom as any, and nobody more than once
more often. Weights only decide who comes next among equals.
-/

namespace ChainSync

/-! ## Counts of failures -/

namespace Request

variable {r : Request} {Q : Finset PeerId} {f g : Flight}

/-- The peers take turns at the request, and the one in charge is not ahead of any other. -/
structure InTurn (Q : Finset PeerId) (f : Flight) (r : Request) : Prop where
  recent : r.recent? = some f
  mem : f.peer ∈ Q
  least : ∀ id ∈ Q, r.failures f.peer ≤ r.failures id
  even : ∀ id ∈ Q, r.failures id ≤ r.failures f.peer + 1
  others : ∀ id ∉ Q, r.failures id = 0
  total : ∑ id ∈ Q, r.failures id = r.failedTotal

theorem failures_addFailure (peer id : PeerId) (r : Request) :
    (r.addFailure peer).failures id = r.failures id + if id = peer then 1 else 0 := by
  unfold failures addFailure
  dsimp only
  rw [Assoc.get?_set]
  by_cases h : id = peer
  · rw [if_pos h, if_pos h, h, Option.getD_some, failures]
  · rw [if_neg h, if_neg h, Nat.add_zero]

theorem inTurn_start {first : PeerId} (h : first ∈ Q) (start : Instant) (height : Nat) :
    (Request.start start first height).InTurn Q ⟨first, height, start⟩ where
  recent := (flownTo_addFlight first start (.new height)).recent
  mem := h
  least := fun _ _ => Nat.le_refl _
  even := fun _ _ => Nat.zero_le _
  others := fun _ _ => rfl
  total := Finset.sum_eq_zero fun _ _ => rfl

/-- Who failed least comes next. -/
theorem InTurn.next (h : r.InTurn Q f) {id : PeerId} (hid : id ∈ Q)
    (hleast : ∀ k ∈ Q, (r.addFailure f.peer).failures id ≤ (r.addFailure f.peer).failures k) (now : Instant) :
    ((r.addFailure f.peer).addFlight ⟨id, r.height, now⟩).InTurn Q ⟨id, r.height, now⟩ where
  recent := (flownTo_addFlight id now (r.addFailure f.peer)).recent
  mem := hid
  least := hleast
  even := by
    intro k hk
    show (r.addFailure f.peer).failures k ≤ (r.addFailure f.peer).failures id + 1
    have hlow := h.least id hid
    have hhigh := h.even k hk
    rw [failures_addFailure, failures_addFailure]
    by_cases hpeer : k = f.peer
    · rw [if_pos hpeer, hpeer]
      omega
    · rw [if_neg hpeer]
      omega
  others := by
    intro k hk
    show (r.addFailure f.peer).failures k = 0
    have hother : k ≠ f.peer := fun heq => hk (heq ▸ h.mem)
    rw [failures_addFailure, h.others k hk, if_neg hother]
  total := by
    show ∑ k ∈ Q, (r.addFailure f.peer).failures k = r.failedTotal + 1
    simp only [failures_addFailure, Finset.sum_add_distrib, h.total, Finset.sum_ite_eq', h.mem, if_true]

/-- Every peer has its share of the failures, rounded down or up. -/
theorem InTurn.share (h : r.InTurn Q f) {id : PeerId} (hid : id ∈ Q) :
    r.failures id = r.failedTotal / Q.card ∨ r.failures id = (r.failedTotal + Q.card - 1) / Q.card := by
  have hconst : ∑ _k ∈ Q, r.failures f.peer = Q.card * r.failures f.peer := Finset.sum_const_nat fun _ _ => rfl
  have hsucc : ∑ _k ∈ Q, (r.failures f.peer + 1) = Q.card * (r.failures f.peer + 1) :=
    Finset.sum_const_nat fun _ _ => rfl
  have hlow : Q.card * r.failures f.peer ≤ r.failedTotal := by
    rw [← h.total, ← hconst]
    exact Finset.sum_le_sum h.least
  have hhigh : r.failedTotal < Q.card * (r.failures f.peer + 1) := by
    rw [← h.total, ← hsucc]
    exact Finset.sum_lt_sum h.even ⟨f.peer, h.mem, Nat.lt_succ_self _⟩
  rw [Nat.mul_succ] at hhigh
  rcases Nat.lt_or_eq_of_le (h.least id hid) with hmore | hsame
  · have hone : r.failures id = r.failures f.peer + 1 := Nat.le_antisymm (h.even id hid) hmore
    have hstrict : Q.card * r.failures f.peer < r.failedTotal := by
      rw [← h.total, ← hconst]
      exact Finset.sum_lt_sum h.least ⟨id, hid, hmore⟩
    refine .inr ?_
    rw [hone]
    refine (Nat.div_eq_of_lt_le ?_ ?_).symm
    · rw [Nat.mul_comm, Nat.mul_succ]
      omega
    · rw [Nat.mul_comm, Nat.mul_succ, Nat.mul_succ]
      omega
  · refine .inl ?_
    rw [← hsame]
    refine (Nat.div_eq_of_lt_le ?_ ?_).symm
    · rw [Nat.mul_comm]
      exact hlow
    · rw [Nat.mul_comm, Nat.mul_succ]
      exact hhigh

/-- Nobody failed twice before all did once. -/
theorem InTurn.first_turn (h : r.InTurn Q f) (hfew : r.failedTotal < Q.card) (id : PeerId) :
    r.failures id + (if id = f.peer then 1 else 0) ≤ 1 := by
  have hzero : r.failures f.peer = 0 := by
    by_contra hpos
    have hall : ∑ _k ∈ Q, 1 ≤ ∑ k ∈ Q, r.failures k :=
      Finset.sum_le_sum fun k hk => (Nat.one_le_iff_ne_zero.2 hpos).trans (h.least k hk)
    rw [h.total, Finset.sum_const_nat fun _ _ => rfl] at hall
    omega
  by_cases hid : id ∈ Q
  · by_cases hpeer : id = f.peer
    · rw [if_pos hpeer, hpeer, hzero]
    · have := h.even id hid
      rw [if_neg hpeer]
      omega
  · have hother : id ≠ f.peer := fun heq => hid (heq ▸ h.mem)
    rw [h.others id hid, if_neg hother]
    exact Nat.zero_le _

end Request

/-! ## Who may be asked -/

namespace Pool

variable {pool pool' : Pool} {height : Nat} {id : PeerId}

def reaching (height : Nat) (pool : Pool) : Finset PeerId :=
  ((pool.pooledPeers.filter fun p => p.isActive && height ≤ p.bestHeight).map Peer.id).toFinset

theorem mem_reaching : id ∈ pool.reaching height ↔ ∃ p, p.id = id ∧ pool.Reaches height p := by
  simp only [reaching, List.mem_toFinset, List.mem_map, List.mem_filter, Bool.and_eq_true, decide_eq_true_eq]
  constructor
  · rintro ⟨p, ⟨hp, hactive, hheight⟩, hid⟩
    exact ⟨p, hid, hp, hactive, hheight⟩
  · rintro ⟨p, hid, hp, hactive, hheight⟩
    exact ⟨p, ⟨hp, hactive, hheight⟩, hid⟩

theorem Dwindles.reaching_subset (d : pool.Dwindles pool') (height : Nat) :
    pool'.reaching height ⊆ pool.reaching height := by
  intro id hid
  obtain ⟨q, rfl, hq⟩ := mem_reaching.1 hid
  obtain ⟨p, hp, hreaches⟩ := d.reaches hq
  exact mem_reaching.2 ⟨p, hp, hreaches⟩

theorem reaching_of_roster_eq (h : pool'.roster = pool.roster) : pool'.reaching height = pool.reaching height :=
  Finset.Subset.antisymm ((Dwindles.of_roster_eq h).reaching_subset height)
    ((Dwindles.of_roster_eq h.symm).reaching_subset height)

theorem exists_least {Q : Finset PeerId} (hQ : pool.reaching height = Q) (hid : id ∈ Q) (now : Instant)
    (failures : PeerId → Nat) : ∃ p, pool.retryPeer? now failures height = some p ∧ p.id ∈ Q ∧
      ∀ k ∈ Q, failures p.id ≤ failures k := by
  subst hQ
  obtain ⟨q, -, hq⟩ := mem_reaching.1 hid
  obtain ⟨p, hp, hchosen, hleast⟩ := exists_retryPeer? hq now failures
  refine ⟨p, hp, mem_reaching.2 ⟨p, rfl, hchosen⟩, fun k hk => ?_⟩
  obtain ⟨q, rfl, hq⟩ := mem_reaching.1 hk
  exact hleast q hq

end Pool

/-! ## One round -/

def Message.isGetheaders : Message → Bool
  | .getheaders _ => true
  | _ => false

namespace Action

def checksHeaders : Action → Bool
  | checkHeaders | tick => true
  | _ => false

variable [Digest]

def headerAsks (id : PeerId) (w : World) (a : Action) : Nat :=
  (a.asks id w).countP Message.isGetheaders

end Action

namespace Node

/-- The message for a retry of the request for headers can be queued to the peer that is chosen. -/
def RetryGoesOut (now : Instant) (n : Node) : Prop :=
  ∀ r f p, n.sync.header = some r → r.recent? = some f → f.isTimedOut now n.sync.config.headerTimeout = true →
    (n.pool.charge [f.peer]).retryPeer? now (r.addFailure f.peer).failures r.height = some p →
    (p.getHeaders now (n.ledger.hashAt (r.height - 1))).2 = .ok ()

structure Rotating (height : Nat) (Q : Finset PeerId) (failed : Nat) (asked : PeerId → Nat) (n : Node) (r : Request)
    (f : Flight) : Prop where
  header : n.sync.header = some r
  height : r.height = height
  failed : r.failedTotal = failed
  turn : r.InTurn Q f
  asked : ∀ id, asked id = r.failures id + if id = f.peer then 1 else 0

section
variable {now : Instant} {n : Node} {r : Request} {f : Flight}

theorem checkHeaders_of_early (hr : n.sync.header = some r) (hf : r.recent? = some f)
    (hearly : f.isTimedOut now n.sync.config.headerTimeout = false) : n.checkHeaders now = n := by
  unfold checkHeaders
  rw [hr]
  dsimp only
  rw [hf]
  dsimp only
  rw [if_pos (by simp [hearly])]

theorem checkHeaders_of_late (hr : n.sync.header = some r) (hf : r.recent? = some f)
    (hlate : f.isTimedOut now n.sync.config.headerTimeout = true) (hnew : n.ledger.headerHeight < r.height) :
    n.checkHeaders now = n.retryHeaders now r f := by
  unfold checkHeaders
  rw [hr]
  dsimp only
  rw [hf]
  dsimp only
  rw [if_neg (by simp [hlate]), if_neg (Nat.not_le.2 hnew)]

theorem retryHeaders_eq (now : Instant) (r : Request) (f : Flight) (n : Node) : n.retryHeaders now r f =
    match (n.pool.charge [f.peer]).retryPeer? now (r.addFailure f.peer).failures r.height with
    | none => (n.setPool (n.pool.charge [f.peer])).setHeader none
    | some p =>
      match (n.setPool (n.pool.charge [f.peer])).withPeer p.id
        (·.getHeaders now (n.ledger.hashAt (r.height - 1))) with
      | (n, .ok ()) => n.setHeader (some ((r.addFailure f.peer).addFlight ⟨p.id, r.height, now⟩))
      | (n, .error _) => n.setHeader none :=
  rfl

theorem retryHeaders_of_sent (hk : n.pool.Keyed) {p : Peer}
    (hp : (n.pool.charge [f.peer]).retryPeer? now (r.addFailure f.peer).failures r.height = some p)
    (hsent : (p.getHeaders now (n.ledger.hashAt (r.height - 1))).2 = .ok ()) :
    ∃ pool, (n.pool.charge [f.peer]).Deals
        ((Message.getheaders (.behind (n.ledger.hashAt (r.height - 1)))).onlyTo p.id) Pool.free pool ∧
      n.retryHeaders now r f =
        (n.setPool pool).setHeader (some ((r.addFailure f.peer).addFlight ⟨p.id, r.height, now⟩)) := by
  have hk' : (n.setPool (n.pool.charge [f.peer])).pool.Keyed :=
    (Pool.deals_charge (List.nodup_singleton _) n.pool).keyed hk
  have hmem := Pool.mem_of_retryPeer? hp
  have hresult := result_withPeer hk' hmem (·.getHeaders now (n.ledger.hashAt (r.height - 1)))
  obtain ⟨pool, e, h, -⟩ | ⟨pool, h, hqueued⟩ := withPeer_request
    (f := (·.getHeaders now (n.ledger.hashAt (r.height - 1)))) (fun _ => rfl) hk' hmem
  · rw [h] at hresult
    cases hresult.trans hsent
  · refine ⟨pool, hqueued, ?_⟩
    rw [retryHeaders_eq, hp]
    dsimp only
    rw [h]
    rfl

end

end Node

namespace World

variable {w : World} {a : Action} {id : PeerId} {height failed : Nat} {Q : Finset PeerId} {asked : PeerId → Nat}
  {r : Request} {f : Flight}

def expires (w : World) (a : Action) : Bool :=
  a.checksHeaders && w.node.sync.header.any (Node.isOverdue w.now w.node.sync.config.headerTimeout)

theorem expires_checkHeaders (hr : w.node.sync.header = some r) (hf : r.recent? = some f) :
    w.expires .checkHeaders = f.isTimedOut w.now w.node.sync.config.headerTimeout := by
  rw [expires, hr, Option.any_some, Node.isOverdue, hf, Option.all_some]
  rfl

variable [Digest]

def expired : World → List Action → Nat
  | _, [] => 0
  | w, a :: actions => (w.expires a).toNat + expired (a.step w) actions

def headersAsked (id : PeerId) (w : World) (actions : List Action) : Nat :=
  (w.asked id actions).countP fun x => x.2.isGetheaders

def Stands (height : Nat) (Q : Finset PeerId) (w : World) : Prop :=
  w.node.pool.reaching height = Q ∧ w.node.ledger.headerHeight < height

/-- The same peers may be asked all along, what they are sent goes out, and nobody answers. -/
def Rotates (height : Nat) (Q : Finset PeerId) : World → List Action → Prop
  | w, [] => w.Stands height Q
  | w, a :: actions => w.Stands height Q ∧ (a.checksHeaders = true → w.node.RetryGoesOut w.now) ∧
      (a.isRound = false → (a.step w).node.sync.header = w.node.sync.header) ∧ Rotates height Q (a.step w) actions

theorem Rotates.stands {actions : List Action} (h : w.Rotates height Q actions) : w.Stands height Q := by
  cases actions with
  | nil => exact h
  | cons a actions => exact h.1

/-! ## What is asked -/

theorem headersAsked_cons (id : PeerId) (w : World) (a : Action) (actions : List Action) :
    w.headersAsked id (a :: actions) = a.headerAsks id w + (a.step w).headersAsked id actions := by
  rw [headersAsked, World.asked, List.countP_append, List.countP_map]
  rfl

theorem headerAsks_tick (h : w.node.Regular) (id : PeerId) :
    Action.tick.headerAsks id w = w.headersAsked id Action.parts := by
  unfold headersAsked Action.headerAsks
  rw [← Action.asks_tick h, List.countP_map]
  rfl

theorem asks_of_outbox (ha : a.isRound = true) {ms : List Message}
    (h : (a.act w.now w.node).pool.outboxOf id = w.node.pool.outboxOf id ++ ms) : a.asks id w = ms := by
  rw [Action.asks, if_pos ha, h, List.drop_left]

theorem headerAsks_eq_zero {P : PeerId → Message → Prop} (h : w.node.pool.TellsOnly P (a.act w.now w.node).pool)
    (hP : ∀ id m, P id m → m.isGetheaders = false) : a.headerAsks id w = 0 := by
  refine List.countP_eq_zero.2 fun m hm => ?_
  simp [hP id m (h.asks hm)]

theorem headerAsks_retry {late peer : PeerId} {l : Locator} {pool : Pool}
    (d : (w.node.pool.charge [late]).Deals ((Message.getheaders l).onlyTo peer) Pool.free pool)
    (hpool : (w.node.checkHeaders w.now).pool = pool) (id : PeerId) :
    Action.checkHeaders.headerAsks id w = if id = peer then 1 else 0 := by
  have hbox : (Action.checkHeaders.act w.now w.node).pool.outboxOf id =
      w.node.pool.outboxOf id ++ (Message.getheaders l).onlyTo peer id := by
    show (w.node.checkHeaders w.now).pool.outboxOf id = _
    rw [hpool, ← Pool.outboxOf_charge (List.nodup_singleton late) w.node.pool]
    exact d.outbox id
  rw [Action.headerAsks, asks_of_outbox (a := .checkHeaders) rfl hbox, Node.countP_onlyTo]
  simp [Message.isGetheaders]

theorem rotating_part (ha : a = .checkBlocks ∨ a = .syncHeaders ∨ a = .syncBlocks) (hk : w.node.Regular)
    (h : w.node.Rotating height Q failed asked r f) :
    (a.step w).node.Rotating height Q failed asked r f ∧ ∀ id, a.headerAsks id w = 0 := by
  suffices (a.step w).node.sync.header = w.node.sync.header ∧ ∀ id, a.headerAsks id w = 0 from
    ⟨⟨this.1.trans h.header, h.height, h.failed, h.turn, h.asked⟩, this.2⟩
  rcases ha with rfl | rfl | rfl
  · refine ⟨?_, fun id => headerAsks_eq_zero (w.node.tellsOnly_checkBlocks w.now hk.keyed) ?_⟩
    · obtain ⟨pool, blocks, heq, -⟩ := Node.checkBlocks_eq w.now w.node
      show (w.node.checkBlocks w.now).sync.header = _
      rw [heq]
      rfl
    · rintro id m ⟨top, p, -, -, -, rfl⟩
      rfl
  · have hsame : w.node.syncHeaders w.now = w.node := Node.syncHeaders_of_asked (by simp [h.header])
    have hquiet : w.node.pool.TellsOnly (fun _ _ => False) (w.node.syncHeaders w.now).pool := by
      rw [hsame]
      exact .refl _
    exact ⟨congrArg (·.sync.header) hsame, fun id => headerAsks_eq_zero hquiet nofun⟩
  · refine ⟨?_, fun id => headerAsks_eq_zero (w.node.tellsOnly_syncBlocks w.now hk.keyed) ?_⟩
    · obtain ⟨pool, heq⟩ | ⟨-, -, -, p, pool, -, heq⟩ := Node.syncBlocks_cases w.now w.node
      · show (w.node.syncBlocks w.now).sync.header = _
        rw [heq]
        rfl
      · show (w.node.syncBlocks w.now).sync.header = _
        rw [heq]
        rfl
    · rintro id m ⟨p, -, -, -, rfl⟩
      rfl

/-- An expired flight counts against its peer, and a peer that failed least is asked instead. -/
theorem rotating_checkHeaders (hk : w.node.Regular) (h : w.node.Rotating height Q failed asked r f)
    (hstands : w.Stands height Q) (hafter : Q ⊆ (w.node.checkHeaders w.now).pool.reaching height)
    (hsent : w.node.RetryGoesOut w.now) :
    ∃ r' f', (w.node.checkHeaders w.now).Rotating height Q (failed + (w.expires .checkHeaders).toNat)
      (fun id => asked id + Action.checkHeaders.headerAsks id w) r' f' := by
  have hexpires := expires_checkHeaders h.header h.turn.recent
  cases hlate : f.isTimedOut w.now w.node.sync.config.headerTimeout with
  | false =>
    have hsame := Node.checkHeaders_of_early h.header h.turn.recent hlate
    have hquiet : w.node.pool.TellsOnly (fun _ _ => False) (w.node.checkHeaders w.now).pool := by
      rw [hsame]
      exact .refl _
    have hnone : ∀ id, Action.checkHeaders.headerAsks id w = 0 := fun id => headerAsks_eq_zero hquiet nofun
    rw [hsame, hexpires, hlate]
    exact ⟨r, f, h.header, h.height, h.failed, h.turn, fun id => by rw [hnone, Nat.add_zero, h.asked]⟩
  | true =>
    have hnew : w.node.ledger.headerHeight < r.height := h.height ▸ hstands.2
    have hretry := Node.checkHeaders_of_late h.header h.turn.recent hlate hnew
    -- who may be asked does not change in between, so nobody is dropped by the charge
    have hcharged : (w.node.pool.charge [f.peer]).reaching r.height = Q := by
      have hdwindles := Pool.dwindles_charge (List.nodup_singleton f.peer) hk.keyed.distinct
      rw [hretry, Pool.reaching_of_roster_eq (Node.roster_retryHeaders w.now hk.keyed r f)] at hafter
      rw [h.height]
      exact Finset.Subset.antisymm (hstands.1 ▸ hdwindles.reaching_subset height) hafter
    obtain ⟨p, hp, hmem, hleast⟩ := Pool.exists_least hcharged h.turn.mem w.now (r.addFailure f.peer).failures
    obtain ⟨pool, hdeals, heq⟩ := Node.retryHeaders_of_sent hk.keyed hp (hsent r f p h.header h.turn.recent hlate hp)
    have hasks := headerAsks_retry hdeals (congrArg Node.pool (hretry.trans heq))
    rw [hretry, heq, hexpires, hlate]
    refine ⟨_, _, rfl, h.height, ?_, h.turn.next hmem hleast w.now, fun id => ?_⟩
    · show r.failedTotal + 1 = failed + 1
      rw [h.failed]
    · show asked id + _ = (r.addFailure f.peer).failures id + _
      rw [hasks, h.asked, Request.failures_addFailure]

/-- In a round, what comes behind the look after the request changes nothing about it. -/
theorem rotating_tick (hk : w.node.Regular) (h : w.node.Rotating height Q failed asked r f) (hstands : w.Stands height Q)
    (hafter : Q ⊆ (Action.tick.step w).node.pool.reaching height) (hsent : w.node.RetryGoesOut w.now) :
    ∃ r' f', (Action.tick.step w).node.Rotating height Q (failed + (w.expires .tick).toNat)
      (fun id => asked id + Action.tick.headerAsks id w) r' f' := by
  let w₁ := Action.checkHeaders.step w
  let w₂ := Action.checkBlocks.step w₁
  let w₃ := Action.syncHeaders.step w₂
  have hk₁ : w₁.node.Regular := hk.act w.now .checkHeaders
  have hk₂ : w₂.node.Regular := hk₁.act w₁.now .checkBlocks
  have hk₃ : w₃.node.Regular := hk₂.act w₂.now .syncHeaders
  have hbetween : w₁.node.pool.Dwindles (Action.tick.step w).node.pool :=
    ((Node.dwindles_checkBlocks w₁.now hk₁.keyed).trans (Node.dwindles_syncHeaders w₂.now hk₂.keyed)).trans
      (Node.dwindles_syncBlocks w₃.now hk₃.keyed)
  obtain ⟨r', f', h₁⟩ := rotating_checkHeaders hk h hstands (hafter.trans (hbetween.reaching_subset height)) hsent
  obtain ⟨h₂, hnone₂⟩ := rotating_part (w := w₁) (.inl rfl) hk₁ h₁
  obtain ⟨h₃, hnone₃⟩ := rotating_part (.inr (.inl rfl)) hk₂ h₂
  obtain ⟨h₄, hnone₄⟩ := rotating_part (.inr (.inr rfl)) hk₃ h₃
  have hasks : ∀ id, Action.tick.headerAsks id w = Action.checkHeaders.headerAsks id w := by
    intro id
    rw [headerAsks_tick hk, Action.parts, headersAsked_cons, headersAsked_cons, headersAsked_cons, headersAsked_cons,
      hnone₂, hnone₃, hnone₄]
    rfl
  simp only [hasks]
  exact ⟨r', f', h₄⟩

/-! ## A run -/

theorem rotating_step (hk : w.node.Regular) (h : w.node.Rotating height Q failed asked r f)
    (hstands : w.Stands height Q) (hafter : (a.step w).Stands height Q)
    (hsent : a.checksHeaders = true → w.node.RetryGoesOut w.now)
    (hother : a.isRound = false → (a.step w).node.sync.header = w.node.sync.header) :
    ∃ r' f', (a.step w).node.Rotating height Q (failed + (w.expires a).toNat) (fun id => asked id + a.headerAsks id w)
      r' f' := by
  cases hround : a.isRound with
  | false =>
    have hnone : ∀ id, a.headerAsks id w = 0 := fun id => by simp [Action.headerAsks, Action.asks, hround]
    have hkept : w.expires a = false := by
      cases a with
      | checkHeaders | tick => cases hround
      | _ => rfl
    simp only [hnone, hkept]
    exact ⟨r, f, (hother hround).trans h.header, h.height, h.failed, h.turn, h.asked⟩
  | true =>
    cases a with
    | checkHeaders => exact rotating_checkHeaders hk h hstands hafter.1.ge (hsent rfl)
    | tick => exact rotating_tick hk h hstands hafter.1.ge (hsent rfl)
    | checkBlocks =>
      obtain ⟨h', hnone⟩ := rotating_part (.inl rfl) hk h
      simp only [hnone]
      exact ⟨r, f, h'⟩
    | syncHeaders =>
      obtain ⟨h', hnone⟩ := rotating_part (.inr (.inl rfl)) hk h
      simp only [hnone]
      exact ⟨r, f, h'⟩
    | syncBlocks =>
      obtain ⟨h', hnone⟩ := rotating_part (.inr (.inr rfl)) hk h
      simp only [hnone]
      exact ⟨r, f, h'⟩
    | _ => cases hround

theorem rotating_run {actions : List Action} (hk : w.node.Regular) (h : w.node.Rotating height Q failed asked r f)
    (hrotates : w.Rotates height Q actions) :
    ∃ r' f', (w.run actions).node.Rotating height Q (failed + w.expired actions)
      (fun id => asked id + w.headersAsked id actions) r' f' := by
  induction actions generalizing w failed asked r f with
  | nil => exact ⟨r, f, h⟩
  | cons a actions ih =>
    obtain ⟨hstands, hsent, hother, hrest⟩ := hrotates
    obtain ⟨r', f', h'⟩ := rotating_step hk h hstands hrest.stands hsent hother
    obtain ⟨r'', f'', h''⟩ := ih (hk.act w.now a) h' hrest
    refine ⟨r'', f'', ?_⟩
    simp only [headersAsked_cons, expired, ← Nat.add_assoc]
    exact h''

/-- While the same peers may be asked, what they are sent goes out and nobody answers, the request for headers goes
round among them: each has its share of the expired flights, the next flight is never with one that has more than
another, and nobody is asked a second time before everybody was asked once. -/
theorem retries_rotate {start : Instant} {first : PeerId} (hw : w.node.Arises)
    (hr : w.node.sync.header = some (.start start first height)) (hfirst : first ∈ Q) {actions : List Action}
    (h : w.Rotates height Q actions) :
    ∃ r f, (w.run actions).node.sync.header = some r ∧ r.height = height ∧ r.recent? = some f ∧
      r.failedTotal = w.expired actions ∧ ∑ id ∈ Q, r.failures id = w.expired actions ∧
      (∀ id ∈ Q, r.failures id = w.expired actions / Q.card ∨
        r.failures id = (w.expired actions + Q.card - 1) / Q.card) ∧
      f.peer ∈ Q ∧ (∀ id ∈ Q, r.failures f.peer ≤ r.failures id) ∧
      (w.expired actions < Q.card → ∀ id, (if id = first then 1 else 0) + w.headersAsked id actions ≤ 1) := by
  have hstart : w.node.Rotating height Q 0 (fun id => if id = first then 1 else 0) (.start start first height)
      ⟨first, height, start⟩ :=
    ⟨hr, rfl, rfl, Request.inTurn_start hfirst start height, fun id => (Nat.zero_add _).symm⟩
  obtain ⟨r, f, hrun⟩ := rotating_run hw.orderly.regular hstart h
  rw [Nat.zero_add] at hrun
  have hturn := hrun.turn
  refine ⟨r, f, hrun.header, hrun.height, hturn.recent, hrun.failed, ?_, fun id hid => ?_, hturn.mem, hturn.least,
    fun hfew id => ?_⟩
  · rw [hturn.total, hrun.failed]
  · rw [← hrun.failed]
    exact hturn.share hid
  · rw [hrun.asked id]
    exact hturn.first_turn (hrun.failed ▸ hfew) id

end World

namespace Scripted

def askedOfTwo : List Action :=
  [.churn (.arrive (address 1) false (version 1 10333 1)), .tick,
    .churn (.arrive (address 2) false (version 2 10333 1))]

def nothingCame : List Action :=
  [.wait 5000000, .checkHeaders]

theorem askedOfTwo_waits :
    let n := (smallWorld.run askedOfTwo).node
    let charged := n.pool.charge [1]
    n.sync.header = some (.start 0 1 1) ∧ n.sync.config.headerTimeout = 5000000 ∧ n.ledger.headerHeight = 0 ∧
      n.pool.reaching 1 = {1, 2} ∧ charged.reaching 1 = {1, 2} ∧
      ∀ p ∈ charged.peers, (p.getHeaders 5000000 (n.ledger.hashAt 0)).2 = .ok () := by
  decide +kernel

end Scripted

open Scripted in
theorem World.retries_rotate_of_two :
    let w := smallWorld.run askedOfTwo
    w.headersAsked 1 nothingCame = 0 ∧
      ∃ r f, (w.run nothingCame).node.sync.header = some r ∧ r.recent? = some f ∧
        r.failures 1 + r.failures 2 = 1 ∧ r.failures f.peer = 0 := by
  have harises : (smallWorld.run askedOfTwo).node.Arises :=
    World.arises_run (w := smallWorld) ⟨_, _, _, _, .refl⟩ askedOfTwo
  have hnow : (smallWorld.run askedOfTwo).now = 0 := rfl
  have hwaits := askedOfTwo_waits
  dsimp only at hwaits ⊢
  generalize smallWorld.run askedOfTwo = w at harises hnow hwaits ⊢
  obtain ⟨hheader, htimeout, hstored, hpool, hcharged, hsent⟩ := hwaits
  have hlate : (Flight.mk 1 1 0).isTimedOut (w.now + 5000000) w.node.sync.config.headerTimeout = true := by
    rw [hnow, htimeout]
    rfl
  have hretry : w.node.checkHeaders (w.now + 5000000) =
      w.node.retryHeaders (w.now + 5000000) (.start 0 1 1) ⟨1, 1, 0⟩ :=
    Node.checkHeaders_of_late hheader rfl hlate (by rw [hstored]; exact Nat.one_pos)
  have hstands : w.Stands 1 {1, 2} := ⟨hpool, by omega⟩
  have hgoes : w.node.RetryGoesOut (w.now + 5000000) := by
    intro r f p hr hf _ hp
    obtain rfl := Option.some.inj (hheader.symm.trans hr)
    obtain rfl : ⟨1, 1, 0⟩ = f := Option.some.inj hf
    rw [hnow]
    exact hsent p (Pool.mem_of_retryPeer? hp)
  have hafter : (w.run nothingCame).Stands 1 {1, 2} := by
    constructor
    · show (w.node.checkHeaders (w.now + 5000000)).pool.reaching 1 = {1, 2}
      rw [hretry, Pool.reaching_of_roster_eq (Node.roster_retryHeaders _ harises.orderly.regular.keyed _ _)]
      exact hcharged
    · show (w.node.checkHeaders (w.now + 5000000)).ledger.headerHeight < 1
      have hturns := Action.turns_act (w := ⟨w.now + 5000000, w.node⟩) (a := .checkHeaders) rfl harises.orderly.regular
      have hledger : (w.node.checkHeaders (w.now + 5000000)).ledger = w.node.ledger := hturns.ledger
      rw [hledger, hstored]
      exact Nat.one_pos
  have hrotates : w.Rotates 1 {1, 2} nothingCame :=
    ⟨hstands, nofun, fun _ => rfl, hstands, fun _ => hgoes, nofun, hafter⟩
  have hexpired : w.expired nothingCame = 1 := by
    show 0 + ((World.expires ⟨w.now + 5000000, w.node⟩ .checkHeaders).toNat + 0) = 1
    rw [World.expires_checkHeaders (w := ⟨w.now + 5000000, w.node⟩) hheader rfl, hlate]
    rfl
  obtain ⟨r, f, hr, -, hf, -, hsum, hshare, hmem, hleast, honce⟩ :=
    World.retries_rotate harises hheader (Finset.mem_insert_self 1 {2}) hrotates
  rw [hexpired] at hsum honce
  rw [Finset.sum_pair (by decide)] at hsum
  refine ⟨?_, r, f, hr, hf, hsum, ?_⟩
  · have := honce (by decide) 1
    rw [if_pos rfl] at this
    omega
  · have h₁ := hleast 1 (by decide)
    have h₂ := hleast 2 (by decide)
    omega

end ChainSync
