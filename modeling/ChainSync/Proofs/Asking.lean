import ChainSync.Proofs.Turns

/-!
# Nothing is waited for that was not asked for

A request is in the books only with a flight to the peer used last, and that
flight began with an action that queued a message to this peer which asks
for it. What a message that was not queued would have asked for is not
waited for.
-/

namespace ChainSync

namespace Node

variable [Digest] {now : Instant} {n n' : Node} {told : PeerId → List Message}

/-! ## Flights along turns -/

theorem Turns.exists_getheaders (t : n.Turns now told n') {r : Request} (hr : n'.sync.header = some r) :
    n.sync.header = some r ∨
      ∃ peer, r.FlownTo peer now ∧ .getheaders (.behind (n.ledger.hashAt (r.height - 1))) ∈ told peer := by
  induction t with
  | refl => exact .inl hr
  | lapse t l ih =>
    cases l with
    | headers => exact ih (Option.filter_eq_some_iff.1 hr).1
    | blocks => exact ih hr
  | ask t q ih =>
    have hledger := t.ledger
    cases q with
    | nothing =>
      refine (ih hr).imp_right ?_
      rintro ⟨peer, hflown, htold⟩
      exact ⟨peer, hflown, List.mem_append_left _ htold⟩
    | headers peer pool r' hflown =>
      obtain rfl : r' = r := Option.some.inj hr
      refine .inr ⟨peer, hflown, List.mem_append_right _ ?_⟩
      rw [Message.onlyTo, if_pos rfl, hledger]
      exact List.mem_singleton_self _
    | blocks =>
      refine (ih hr).imp_right ?_
      rintro ⟨peer, hflown, htold⟩
      exact ⟨peer, hflown, List.mem_append_left _ htold⟩

theorem Turns.exists_getdata (t : n.Turns now told n') {e : Hash × Request} (he : e ∈ n'.sync.blocks) :
    e ∈ n.sync.blocks ∨ ∃ peer hashes, e.2.FlownTo peer now ∧ .getdata ⟨.block, hashes⟩ ∈ told peer ∧ e.1 ∈ hashes := by
  induction t with
  | refl => exact .inl he
  | lapse t l ih =>
    cases l with
    | headers => exact ih he
    | blocks => exact ih (List.mem_of_mem_filter he)
  | @ask told told' _ _ t q ih =>
    have hearlier : e ∈ n.sync.blocks ∨
        (∃ peer hashes, e.2.FlownTo peer now ∧ .getdata ⟨.block, hashes⟩ ∈ told peer ∧ e.1 ∈ hashes) →
        e ∈ n.sync.blocks ∨ ∃ peer hashes, e.2.FlownTo peer now ∧
          .getdata ⟨.block, hashes⟩ ∈ told peer ++ told' peer ∧ e.1 ∈ hashes := by
      refine Or.imp_right ?_
      rintro ⟨peer, hashes, hflown, htold, hmem⟩
      exact ⟨peer, hashes, hflown, List.mem_append_left _ htold, hmem⟩
    cases q with
    | nothing => exact hearlier (ih he)
    | headers => exact hearlier (ih he)
    | blocks peer pool hashes blocks hblocks =>
      obtain hold | ⟨hmem, hflown⟩ := hblocks e he
      · exact hearlier (ih hold)
      · refine .inr ⟨peer, hashes, hflown, List.mem_append_right _ ?_, hmem⟩
        rw [Message.onlyTo, if_pos rfl]
        exact List.mem_singleton_self _

structure Wanes (n n' : Node) : Prop where
  header : ∀ r, n'.sync.header = some r → n.sync.header = some r
  blocks : ∀ e ∈ n'.sync.blocks, e ∈ n.sync.blocks

omit [Digest] in
theorem Wanes.of_sync_eq (hheader : n'.sync.header = n.sync.header) (hblocks : n'.sync.blocks = n.sync.blocks) :
    n.Wanes n' :=
  ⟨fun _ h => hheader ▸ h, fun _ h => hblocks ▸ h⟩

theorem wanes_receiveHeaders (peer : PeerId) (hs : List Header) (n : Node) : n.Wanes (n.receiveHeaders peer hs) := by
  obtain h | ⟨r, first, pool, -, -, -, -, h⟩ := receiveHeaders_cases peer hs n
  · rw [h]
    exact .of_sync_eq rfl rfl
  · rw [h]
    exact ⟨nofun, fun _ he => he⟩

theorem wanes_receiveBlock (now : Instant) (peer : PeerId) (b : Block) (raw : Bytes) (n : Node) :
    n.Wanes (n.receiveBlock now peer b raw) := by
  have herase : ∀ e ∈ Assoc.erase b.hash n.sync.blocks, e ∈ n.sync.blocks := fun e he => (Assoc.mem_erase.1 he).1
  obtain ⟨-, h⟩ | ⟨r, pool, -, ⟨-, h⟩ | ⟨-, h⟩⟩ := receiveBlock_cases now peer b raw n
  · rw [h]
    exact .of_sync_eq rfl rfl
  · rw [h]
    exact ⟨fun _ hr => hr, herase⟩
  · rw [h]
    exact ⟨fun _ hr => hr, herase⟩

theorem wanes_persist (n : Node) : n.Wanes n.persist.1 := by
  refine persist_preserves (P := n.Wanes) (Q := n.Wanes) ?_ ?_ ?_ n (.of_sync_eq rfl rfl)
  · exact fun _ h _ => ⟨h.header, h.blocks⟩
  · exact fun _ _ _ h _ _ _ => ⟨h.header, h.blocks⟩
  · exact fun _ _ _ _ h _ _ => ⟨h.header, h.blocks⟩

end Node

namespace Action

variable [Digest]

theorem wanes_act {a : Action} (ha : a.isRound = false) (now : Instant) (n : Node) : n.Wanes (a.act now n) := by
  cases a with
  | checkHeaders | checkBlocks | syncHeaders | syncBlocks | tick => cases ha
  | headers peer hs => exact n.wanes_receiveHeaders peer hs
  | block peer b raw => exact n.wanes_receiveBlock now peer b raw
  | persist => exact n.wanes_persist
  | churn c | relay tx | event e | wait d => exact .of_sync_eq rfl rfl

variable {a : Action} {w : World}

theorem exists_getheaders (h : w.node.Regular) {r : Request} (hr : (a.act w.now w.node).sync.header = some r) :
    w.node.sync.header = some r ∨ ∃ peer, r.FlownTo peer w.now ∧
      .getheaders (.behind ((a.act w.now w.node).ledger.hashAt (r.height - 1))) ∈ a.asks peer w := by
  cases ha : a.isRound with
  | true =>
    have t := turns_act ha h
    rw [t.ledger]
    exact t.exists_getheaders hr
  | false => exact .inl ((wanes_act ha w.now w.node).header r hr)

theorem exists_getdata (h : w.node.Regular) {e : Hash × Request} (he : e ∈ (a.act w.now w.node).sync.blocks) :
    e ∈ w.node.sync.blocks ∨
      ∃ peer hashes, e.2.FlownTo peer w.now ∧ .getdata ⟨.block, hashes⟩ ∈ a.asks peer w ∧ e.1 ∈ hashes := by
  cases ha : a.isRound with
  | true => exact (turns_act ha h).exists_getdata he
  | false => exact .inl ((wanes_act ha w.now w.node).blocks e he)

end Action

/-! ## Runs -/

namespace Node

def AsksBehind (n : Node) : Prop :=
  ∀ r, n.sync.header = some r → 0 < r.height ∧ r.height ≤ n.ledger.headerHeight + 1

/-- Every request is in flight to the peer used last. -/
structure Airborne (n : Node) : Prop where
  header : ∀ r, n.sync.header = some r → ∃ peer start, r.FlownTo peer start
  blocks : ∀ e ∈ n.sync.blocks, ∃ peer start, e.2.FlownTo peer start

theorem asksBehind_move [Digest] {known : List Header} {drains : Prop} {n n' : Node} (h : Move known drains n n')
    (hn : n.AsksBehind) : n'.AsksBehind := by
  intro r hr
  cases h with
  | header header hkept =>
    obtain ⟨r', hr', hheight⟩ := hkept r hr
    rw [← hheight]
    exact hn r' hr'
  | askHeaders now peer hnone hahead =>
    obtain rfl := Option.some.inj hr
    exact ⟨Nat.succ_pos _, Nat.le_refl _⟩
  | headers => cases hr
  | store e b =>
    obtain ⟨hpos, hle⟩ := hn r hr
    exact ⟨hpos, hle.trans (Nat.succ_le_succ (Ledger.extends_pushBlock n.ledger b).headerHeight_le)⟩
  | _ => exact hn r hr

theorem Airborne.act [Digest] {w : World} (hn : w.node.Airborne) (h : w.node.Regular) (a : Action) :
    (a.act w.now w.node).Airborne where
  header := by
    intro r hr
    obtain hold | ⟨peer, hflown, -⟩ := a.exists_getheaders h hr
    · exact hn.header r hold
    · exact ⟨peer, w.now, hflown⟩
  blocks := by
    intro e he
    obtain hold | ⟨peer, hashes, hflown, -, -⟩ := a.exists_getdata h he
    · exact hn.blocks e hold
    · exact ⟨peer, w.now, hflown⟩

end Node

namespace World

variable [Digest]

structure Sane (w : World) : Prop where
  regular : w.node.Regular
  ledger : w.node.ledger.WellFormed
  behind : w.node.AsksBehind
  airborne : w.node.Airborne

theorem sane_fresh (now : Instant) {l : Ledger} (hl : l.WellFormed) (pool : PoolConfig) (nonce : UInt32)
    (config : SyncConfig) : World.Sane ⟨now, .fresh l pool nonce config⟩ where
  regular := Node.regular_fresh l pool nonce config
  ledger := hl
  behind := nofun
  airborne := ⟨nofun, nofun⟩

theorem Sane.step {w : World} (h : w.Sane) (a : Action) : (a.step w).Sane where
  regular := h.regular.act w.now a
  ledger := (World.ledger_run h.ledger [a]).2
  behind := by
    have hmoves : Node.Moves a.delivered True w.node (a.act w.now w.node) :=
      a.moves w.now w.node (fun _ hx => hx) fun _ => trivial
    exact hmoves.preserve Node.asksBehind_move h.behind
  airborne := h.airborne.act h.regular a

theorem Sane.run : ∀ {actions : List Action} {w : World}, w.Sane → (w.run actions).Sane
  | [], _, h => h
  | a :: _, _, h => (h.step a).run

/-- Somewhere in a run an action queues a message to a peer that asks for something, and begins a flight with it. -/
def Asked (w : World) (actions : List Action) (peer : PeerId) (start : Instant) (asks : Message → Prop)
    (flies : Node → Prop) : Prop :=
  ∃ earlier a later, actions = earlier ++ a :: later ∧ (w.run earlier).now = start ∧
    (∃ m ∈ a.asks peer (w.run earlier), asks m) ∧
    ¬flies (w.run earlier).node ∧ flies (w.run (earlier ++ [a])).node

variable {w : World} {actions : List Action}

theorem run_concat (w : World) (earlier : List Action) (a : Action) :
    w.run (earlier ++ [a]) = a.step (w.run earlier) :=
  w.run_append earlier [a]

theorem Sane.asked_header (h : w.Sane) (hnone : w.node.sync.header = none) {r : Request}
    (hr : (w.run actions).node.sync.header = some r) :
    ∃ peer start, r.FlownTo peer start ∧ w.Asked actions peer start
      (· = .getheaders (.behind ((w.run actions).node.ledger.hashAt (r.height - 1))))
      (fun n => ∃ r', n.sync.header = some r' ∧ r'.height = r.height ∧ r'.FlownTo peer start) := by
  obtain ⟨peer, start, hflown⟩ := h.run.airborne.header r hr
  let flies (n : Node) : Prop := ∃ r', n.sync.header = some r' ∧ r'.height = r.height ∧ r'.FlownTo peer start
  have hbefore : ¬flies w.node := by
    rintro ⟨r', hr', -⟩
    rw [hnone] at hr'
    cases hr'
  have hafter : flies (w.run actions).node := ⟨r, hr, rfl, hflown⟩
  -- the action that this flight began with
  obtain ⟨earlier, a, later, hsplit, hnot, hthen⟩ := exists_step (P := fun w => flies w.node) hbefore hafter
  refine ⟨peer, start, hflown, earlier, a, later, hsplit, ?_⟩
  obtain ⟨r', hr', hheight, hflown'⟩ := id hthen
  have hearlier : (w.run earlier).Sane := h.run
  have hsane : (a.step (w.run earlier)).Sane := hearlier.step a
  have hrun : w.run actions = (a.step (w.run earlier)).run later := by
    rw [hsplit, run_append]
    rfl
  rw [run_concat] at hr'
  obtain hold | ⟨peer', hflown'', htold⟩ := a.exists_getheaders hearlier.regular hr'
  · exact absurd ⟨r', hold, hheight, hflown'⟩ hnot
  · obtain ⟨rfl, rfl⟩ := hflown'.unique hflown''
    -- the message names the hash that was stored then, and this is stored still
    have hstored : (a.step (w.run earlier)).node.ledger.hashAt (r.height - 1) =
        (w.run actions).node.ledger.hashAt (r.height - 1) := by
      have hle := (hsane.behind r' hr').2
      rw [hrun]
      exact (hsane.ledger.hashAt_of_extends (World.ledger_run hsane.ledger later).1 (by omega)).symm
    refine ⟨rfl, ⟨_, htold, ?_⟩, hnot, hthen⟩
    rw [hheight, ← hstored]
    rfl

theorem Sane.asked_block (h : w.Sane) (hnil : w.node.sync.blocks = []) {x : Hash} {r : Request}
    (hr : (w.run actions).node.blockRequest? x = some r) :
    ∃ peer start, r.FlownTo peer start ∧ w.Asked actions peer start
      (fun m => ∃ hashes, m = .getdata ⟨.block, hashes⟩ ∧ x ∈ hashes)
      (fun n => ∃ r', n.blockRequest? x = some r' ∧ r'.FlownTo peer start) := by
  obtain ⟨peer, start, hflown⟩ := h.run.airborne.blocks (x, r) (Assoc.mem_of_get? hr)
  let flies (n : Node) : Prop := ∃ r', n.blockRequest? x = some r' ∧ r'.FlownTo peer start
  have hbefore : ¬flies w.node := by
    rintro ⟨r', hr', -⟩
    rw [Node.blockRequest?, hnil] at hr'
    cases hr'
  have hafter : flies (w.run actions).node := ⟨r, hr, hflown⟩
  obtain ⟨earlier, a, later, hsplit, hnot, hthen⟩ := exists_step (P := fun w => flies w.node) hbefore hafter
  refine ⟨peer, start, hflown, earlier, a, later, hsplit, ?_⟩
  obtain ⟨r', hr', hflown'⟩ := id hthen
  have hearlier : (w.run earlier).Sane := h.run
  have hregular := hearlier.regular
  rw [run_concat] at hr'
  obtain hold | ⟨peer', hashes, hflown'', htold, hmem⟩ := a.exists_getdata hregular (Assoc.mem_of_get? hr')
  · exact absurd ⟨r', (Assoc.get?_eq_some_iff hregular.distinct).2 hold, hflown'⟩ hnot
  · obtain ⟨rfl, rfl⟩ := hflown'.unique hflown''
    exact ⟨rfl, ⟨_, htold, hashes, rfl, hmem⟩, hnot, hthen⟩

end World

/-! ## Messages that are not queued -/

namespace Node

variable [Digest] {now : Instant} {n n' : Node} {told : PeerId → List Message}

theorem Asks.single (q : n.Asks now told n') : ∃ peer m, ∀ id, told id = [] ∨ id = peer ∧ told id = [m] := by
  have honly : ∀ peer m, ∃ peer' m', ∀ id,
      Message.onlyTo peer m id = [] ∨ id = peer' ∧ Message.onlyTo peer m id = [m'] := by
    intro peer m
    refine ⟨peer, m, fun id => ?_⟩
    unfold Message.onlyTo
    split
    · exact .inr ⟨‹_›, rfl⟩
    · exact .inl rfl
  cases q with
  | nothing => exact ⟨0, .getaddr, fun _ => .inl rfl⟩
  | headers => exact honly _ _
  | blocks => exact honly _ _

theorem Asks.sync_eq (q : n.Asks now told n') (h : ∀ id, told id = []) : n'.sync = n.sync := by
  have honly : ∀ {peer m}, Message.onlyTo peer m peer ≠ [] := by
    intro peer m
    simp [Message.onlyTo]
  cases q with
  | nothing => rfl
  | headers peer => exact absurd (h peer) honly
  | blocks peer => exact absurd (h peer) honly

omit [Digest] in
theorem syncHeaders_of_asked (h : n.sync.header ≠ none) : n.syncHeaders now = n := by
  unfold syncHeaders
  exact if_pos (Option.isSome_iff_ne_none.2 h)

omit [Digest] in
theorem syncBlocks_of_asked (h : n.sync.blocks ≠ []) : n.syncBlocks now = n := by
  unfold syncBlocks
  exact if_pos (by simp [h])

end Node

namespace Action

def parts : List Action :=
  [checkHeaders, checkBlocks, syncHeaders, syncBlocks]

/-- What a part of a round leaves outstanding when it asks nobody: all that is not overdue. -/
def leaves (now : Instant) (n : Node) : Action → Sync
  | checkHeaders => (n.setHeader (n.pendingHeader now)).sync
  | checkBlocks => (n.setBlocks (n.pendingBlocks now)).sync
  | _ => n.sync

variable [Digest]

theorem asks_part {w : World} {a : Action} (ha : a ∈ parts) (h : w.node.Regular) :
    ∃ m : Node, m.sync = a.leaves w.now w.node ∧ m.Asks w.now (a.asks · w) (a.act w.now w.node) := by
  have hround : a.isRound = true := by
    revert a
    decide
  suffices ∃ (m : Node) (told : PeerId → List Message), m.sync = a.leaves w.now w.node ∧
      (∀ id, m.pool.outboxOf id = w.node.pool.outboxOf id) ∧ m.Asks w.now told (a.act w.now w.node) by
    obtain ⟨m, told, hsync, hbox, q⟩ := this
    have htold : (a.asks · w) = told := by
      funext id
      rw [asks, if_pos hround, q.pool.outbox, hbox, List.drop_left]
    exact ⟨m, hsync, htold ▸ q⟩
  simp only [parts, List.mem_cons, List.not_mem_nil, or_false] at ha
  rcases ha with rfl | rfl | rfl | rfl
  · obtain ⟨ids, hd, -, told, q⟩ := Node.checkHeaders_turns w.now h.keyed
    exact ⟨(w.node.setPool (w.node.pool.charge ids)).setHeader (w.node.pendingHeader w.now), told, rfl,
      Pool.outboxOf_charge hd w.node.pool, q⟩
  · obtain ⟨told, q⟩ := Node.checkBlocks_turns w.now h.keyed h.distinct
    exact ⟨(w.node.setPool (w.node.pool.charge (w.node.offenders w.now))).setBlocks (w.node.pendingBlocks w.now), told,
      rfl, Pool.outboxOf_charge (w.node.nodup_offenders w.now) w.node.pool, q⟩
  · obtain ⟨told, q⟩ := Node.asks_syncHeaders w.now h.keyed
    exact ⟨_, told, rfl, fun _ => rfl, q⟩
  · obtain ⟨told, q⟩ := Node.asks_syncBlocks w.now h.keyed
    exact ⟨_, told, rfl, fun _ => rfl, q⟩

end Action

/-- Whatever is outstanding is in flight to the peer used last, and an action of this run queued the message to it
that asks for this and began the flight with that. Each part of a round queues at most one message. If it queues
none, what is overdue by then is given up and the rest left as it is; and new requests are made, or attempted, only
while none of their kind is outstanding. -/
theorem World.outstanding_was_asked [Digest] (now : Instant) (g : Block) (ops : List Ledger.Op) (pool : PoolConfig)
    (nonce : UInt32) (config : SyncConfig) (actions : List Action) :
    let w : World := ⟨now, .fresh ((Ledger.ofGenesis g).runOps ops) pool nonce config⟩
    let w' := w.run actions
    let n := w'.node
    (∀ h r, n.blockRequest? h = some r → ∃ peer start, r.FlownTo peer start ∧
      w.Asked actions peer start (fun m => ∃ hashes, m = .getdata ⟨.block, hashes⟩ ∧ h ∈ hashes)
        (fun n => ∃ r', n.blockRequest? h = some r' ∧ r'.FlownTo peer start)) ∧
    (∀ r, n.sync.header = some r → 0 < r.height ∧ r.height ≤ n.ledger.headerHeight + 1 ∧
      ∃ peer start, r.FlownTo peer start ∧
        w.Asked actions peer start (· = .getheaders (.behind (n.ledger.hashAt (r.height - 1))))
          (fun n => ∃ r', n.sync.header = some r' ∧ r'.height = r.height ∧ r'.FlownTo peer start)) ∧
    (∀ a ∈ Action.parts, (∃ peer m, ∀ id, a.asks id w' = [] ∨ id = peer ∧ a.asks id w' = [m]) ∧
      ((∀ id, a.asks id w' = []) → (a.step w').node.sync = a.leaves w'.now n)) ∧
    (n.sync.header ≠ none → n.syncHeaders w'.now = n) ∧ (n.sync.blocks ≠ [] → n.syncBlocks w'.now = n) := by
  intro w w' n
  have hsane : w.Sane := sane_fresh now ((Ledger.wellFormed_ofGenesis g).runOps ops) pool nonce config
  have hrun : w'.Sane := hsane.run
  refine ⟨fun h r hr => hsane.asked_block rfl hr, fun r hr => ?_, fun a ha => ?_, Node.syncHeaders_of_asked,
    Node.syncBlocks_of_asked⟩
  · obtain ⟨hpos, hle⟩ := hrun.behind r hr
    exact ⟨hpos, hle, hsane.asked_header rfl hr⟩
  · obtain ⟨m, hsync, q⟩ := Action.asks_part ha hrun.regular
    exact ⟨q.single, fun hnone => (q.sync_eq hnone).trans hsync⟩

end ChainSync
