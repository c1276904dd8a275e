import ChainSync.Hash.Sha256
import ChainSync.Proofs.LateHeaders
import ChainSync.Proofs.Outboxes

/-!
# Transactions from relay to ledger

A node knows a transaction once it is pooled or persisted, and accepts it
only if it does not know it. A stored block takes its transactions out of
the pool and makes them persisted at once, so what is known stays known, and
nothing is accepted, and with that announced, a second time.
-/

namespace ChainSync

namespace RelayPool

variable {pool : RelayPool} {tx : Transaction} {h : Hash}

theorem contains_of_get? (hget : pool.get? h = some tx) : pool.contains h = true := by
  rw [contains, Assoc.contains, ← get?, hget, Option.isSome_some]

theorem exists_get? (hc : pool.contains h = true) : ∃ tx, pool.get? h = some tx :=
  Option.isSome_iff_exists.1 hc

end RelayPool

namespace Node

def Knows (h : Hash) (n : Node) : Prop :=
  n.pool.relay.contains h = true ∨ n.ledger.sink.isPersisted h = true

def Apart (n : Node) : Prop :=
  ∀ h, n.pool.relay.contains h = true → n.ledger.sink.isPersisted h = false

def announced (h : Hash) (ms : List Message) : Nat :=
  ms.countP (·.announces h)

theorem announced_append (h : Hash) (ms ms' : List Message) :
    announced h (ms ++ ms') = announced h ms + announced h ms' :=
  List.countP_append

/-- What a piece of history does to transactions, `written` being what it takes out of the outboxes. -/
structure Advances (written : PeerId → List Message) (n n' : Node) : Prop where
  keyed : n.pool.Keyed → n'.pool.Keyed
  apart : n.Apart → n'.Apart
  kept : ∀ h tx, n.pool.relay.get? h = some tx →
    n'.pool.relay.get? h = some tx ∨ n'.ledger.sink.isPersisted h = true
  persisted : ∀ h, n.ledger.sink.isPersisted h = true → n'.ledger.sink.isPersisted h = true
  told : n.pool.Keyed → ∀ id h,
    announced h (written id) + announced h (n'.pool.outboxOf id) = announced h (n.pool.outboxOf id) ∨
      announced h (written id) + announced h (n'.pool.outboxOf id) = announced h (n.pool.outboxOf id) + 1 ∧
        ¬n.Knows h ∧ n'.Knows h

variable {n n' n'' : Node} {written written' : PeerId → List Message} {h : Hash}

theorem Advances.knows (a : n.Advances written n') (hk : n.Knows h) : n'.Knows h := by
  rcases hk with hpooled | hpersisted
  · obtain ⟨tx, htx⟩ := RelayPool.exists_get? hpooled
    exact (a.kept h tx htx).imp RelayPool.contains_of_get? id
  · exact Or.inr (a.persisted h hpersisted)

theorem Advances.trans (a : n.Advances written n') (a' : n'.Advances written' n'') :
    n.Advances (fun id => written id ++ written' id) n'' where
  keyed := fun hk => a'.keyed (a.keyed hk)
  apart := fun hk => a'.apart (a.apart hk)
  kept := by
    intro h tx htx
    rcases a.kept h tx htx with htx | hpersisted
    · exact a'.kept h tx htx
    · exact Or.inr (a'.persisted h hpersisted)
  persisted := fun h hp => a'.persisted h (a.persisted h hp)
  told := by
    intro hk id h
    rw [announced_append]
    obtain h₁ | ⟨h₁, hnew, hknown⟩ := a.told hk id h
    · obtain h₂ | ⟨h₂, hnew, hknown⟩ := a'.told (a.keyed hk) id h
      · exact Or.inl (by omega)
      · exact Or.inr ⟨by omega, fun hn => hnew (a.knows hn), hknown⟩
    · obtain h₂ | ⟨-, hnew', -⟩ := a'.told (a.keyed hk) id h
      · exact Or.inr ⟨by omega, hnew, a'.knows hknown⟩
      · exact absurd hknown hnew'

/-! ## Quiet changes -/

structure Quiet (n n' : Node) : Prop where
  pool : n.pool.Quiet n'.pool
  persisted : n'.ledger.persisted = n.ledger.persisted

theorem Quiet.trans (q : n.Quiet n') (q' : n'.Quiet n'') : n.Quiet n'' :=
  ⟨q.pool.trans q'.pool, q'.persisted.trans q.persisted⟩

theorem announced_append_silent {ms : List Message} (hms : ∀ m ∈ ms, m.IsSilent) (h : Hash) (box : List Message) :
    announced h (box ++ ms) = announced h box := by
  have hnone : announced h ms = 0 := List.countP_eq_zero.2 fun m hm => by simp [hms m hm h]
  rw [announced_append, hnone, Nat.add_zero]

theorem Quiet.advances (q : n.Quiet n') : n.Advances (fun _ => []) n' where
  keyed := q.pool.keyed
  apart := by
    intro ha h
    rw [q.pool.relay]
    show _ → n'.ledger.persisted.contains h = false
    rw [q.persisted]
    exact ha h
  kept := fun h tx htx => Or.inl (q.pool.relay ▸ htx)
  persisted := by
    intro h hp
    show n'.ledger.persisted.contains h = true
    rw [q.persisted]
    exact hp
  told := by
    intro _ id h
    obtain ⟨ms, hbox, hms⟩ := q.pool.told id
    rw [hbox, announced_append_silent hms]
    exact Or.inl (Nat.zero_add _)

theorem advances_flush (k : PeerId) (n : Node) :
    n.Advances (fun id => if k = id then n.pool.outboxOf id else []) (n.setPool (n.pool.modify k (·.drain.1))) where
  keyed := by
    intro hk
    refine hk.of_map rfl (fun p => ?_) rfl
    split <;> rfl
  apart := fun ha => ha
  kept := fun h tx htx => Or.inl htx
  persisted := fun h hp => hp
  told := by
    intro hk id h
    refine Or.inl ?_
    show announced h _ + announced h ((n.pool.modify k (·.drain.1)).outboxOf id) = _
    rw [Pool.outboxOf_flush]
    by_cases hid : k = id
    · rw [if_pos hid, if_pos hid.symm]
      rfl
    · rw [if_neg hid, if_neg (Ne.symm hid)]
      exact Nat.zero_add _

/-! ## Rounds -/

theorem quiet_checkHeaders (now : Instant) (n : Node) : n.Quiet (n.checkHeaders now) := by
  unfold checkHeaders
  split
  · exact ⟨.refl _, rfl⟩
  · split
    · exact ⟨.refl _, rfl⟩
    · rename_i r hr f hf
      split
      · exact ⟨.refl _, rfl⟩
      · split
        · exact ⟨.refl _, rfl⟩
        · have hcharged : n.pool.Quiet (n.pool.penaliseTimeout f.peer).1 := Pool.quiet_penaliseTimeout _ _
          unfold retryHeaders
          dsimp only
          split
          · exact ⟨hcharged, rfl⟩
          · split
            all_goals
              rename_i n' hsent
              obtain ⟨rfl, -⟩ := withPeer_eq hsent
              exact ⟨hcharged.trans (Pool.quiet_getHeaders ..), rfl⟩

theorem quiet_retryBlocks (now : Instant) (batch : List (Hash × Request)) (n : Node) :
    n.Quiet (n.retryBlocks now batch) := by
  unfold retryBlocks
  dsimp only
  split
  · exact ⟨.refl _, rfl⟩
  · split
    all_goals
      rename_i n' hsent
      obtain ⟨rfl, -⟩ := withPeer_eq hsent
      exact ⟨Pool.quiet_getData .., rfl⟩

theorem quiet_penaliseEach : ∀ (ids : List PeerId) (pool : Pool),
    pool.Quiet (ids.foldl (fun pool id => (pool.penaliseTimeout id).1) pool)
  | [], pool => .refl pool
  | id :: ids, pool => (Pool.quiet_penaliseTimeout id pool).trans (quiet_penaliseEach ids _)

theorem quiet_checkBlocks (now : Instant) (n : Node) : n.Quiet (n.checkBlocks now) := by
  have hpenalised : ∀ blocks (ids : List PeerId), n.Quiet ((n.setBlocks blocks).setPool
      (ids.foldl (fun pool id => (pool.penaliseTimeout id).1) n.pool)) := fun _ ids =>
    ⟨quiet_penaliseEach ids n.pool, rfl⟩
  unfold checkBlocks
  dsimp only
  split
  · exact hpenalised _ _
  · exact (hpenalised _ _).trans (quiet_retryBlocks now _ _)

theorem quiet_syncHeaders (now : Instant) (n : Node) : n.Quiet (n.syncHeaders now) := by
  unfold syncHeaders
  dsimp only
  split_ifs
  · exact ⟨.refl _, rfl⟩
  · exact ⟨.refl _, rfl⟩
  · split
    · exact ⟨.refl _, rfl⟩
    · split
      all_goals
        rename_i n' hsent
        obtain ⟨rfl, -⟩ := withPeer_eq hsent
        exact ⟨Pool.quiet_getHeaders .., rfl⟩

theorem quiet_syncBlocks (now : Instant) (n : Node) : n.Quiet (n.syncBlocks now) := by
  unfold syncBlocks
  dsimp only
  split
  · exact ⟨.refl _, rfl⟩
  · split
    · exact ⟨.refl _, rfl⟩
    · split
      · exact ⟨.refl _, rfl⟩
      · split
        all_goals
          rename_i n' hsent
          obtain ⟨rfl, -⟩ := withPeer_eq hsent
          exact ⟨Pool.quiet_getData .., rfl⟩

theorem quiet_tick (now : Instant) (n : Node) : n.Quiet (n.tick now) :=
  (((quiet_checkHeaders now n).trans (quiet_checkBlocks now _)).trans (quiet_syncHeaders now _)).trans
    (quiet_syncBlocks now _)

variable [Digest]

/-! ## Deliveries -/

theorem quiet_receiveHeaders (peer : PeerId) (hs : List Header) (n : Node) : n.Quiet (n.receiveHeaders peer hs) := by
  have hkept : (n.ledger.addHeaders hs).1.persisted = n.ledger.persisted :=
    Ledger.addHeaders_preserves (P := fun l => l.persisted = n.ledger.persisted) hs n.ledger (fun _ _ _ _ h => h) rfl
  unfold receiveHeaders
  split
  · exact ⟨.refl _, rfl⟩
  · exact ⟨.refl _, rfl⟩
  · split
    · exact ⟨.refl _, rfl⟩
    · dsimp only
      split
      · exact ⟨Pool.quiet_penaliseError _ _, hkept⟩
      · exact ⟨.refl _, hkept⟩

theorem quiet_receiveBlock (now : Instant) (peer : PeerId) (b : Block) (raw : Bytes) (n : Node) :
    n.Quiet (n.receiveBlock now peer b raw) := by
  cases hr : n.blockRequest? b.hash with
  | none =>
    rw [receiveBlock_of_none now peer raw hr]
    exact ⟨.refl _, rfl⟩
  | some r =>
    have hnoted : n.Quiet (noteSpeed now peer raw.length r (n.setBlocks (Assoc.erase b.hash n.sync.blocks))) := by
      obtain h | ⟨speed, h⟩ := noteSpeed_cases now peer raw.length r (n.setBlocks (Assoc.erase b.hash n.sync.blocks))
      · rw [h]
        exact ⟨.refl _, rfl⟩
      · rw [h]
        exact ⟨Pool.quiet_modify peer (f := (·.addSpeed speed)) (fun _ => rfl) (fun _ => rfl) n.pool, rfl⟩
    rw [receiveBlock_of_requested hr]
    dsimp only
    split
    · exact hnoted
    · exact ⟨hnoted.pool, hnoted.persisted⟩

/-! ## Persisting -/

theorem get?_removeBlock (h : Hash) (b : Block) (pool : RelayPool) :
    (pool.removeBlock b).get? h = if h ∈ b.transactions.map Transaction.hash then none else pool.get? h := by
  have herase : ∀ (txs : List Transaction) (l : List (Hash × Transaction)),
      Assoc.get? h (txs.foldl (fun l tx => Assoc.erase tx.hash l) l) =
        if h ∈ txs.map Transaction.hash then none else Assoc.get? h l := by
    intro txs
    induction txs with
    | nil => exact fun l => (if_neg List.not_mem_nil).symm
    | cons tx txs ih =>
      intro l
      rw [List.foldl_cons, ih, Assoc.get?_erase, List.map_cons]
      by_cases htx : h = tx.hash
      · rw [if_pos htx, ite_self, if_pos (htx ▸ List.mem_cons_self ..)]
      · simp only [List.mem_cons, htx, false_or, if_false]
  exact herase b.transactions pool.txs

theorem isPersisted_stored (h : Hash) (b : Block) (n : Node) : (n.stored b).ledger.sink.isPersisted h = true ↔
    h ∈ b.transactions.map Transaction.hash ∨ n.ledger.sink.isPersisted h = true := by
  show (b.transactions.map Transaction.hash ++ n.ledger.persisted).contains h = true ↔
    _ ∨ n.ledger.persisted.contains h = true
  rw [List.contains_iff_mem, List.contains_iff_mem, List.mem_append]

/-- The transactions of a stored block change over from the pool to the ledger. -/
theorem advances_stored (b : Block) (n : Node) : n.Advances (fun _ => []) (n.stored b) where
  keyed := fun hk => ⟨hk.distinct, hk.used⟩
  apart := by
    intro ha h hc
    obtain ⟨tx, htx⟩ := RelayPool.exists_get? hc
    have hget : (n.pool.relay.removeBlock b).get? h = some tx := htx
    rw [get?_removeBlock] at hget
    split at hget
    · cases hget
    · rename_i hnew
      refine eq_false_of_ne_true fun hp => ?_
      obtain hmem | hold := (isPersisted_stored h b n).1 hp
      · exact hnew hmem
      · exact Bool.false_ne_true ((ha h (RelayPool.contains_of_get? hget)).symm.trans hold)
  kept := by
    intro h tx htx
    by_cases hmem : h ∈ b.transactions.map Transaction.hash
    · exact Or.inr ((isPersisted_stored h b n).2 (Or.inl hmem))
    · refine Or.inl ?_
      show (n.pool.relay.removeBlock b).get? h = some tx
      rw [get?_removeBlock, if_neg hmem, htx]
  persisted := fun h hp => (isPersisted_stored h b n).2 (Or.inr hp)
  told := fun _ id h => Or.inl (Nat.zero_add _)

theorem advances_persist (n : Node) : n.Advances (fun _ => []) n.persist.1 := by
  fun_induction persist n with
  | case1 n base pruned h => exact Quiet.advances ⟨.refl _, rfl⟩
  | case2 n base pruned e h n' l b hadd n'' count hrest ih =>
    obtain ⟨-, -, rfl⟩ := Ledger.addBlock_eq_ok_iff.1 hadd
    rw [hrest] at ih
    exact (advances_stored b n).trans ih
  | case3 n base pruned e h n' err hadd => exact Quiet.advances ⟨Pool.quiet_penaliseError _ _, rfl⟩

/-! ## Submissions -/

theorem submit_cases (sink : RelaySink) (tx : Transaction) (relay : RelayPool) :
    (relay.submit sink tx).2 ≠ .accepted ∧ (relay.submit sink tx).1 = relay ∨
      (relay.submit sink tx).2 = .accepted ∧ relay.contains tx.hash = false ∧ sink.isPersisted tx.hash = false ∧
        ∀ h, (relay.submit sink tx).1.get? h = if h = tx.hash then some tx else relay.get? h := by
  unfold RelayPool.submit
  by_cases hready : ¬sink.ready = true
  · exact Or.inl (by rw [if_pos hready]; exact ⟨nofun, rfl⟩)
  by_cases hpooled : relay.contains tx.hash = true
  · exact Or.inl (by rw [if_neg hready, if_pos hpooled]; exact ⟨nofun, rfl⟩)
  by_cases hpersisted : sink.isPersisted tx.hash = true
  · exact Or.inl (by rw [if_neg hready, if_neg hpooled, if_pos hpersisted]; exact ⟨nofun, rfl⟩)
  by_cases hvalid : ¬sink.verify tx relay.transactions = true
  · exact Or.inl (by rw [if_neg hready, if_neg hpooled, if_neg hpersisted, if_pos hvalid]; exact ⟨nofun, rfl⟩)
  rw [if_neg hready, if_neg hpooled, if_neg hpersisted, if_neg hvalid]
  exact Or.inr ⟨rfl, eq_false_of_ne_true hpooled, eq_false_of_ne_true hpersisted,
    fun h => Assoc.get?_set h tx.hash tx relay.txs⟩

theorem get?_of_accepted {sink : RelaySink} {tx : Transaction} {relay : RelayPool}
    (haccepted : (relay.submit sink tx).2 = .accepted) : (relay.submit sink tx).1.get? tx.hash = some tx := by
  obtain ⟨hrefused, -⟩ | ⟨-, -, -, hget⟩ := submit_cases sink tx relay
  · exact absurd haccepted hrefused
  · rw [hget, if_pos rfl]

theorem Knows.refused {tx : Transaction} (hk : n.Knows tx.hash) : (n.pool.relay.submit n.sink tx).2 ≠ .accepted := by
  obtain ⟨hrefused, -⟩ | ⟨-, hpooled, hpersisted, -⟩ := submit_cases n.sink tx n.pool.relay
  · exact hrefused
  · rcases hk with h | h
    · exact absurd (hpooled.symm.trans h) Bool.false_ne_true
    · exact absurd (hpersisted.symm.trans h) Bool.false_ne_true

theorem announced_inv (h : Hash) (tx : Transaction) :
    announced h [.inv ⟨.tx, [tx.hash]⟩] = if h = tx.hash then 1 else 0 := by
  show [Message.inv ⟨.tx, [tx.hash]⟩].countP (·.announces h) = _
  rw [List.countP_singleton]
  refine if_congr ?_ rfl rfl
  simp [Message.announces]

theorem advances_relayFrom (now : Instant) (tx : Transaction) (origin : Option PeerId) (n : Node) :
    n.Advances (fun _ => []) (n.setPool (n.pool.relayFrom now n.sink tx origin).1) := by
  have hrelay := Pool.relay_relayFrom now n.sink tx origin n.pool
  constructor
  case keyed => exact fun hk => hk.relayFrom now n.sink tx origin
  case persisted => exact fun h hp => hp
  case apart =>
    intro ha h
    show (n.pool.relayFrom now n.sink tx origin).1.relay.contains h = true → n.ledger.sink.isPersisted h = false
    rw [hrelay]
    obtain ⟨-, hsame⟩ | ⟨-, -, hpersisted, hget⟩ := submit_cases n.sink tx n.pool.relay
    · rw [hsame]
      exact ha h
    · intro hc
      by_cases htx : h = tx.hash
      · exact htx ▸ hpersisted
      · obtain ⟨tx', htx'⟩ := RelayPool.exists_get? hc
        rw [hget, if_neg htx] at htx'
        exact ha h (RelayPool.contains_of_get? htx')
  case kept =>
    intro h tx' htx'
    refine Or.inl ?_
    show (n.pool.relayFrom now n.sink tx origin).1.relay.get? h = some tx'
    rw [hrelay]
    obtain ⟨-, hsame⟩ | ⟨-, hpooled, -, hget⟩ := submit_cases n.sink tx n.pool.relay
    · rw [hsame, htx']
    · have hne : h ≠ tx.hash := by
        rintro rfl
        exact Bool.false_ne_true (hpooled.symm.trans (RelayPool.contains_of_get? htx'))
      rw [hget, if_neg hne, htx']
  case told =>
    intro hk id h
    obtain heq | ⟨haccepted, -, heq⟩ := hk.relayFrom_told now n.sink tx origin id
    · exact Or.inl (by rw [setPool, heq]; exact Nat.zero_add _)
    · have hcount : announced h ((n.setPool (n.pool.relayFrom now n.sink tx origin).1).pool.outboxOf id) =
          announced h (n.pool.outboxOf id) + if h = tx.hash then 1 else 0 := by
        rw [setPool, heq, announced_append, announced_inv]
      rw [hcount]
      -- only the transaction itself is announced, and it was not known
      by_cases htx : h = tx.hash
      · subst htx
        rw [Pool.result_relayFrom] at haccepted
        rw [if_pos rfl]
        refine Or.inr ⟨Nat.zero_add _, fun hknown => hknown.refused haccepted, Or.inl ?_⟩
        show (n.pool.relayFrom now n.sink tx origin).1.relay.contains tx.hash = true
        rw [hrelay]
        exact RelayPool.contains_of_get? (get?_of_accepted haccepted)
      · rw [if_neg htx]
        exact Or.inl (Nat.zero_add _)

end Node

/-! ## Runs -/

namespace Action

def submits : Action → Option (Transaction × Option PeerId)
  | .relay tx => some (tx, none)
  | .event (.transaction peer tx) => some (tx, some peer)
  | _ => none

def writes (id : PeerId) (pool : Pool) : Action → List Message
  | .churn (.flush k) => if k = id then pool.outboxOf id else []
  | _ => []

variable [Digest]

theorem act_of_submits {a : Action} {tx : Transaction} {origin : Option PeerId} (h : a.submits = some (tx, origin))
    (now : Instant) (n : Node) :
    a.act now n = n.setPool (n.pool.relayFrom now n.sink tx origin).1 ∧ ∀ id, a.writes id n.pool = [] := by
  unfold submits at h
  split at h
  · cases h
    exact ⟨rfl, fun _ => rfl⟩
  · cases h
    exact ⟨rfl, fun _ => rfl⟩
  · cases h

theorem advances_act (now : Instant) (a : Action) (n : Node) : n.Advances (a.writes · n.pool) (a.act now n) := by
  cases a with
  | checkHeaders => exact (Node.quiet_checkHeaders now n).advances
  | checkBlocks => exact (Node.quiet_checkBlocks now n).advances
  | syncHeaders => exact (Node.quiet_syncHeaders now n).advances
  | syncBlocks => exact (Node.quiet_syncBlocks now n).advances
  | tick => exact (Node.quiet_tick now n).advances
  | headers peer hs => exact (Node.quiet_receiveHeaders peer hs n).advances
  | block peer b raw => exact (Node.quiet_receiveBlock now peer b raw n).advances
  | persist => exact Node.advances_persist n
  | churn c =>
    by_cases hc : ∃ k, c = .flush k
    · obtain ⟨k, rfl⟩ := hc
      exact Node.advances_flush k n
    · have hquiet := Pool.quiet_churn now (fun k hk => hc ⟨k, hk⟩) n.pool
      have hwritten : (fun id => (Action.churn c).writes id n.pool) = fun _ => [] := by
        funext id
        unfold writes
        split
        case h_1 k heq => cases heq; exact absurd ⟨k, rfl⟩ hc
        case h_2 => rfl
      rw [hwritten]
      exact Node.Quiet.advances ⟨hquiet, rfl⟩
  | relay tx => exact Node.advances_relayFrom now tx none n
  | event e =>
    by_cases he : ∃ peer tx, e = .transaction peer tx
    · obtain ⟨peer, tx, rfl⟩ := he
      exact Node.advances_relayFrom now tx (some peer) n
    · have hquiet := Pool.quiet_handle now n.sink (fun peer tx heq => he ⟨peer, tx, heq⟩) n.pool
      exact Node.Quiet.advances ⟨hquiet, rfl⟩
  | wait d => exact (Node.Quiet.mk (.refl _) rfl).advances

end Action

namespace World

variable [Digest]

def written (id : PeerId) (w : World) : List Action → List Message
  | [] => []
  | a :: actions => a.writes id w.node.pool ++ written id (a.step w) actions

/-- All that a peer is told along a run, written already or not. -/
def sentTo (id : PeerId) (w : World) (actions : List Action) : List Message :=
  w.written id actions ++ (w.run actions).node.pool.outboxOf id

def submit (w : World) (tx : Transaction) (origin : Option PeerId) : RelayResult :=
  (w.node.pool.relayFrom w.now w.node.sink tx origin).2

theorem advances_run : ∀ (actions : List Action) (w : World),
    w.node.Advances (w.written · actions) (w.run actions).node
  | [], _ => (Node.Quiet.mk (.refl _) rfl).advances
  | a :: actions, w => (Action.advances_act w.now a w.node).trans (advances_run actions (a.step w))

theorem written_append (id : PeerId) : ∀ (as bs : List Action) (w : World),
    w.written id (as ++ bs) = w.written id as ++ (w.run as).written id bs
  | [], _, _ => rfl
  | a :: as, bs, w => by
    show a.writes id w.node.pool ++ (a.step w).written id (as ++ bs) = _
    rw [written_append id as bs (a.step w), ← List.append_assoc]
    rfl

theorem sentTo_cons (id : PeerId) (w : World) (a : Action) (actions : List Action) :
    w.sentTo id (a :: actions) = a.writes id w.node.pool ++ (a.step w).sentTo id actions :=
  List.append_assoc ..

theorem sentTo_append (id : PeerId) (w : World) (as bs : List Action) :
    w.sentTo id (as ++ bs) = w.written id as ++ (w.run as).sentTo id bs := by
  rw [sentTo, written_append, run_append, List.append_assoc, sentTo]

/-- What was told is told of at most once more, and only if it was not known. -/
theorem announced_sentTo {w : World} (hkeyed : w.node.pool.Keyed) (id : PeerId) (actions : List Action) (h : Hash) :
    Node.announced h (w.sentTo id actions) = Node.announced h (w.node.pool.outboxOf id) ∨
      Node.announced h (w.sentTo id actions) = Node.announced h (w.node.pool.outboxOf id) + 1 ∧
        ¬w.node.Knows h ∧ (w.run actions).node.Knows h := by
  rw [sentTo, Node.announced_append]
  exact (advances_run actions w).told hkeyed id h

section
variable {w : World} {a : Action} {tx : Transaction} {origin : Option PeerId}

theorem unknown_of_accepted (haccepted : w.submit tx origin = .accepted) : ¬w.node.Knows tx.hash := by
  rw [submit, Pool.result_relayFrom] at haccepted
  exact fun hk => hk.refused haccepted

theorem pooled_of_accepted (ha : a.submits = some (tx, origin)) (haccepted : w.submit tx origin = .accepted) :
    (a.step w).node.pool.relay.get? tx.hash = some tx := by
  obtain ⟨hact, -⟩ := Action.act_of_submits ha w.now w.node
  show (a.act w.now w.node).pool.relay.get? tx.hash = some tx
  rw [hact]
  show (w.node.pool.relayFrom w.now w.node.sink tx origin).1.relay.get? tx.hash = some tx
  rw [Pool.relay_relayFrom]
  rw [submit, Pool.result_relayFrom] at haccepted
  exact Node.get?_of_accepted haccepted

/-- The peer that a transaction comes from is told nothing by that. -/
theorem sentTo_origin (hkeyed : w.node.pool.Keyed) {peer : PeerId} (ha : a.submits = some (tx, some peer)) :
    a.writes peer w.node.pool = [] ∧ (a.step w).node.pool.outboxOf peer = w.node.pool.outboxOf peer := by
  obtain ⟨hact, hwrites⟩ := Action.act_of_submits ha w.now w.node
  refine ⟨hwrites peer, ?_⟩
  show (a.act w.now w.node).pool.outboxOf peer = _
  rw [hact]
  obtain heq | ⟨-, hne, -⟩ := hkeyed.relayFrom_told w.now w.node.sink tx (some peer) peer
  · exact heq
  · exact absurd rfl hne

end

/-- The one that an accepted transaction came from is never told of it: not before, as it was not known, nor
then, nor later, as it is known. -/
theorem announced_to_origin {w : World} (hkeyed : w.node.pool.Keyed) {peer : PeerId}
    (hfresh : w.node.pool.outboxOf peer = []) {earlier later : List Action} {a : Action} {tx : Transaction}
    (ha : a.submits = some (tx, some peer)) (haccepted : (w.run earlier).submit tx (some peer) = .accepted) :
    Node.announced tx.hash (w.sentTo peer (earlier ++ a :: later)) = 0 := by
  let before := w.run earlier
  have hbefore : before.node.pool.Keyed := (advances_run earlier w).keyed hkeyed
  have hafter : (a.step before).node.pool.Keyed := (Action.advances_act before.now a before.node).keyed hbefore
  have hearlier : Node.announced tx.hash (w.written peer earlier) +
      Node.announced tx.hash (before.node.pool.outboxOf peer) = 0 := by
    obtain heq | ⟨-, -, hknown⟩ := announced_sentTo hkeyed peer earlier tx.hash
    · rw [hfresh, sentTo, Node.announced_append] at heq
      exact heq
    · exact absurd hknown (unknown_of_accepted haccepted)
  obtain ⟨hwrites, hskipped⟩ := sentTo_origin hbefore ha
  -- known from here on, so nothing more is told of it
  have hlater : Node.announced tx.hash ((a.step before).sentTo peer later) =
      Node.announced tx.hash (before.node.pool.outboxOf peer) := by
    obtain heq | ⟨-, hnew, -⟩ := announced_sentTo hafter peer later tx.hash
    · rw [heq, hskipped]
    · exact absurd (Or.inl (RelayPool.contains_of_get? (pooled_of_accepted ha haccepted))) hnew
  have hsplit : w.sentTo peer (earlier ++ a :: later) = w.written peer earlier ++ (a.step before).sentTo peer later := by
    rw [sentTo_append, sentTo_cons, hwrites, List.nil_append]
  rw [hsplit, Node.announced_append, hlater, hearlier]

/-- Pooled and persisted never hold of one transaction. One that was accepted is the one or the other from then
on and is not accepted again. It is announced at most once to each peer, and never to the one it came from. -/
theorem relayed_once (now : Instant) (g : Block) (pool : PoolConfig) (nonce : UInt32) (sync : SyncConfig)
    (actions : List Action)
    (hfree : ∀ a ∈ actions, ∀ tx origin, a.submits = some (tx, origin) →
      ∀ b ∈ ((World.mk now (.fresh (.ofGenesis g) pool nonce sync)).run actions).node.ledger.blocks.toList,
        ∀ tx' ∈ b.transactions, tx'.hash = tx.hash → tx' = tx) :
    let w : World := ⟨now, .fresh (.ofGenesis g) pool nonce sync⟩
    let n := (w.run actions).node
    (∀ h, n.pool.relay.contains h = true → n.ledger.sink.isPersisted h = false) ∧
    (∀ earlier a later tx origin, actions = earlier ++ a :: later → a.submits = some (tx, origin) →
      (w.run earlier).submit tx origin = .accepted →
        (n.pool.relay.get? tx.hash = some tx ∨
          n.ledger.sink.isPersisted tx.hash = true ∧ ∃ b ∈ n.ledger.blocks.toList, tx ∈ b.transactions) ∧
        (∀ origin', (w.run actions).submit tx origin' ≠ .accepted) ∧
        ∀ peer, origin = some peer → (w.sentTo peer actions).countP (·.announces tx.hash) = 0) ∧
    ∀ id h, (w.sentTo id actions).countP (·.announces h) ≤ 1 := by
  intro w n
  have hkeyed : w.node.pool.Keyed := ⟨List.nodup_nil, nofun⟩
  have hrun := advances_run actions w
  refine ⟨hrun.apart nofun, ?_, fun id h => ?_⟩
  case refine_2 =>
    obtain hnone | ⟨honce, -⟩ := announced_sentTo hkeyed id actions h
    · exact hnone.trans_le (Nat.zero_le 1)
    · exact honce.le
  intro earlier a later tx origin hactions ha haccepted
  have hpooled := pooled_of_accepted ha haccepted
  have hafter : ((w.run earlier).run (a :: later)).node = n := by
    show _ = (w.run actions).node
    rw [hactions, run_append]
  have hlater := advances_run later (a.step (w.run earlier))
  have hknown : n.Knows tx.hash := hafter ▸ hlater.knows (Or.inl (RelayPool.contains_of_get? hpooled))
  refine ⟨?_, fun origin' haccepted' => ?_, ?_⟩
  · obtain hstill | hpersisted := hlater.kept tx.hash tx hpooled
    · exact Or.inl (hafter ▸ hstill)
    · have hpersisted : n.ledger.sink.isPersisted tx.hash = true := hafter ▸ hpersisted
      refine Or.inr ⟨hpersisted, ?_⟩
      have hledger : n.ledger.WellFormed := (ledger_run (w := w) (Ledger.wellFormed_ofGenesis g) actions).2
      obtain ⟨b, hb, tx', htx', heq⟩ := (hledger.persisted tx.hash).1 (List.contains_iff_mem.1 hpersisted)
      have hmem : a ∈ actions := by
        rw [hactions]
        exact List.mem_append_right _ (List.mem_cons_self ..)
      exact ⟨b, hb, hfree a hmem tx origin ha b hb tx' htx' heq ▸ htx'⟩
  · rw [submit, Pool.result_relayFrom] at haccepted'
    exact hknown.refused haccepted'
  · rintro peer rfl
    subst hactions
    exact announced_to_origin hkeyed rfl ha haccepted

end World

namespace Scripted

def relayedLater : List Action :=
  [.relay (tx 2), .churn (.flush 1), .persist]

def relayed : List Action :=
  firstDelivery ++ .event (.transaction 1 (tx 1)) :: relayedLater

theorem relayed_checked :
    (smallWorld.run firstDelivery).submit (tx 1) (some 1) = .accepted ∧
      ((smallWorld.run relayed).node.ledger.sink.isPersisted (tx 1).hash = true ∧
        (smallWorld.sentTo 1 relayed).countP (·.announces (tx 2).hash) = 1) ∧
      ∀ b ∈ (smallWorld.run relayed).node.ledger.blocks.toList, ∀ tx' ∈ b.transactions,
        (tx'.hash = (tx 1).hash → tx' = tx 1) ∧ (tx'.hash = (tx 2).hash → tx' = tx 2) := by
  decide +kernel

theorem submits_relayed {a : Action} (ha : a ∈ relayed) {t : Transaction} {origin : Option PeerId}
    (h : a.submits = some (t, origin)) : t = tx 1 ∨ t = tx 2 := by
  have hsubmitted : relayed.filterMap Action.submits = [(tx 1, some 1), (tx 2, none)] := rfl
  have hmem : (t, origin) ∈ relayed.filterMap Action.submits := List.mem_filterMap.2 ⟨a, ha, h⟩
  rw [hsubmitted] at hmem
  rcases List.mem_cons.1 hmem with heq | hmem
  · exact Or.inl (congrArg Prod.fst heq)
  · exact Or.inr (congrArg Prod.fst (List.mem_singleton.1 hmem))

end Scripted

/-- A peer sends a transaction and is told of another one only, and the block that holds the first is persisted. -/
theorem World.relayed_once_first :
    let w := Scripted.smallWorld
    let n := (w.run Scripted.relayed).node
    (w.run Scripted.firstDelivery).submit (Scripted.tx 1) (some 1) = .accepted ∧
      n.ledger.sink.isPersisted (Scripted.tx 1).hash = true ∧ n.pool.relay.contains (Scripted.tx 1).hash = false ∧
        (∀ origin, (w.run Scripted.relayed).submit (Scripted.tx 1) origin ≠ .accepted) ∧
          (w.sentTo 1 Scripted.relayed).countP (·.announces (Scripted.tx 1).hash) = 0 ∧
            (w.sentTo 1 Scripted.relayed).countP (·.announces (Scripted.tx 2).hash) = 1 ∧
              ∀ id h, (w.sentTo id Scripted.relayed).countP (·.announces h) ≤ 1 := by
  intro w n
  obtain ⟨haccepted, ⟨hpersisted, htold⟩, hfree⟩ := Scripted.relayed_checked
  obtain ⟨hapart, hkept, honce⟩ := World.relayed_once 0 genesisBlock .default 0
    { SyncConfig.default with cacheCapacity := 1 } Scripted.relayed (by
      intro a ha t origin h b hb tx' htx' heq
      obtain ⟨hfirst, hsecond⟩ := hfree b hb tx' htx'
      obtain rfl | rfl := Scripted.submits_relayed ha h
      · exact hfirst heq
      · exact hsecond heq)
  obtain ⟨-, hrefused, hskipped⟩ := hkept Scripted.firstDelivery _ Scripted.relayedLater (Scripted.tx 1) (some 1) rfl
    rfl haccepted
  refine ⟨haccepted, hpersisted, ?_, hrefused, hskipped 1 rfl, htold, honce⟩
  refine eq_false_of_ne_true fun hpooled => ?_
  exact Bool.false_ne_true ((hapart _ hpooled).symm.trans hpersisted)

end ChainSync
