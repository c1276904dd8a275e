import ChainSync.Hash.Sha256
import ChainSync.Proofs.Moves

/-!
# Late answers to requests for headers

Stored headers stay, and a batch whose first header is not above the last
stored one is ignored. So a batch counts once: from the first of its headers
that was stored on it changes nothing, whoever sends it and whatever is asked
for meanwhile. And an answer that is taken ends its request, so the next one
that is taken answers a request sent out later.
-/

namespace ChainSync

section
variable [Digest]

/-! ## The ledger along a run -/

theorem Node.ledger_move {known : List Header} {drains : Prop} {n n' : Node} (h : Node.Move known drains n n')
    (w : n.ledger.WellFormed) : n.ledger.Extends n'.ledger ∧ n'.ledger.WellFormed := by
  cases h with
  | headers hs r first hknown hr hfirst hheight hnew =>
    exact ⟨Ledger.extends_addHeaders hs n.ledger, w.addHeaders hs⟩
  | store e b he hraw hb hd => exact ⟨Ledger.extends_pushBlock n.ledger b, w.pushBlock hb⟩
  | _ => exact ⟨Ledger.Extends.refl _, w⟩

theorem World.ledger_run {w : World} (hw : w.node.ledger.WellFormed) (actions : List Action) :
    w.node.ledger.Extends (w.run actions).node.ledger ∧ (w.run actions).node.ledger.WellFormed := by
  have hmoves : Node.Moves (deliveredHeaders actions) True w.node (w.run actions).node :=
    World.moves_run actions w (fun _ h => h) fun _ _ _ => trivial
  refine hmoves.preserve (P := fun n => w.node.ledger.Extends n.ledger ∧ n.ledger.WellFormed) ?_
    ⟨Ledger.Extends.refl _, hw⟩
  intro n n' hm ⟨hext, hn⟩
  obtain ⟨hext', hn'⟩ := Node.ledger_move hm hn
  exact ⟨hext.trans hext', hn'⟩

/-- A batch of which anything is stored begins right behind the last header. -/
theorem Ledger.WellFormed.height_le_of_accepted {l : Ledger} (w : l.WellFormed) {h : Header} {hs : List Header}
    (hgrown : l.headerHeight < (l.addHeaders (h :: hs)).1.headerHeight) :
    h.height ≤ (l.addHeaders (h :: hs)).1.headerHeight := by
  by_cases hlink : l.links h = true
  · have hheight := (w.links_iff.1 hlink).1
    have hroot := w.rooted
    unfold headerHeight at hgrown ⊢
    omega
  · rw [Ledger.addHeaders, if_neg hlink] at hgrown
    exact absurd hgrown (Nat.lt_irrefl _)

/-! ## One delivery -/

namespace Node

variable {n : Node} {peer : PeerId} {hs : List Header}

/-- Headers that are stored already, or stand in place of such, change nothing. -/
theorem receiveHeaders_of_stale {first : Header} (hfirst : hs.head? = some first)
    (hstale : first.height ≤ n.ledger.headerHeight) : n.receiveHeaders peer hs = n := by
  obtain h | ⟨r, first', pool, -, hfirst', -, hnew, -⟩ := receiveHeaders_cases peer hs n
  · exact h
  · obtain rfl : first = first' := Option.some.inj (hfirst.symm.trans hfirst')
    exact absurd hnew (Nat.not_lt.2 hstale)

theorem head_height_le_of_accepted (w : n.ledger.WellFormed)
    (hgrown : n.ledger.headerHeight < (n.receiveHeaders peer hs).ledger.headerHeight) :
    ∃ first, hs.head? = some first ∧ first.height ≤ (n.receiveHeaders peer hs).ledger.headerHeight := by
  obtain h | ⟨r, first, pool, -, hfirst, -, -, h⟩ := receiveHeaders_cases peer hs n
  · rw [h] at hgrown
    exact absurd hgrown (Nat.lt_irrefl _)
  · obtain ⟨rest, rfl⟩ : ∃ rest, hs = first :: rest := by
      cases hs with
      | nil => cases hfirst
      | cons x rest => exact ⟨rest, by rw [Option.some.inj hfirst]⟩
    rw [h] at hgrown ⊢
    exact ⟨first, rfl, w.height_le_of_accepted hgrown⟩

/-- An answer that is taken was asked for, and ends its request. -/
theorem header_of_taken (h : n.receiveHeaders peer hs ≠ n) :
    n.sync.header ≠ none ∧ (n.receiveHeaders peer hs).sync.header = none := by
  obtain heq | ⟨r, first, pool, hr, -, -, -, heq⟩ := receiveHeaders_cases peer hs n
  · exact absurd heq h
  · rw [heq, hr]
    exact ⟨nofun, rfl⟩

end Node

/-! ## Runs -/

theorem World.exists_step {P : World → Prop} : ∀ {actions : List Action} {w : World}, ¬P w → P (w.run actions) →
    ∃ pre a post, actions = pre ++ a :: post ∧ ¬P (w.run pre) ∧ P (w.run (pre ++ [a]))
  | [], _, hw, h => absurd h hw
  | a :: actions, w, hw, h => by
    by_cases ha : P (a.step w)
    · exact ⟨[], a, actions, rfl, hw, ha⟩
    · obtain ⟨pre, b, post, rfl, hpre, hb⟩ := exists_step (w := a.step w) ha h
      exact ⟨a :: pre, b, post, rfl, hpre, hb⟩

/-- Once a header of a batch was stored, each later delivery of the batch changes nothing at all. Between any
two deliveries that change anything a new request for headers was sent. -/
theorem World.headers_count_once {w : World} {g : Block} {ops : List Ledger.Op}
    (hw : w.node.ledger = (Ledger.ofGenesis g).runOps ops) (earlier : List Action) (peer : PeerId) (hs : List Header) :
    let before := w.run earlier
    let after := before.run [.headers peer hs]
    (before.node.ledger.headerHeight < after.node.ledger.headerHeight →
      ∀ later peer', after.run (later ++ [.headers peer' hs]) = after.run later) ∧
    (after.node ≠ before.node →
      ∀ later peer' hs', (after.run (later ++ [.headers peer' hs'])).node ≠ (after.run later).node →
        ∃ pre a post, later = pre ++ a :: post ∧ (after.run pre).node.sync.header = none ∧
          (after.run (pre ++ [a])).node.sync.header ≠ none) := by
  intro before after
  have hstart : w.node.ledger.WellFormed := hw ▸ (Ledger.wellFormed_ofGenesis g).runOps ops
  have hbefore := (World.ledger_run hstart earlier).2
  have hafter := (World.ledger_run hbefore [.headers peer hs]).2
  constructor
  · intro hgrown later peer'
    obtain ⟨first, hfirst, hle⟩ := Node.head_height_le_of_accepted hbefore hgrown
    have hkept := (World.ledger_run hafter later).1.headerHeight_le
    rw [run_append]
    have hsame : (after.run later).node.receiveHeaders peer' hs = (after.run later).node :=
      Node.receiveHeaders_of_stale hfirst (hle.trans hkept)
    show World.mk _ (Node.receiveHeaders peer' hs (after.run later).node) = after.run later
    rw [hsame]
    rfl
  · intro htaken later peer' hs' htaken'
    have hended := (Node.header_of_taken (n := before.node) htaken).2
    rw [run_append] at htaken'
    have hasked := (Node.header_of_taken (n := (after.run later).node) htaken').1
    obtain ⟨pre, a, post, hlater, hnone, hsome⟩ := World.exists_step (P := fun w => w.node.sync.header ≠ none)
      (w := after) (not_not_intro hended) hasked
    exact ⟨pre, a, post, hlater, not_not.1 hnone, hsome⟩

end

namespace Scripted

def secondBlock : Block :=
  (next? firstBlock).getD default

def firstRequest : List Action :=
  [.churn (.arrive (address 1) false (version 1 10333 2)), .tick]

theorem firstRequest_answered :
    let before := smallWorld.run firstRequest
    let after := before.run [.headers 2 [firstBlock.header]]
    let asked := after.run [.tick]
    before.node.ledger.headerHeight = 0 ∧ after.node.ledger.headerHeight = 1 ∧
      asked.node.ledger.headerHeight = 1 ∧ asked.node.sync.header.isSome = true ∧
        (after.run ([.tick] ++ [.headers 1 [secondBlock.header]])).node.ledger.headerHeight = 2 := by
  decide +kernel

end Scripted

/-- A stranger is faster than the peer that was asked, whose answer then comes when the next header is
asked for. -/
theorem World.headers_count_once_first :
    let before := Scripted.smallWorld.run Scripted.firstRequest
    let after := before.run [.headers 2 [Scripted.firstBlock.header]]
    let late := after.run ([.tick] ++ [.headers 1 [Scripted.firstBlock.header]])
    let next := after.run ([.tick] ++ [.headers 1 [Scripted.secondBlock.header]])
    before.node.ledger.headerHeight < after.node.ledger.headerHeight ∧
      (after.run [.tick]).node.sync.header.isSome = true ∧ late = after.run [.tick] ∧
        after.node ≠ before.node ∧ next.node ≠ (after.run [.tick]).node ∧
          ∃ pre a post, [Action.tick] = pre ++ a :: post ∧ (after.run pre).node.sync.header = none ∧
            (after.run (pre ++ [a])).node.sync.header ≠ none := by
  intro before after late next
  obtain ⟨h0, h1, h1', hasked, h2⟩ := Scripted.firstRequest_answered
  have hgrown : before.node.ledger.headerHeight < after.node.ledger.headerHeight := by
    rw [show after.node.ledger.headerHeight = 1 from h1, show before.node.ledger.headerHeight = 0 from h0]
    exact Nat.one_pos
  have htaken : after.node ≠ before.node := fun h => Nat.ne_of_gt hgrown (congrArg (·.ledger.headerHeight) h)
  have htaken' : next.node ≠ (after.run [.tick]).node := by
    intro h
    have heq := congrArg (·.ledger.headerHeight) h
    exact absurd (h2.symm.trans (heq.trans h1')) (by decide)
  have hfresh : Scripted.smallWorld.node.ledger = (Ledger.ofGenesis genesisBlock).runOps [] := rfl
  obtain ⟨honce, hbetween⟩ := World.headers_count_once hfresh
    Scripted.firstRequest 2 [Scripted.firstBlock.header]
  exact ⟨hgrown, hasked, honce hgrown [.tick] 1, htaken, htaken', hbetween htaken [.tick] 1 _ htaken'⟩

end ChainSync
