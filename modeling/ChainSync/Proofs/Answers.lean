import ChainSync.Proofs.Chain
import ChainSync.Proofs.Peers
import ChainSync.Proofs.Run

/-!
# Honest answers

Peers that hold the same chain answer what is queued for them: a request for
headers by some of those that follow, a request for blocks by the blocks. A
round is one tick with its answers in any order, and a pass of persisting.
-/

namespace ChainSync

variable [Digest]

def blocksBehind (chain : List Block) (h : Hash) : List Block :=
  (chain.dropWhile fun b => b.hash ≠ h).tail

/-- What a peer delivers on a message when it serves `span` headers at a time. -/
def Message.answers (chain : List Block) (span : Nat) (peer : PeerId) : Message → List Action
  | .getheaders l =>
    match l.start with
    | [] => []
    | h :: _ => [.headers peer (((blocksBehind chain h).take span).map Block.header)]
  | .getdata ⟨.block, hashes⟩ =>
    hashes.filterMap fun h => (chain.find? (·.hash = h)).map fun b => .block peer b (Codec.encode b)
  | _ => []

def Pool.answers (chain : List Block) (span : Nat) (pool : Pool) : List Action :=
  pool.queued.flatMap fun x => x.2.answers chain span x.1

def Action.isWait : Action → Bool
  | .wait _ => true
  | _ => false

/-! ## Rounds -/

structure Round where
  /-- How long it is until the tick. -/
  pause : Duration
  span : Nat
  /-- The answers as they arrive, and the time between them. -/
  arrivals : List Action

def flushes (ids : List PeerId) : List Action :=
  ids.map fun id => .churn (.flush id)

def Round.actions (r : Round) (w : World) : List Action :=
  [.wait r.pause, .tick] ++ r.arrivals ++ flushes (w.node.pool.peers.map Peer.id) ++ [.persist]

/-- Each message that is queued at the tick is answered, and nothing else arrives. -/
structure Round.Honest (chain : List Block) (w : World) (r : Round) : Prop where
  span : 1 ≤ r.span ∧ r.span ≤ maxHeaders
  arrivals : (r.arrivals.filter fun a => !a.isWait).Perm
    ((w.run [.wait r.pause, .tick]).node.pool.answers chain r.span)

namespace World

def script (w : World) : List Round → List Action
  | [] => []
  | r :: rs => r.actions w ++ (w.run (r.actions w)).script rs

def Answered (chain : List Block) (w : World) : List Round → Prop
  | [] => True
  | r :: rs => r.Honest chain w ∧ (w.run (r.actions w)).Answered chain rs

theorem script_append (as bs : List Round) (w : World) :
    w.script (as ++ bs) = w.script as ++ (w.run (w.script as)).script bs := by
  induction as generalizing w with
  | nil => rfl
  | cons r as ih => rw [List.cons_append, script, script, ih, List.append_assoc, run_append]

theorem answered_append {chain : List Block} {as bs : List Round} {w : World} :
    w.Answered chain (as ++ bs) ↔ w.Answered chain as ∧ (w.run (w.script as)).Answered chain bs := by
  induction as generalizing w with
  | nil => exact ⟨fun h => ⟨trivial, h⟩, fun h => h.2⟩
  | cons r as ih => simp only [List.cons_append, Answered, script, run_append, ih, and_assoc]

/-- No action changes what the pool knows of its peers. -/
def Steady (w : World) : List Action → Prop
  | [] => True
  | a :: actions => (a.step w).node.pool.roster = w.node.pool.roster ∧ (a.step w).Steady actions

theorem steady_append {as bs : List Action} {w : World} :
    w.Steady (as ++ bs) ↔ w.Steady as ∧ (w.run as).Steady bs := by
  induction as generalizing w with
  | nil => exact ⟨fun h => ⟨trivial, h⟩, fun h => h.2⟩
  | cons a as ih => simp only [List.cons_append, Steady, ih, and_assoc]; rfl

theorem Steady.roster_eq {actions pre : List Action} {w : World} (h : w.Steady actions) (hpre : pre <+: actions) :
    (w.run pre).node.pool.roster = w.node.pool.roster := by
  obtain ⟨more, rfl⟩ := hpre
  induction pre generalizing w with
  | nil => rfl
  | cons a pre ih => exact (ih h.2).trans h.1

end World

/-! ## What is answered -/

section
variable {chain : List Block} {span : Nat} {peer : PeerId}

theorem blocksBehind_eq : ∀ {chain : List Block} {i : Nat} {b : Block}, (chain.map Block.hash).Nodup →
    chain[i]? = some b → blocksBehind chain b.hash = chain.drop (i + 1)
  | c :: chain, 0, b, _, hb => by
    obtain rfl : c = b := by simpa using hb
    simp [blocksBehind]
  | c :: chain, i + 1, b, hd, hb => by
    have hb : chain[i]? = some b := by simpa using hb
    rw [List.map_cons, List.nodup_cons] at hd
    have hne : c.hash ≠ b.hash := by
      intro heq
      exact hd.1 (heq ▸ List.mem_map_of_mem (List.mem_of_getElem? hb))
    have ih := blocksBehind_eq hd.2 hb
    unfold blocksBehind at ih ⊢
    rw [List.dropWhile_cons_of_pos (by simpa using hne), ih, List.drop_succ_cons]

theorem answers_behind (span : Nat) (peer : PeerId) {i : Nat} {b : Block} (hd : (chain.map Block.hash).Nodup)
    (hb : chain[i]? = some b) :
    (Message.getheaders (.behind b.hash)).answers chain span peer =
      [.headers peer (((chain.map Block.header).drop (i + 1)).take span)] := by
  show [Action.headers peer (((blocksBehind chain b.hash).take span).map Block.header)] = _
  rw [blocksBehind_eq hd hb, List.map_take, List.map_drop]

theorem exists_answer (span : Nat) (peer : PeerId) {hashes : List Hash} {b : Block} (hb : b ∈ chain)
    (hh : b.hash ∈ hashes) : ∃ c, c.hash = b.hash ∧
      .block peer c (Codec.encode c) ∈ (Message.getdata ⟨.block, hashes⟩).answers chain span peer := by
  obtain ⟨c, hc⟩ : ∃ c, chain.find? (·.hash = b.hash) = some c :=
    Option.isSome_iff_exists.1 (List.find?_isSome.2 ⟨b, hb, by simp⟩)
  refine ⟨c, by simpa using List.find?_some hc, List.mem_filterMap.2 ⟨b.hash, hh, ?_⟩⟩
  rw [hc]
  rfl

theorem of_mem_answers {m : Message} {a : Action} (ha : a ∈ m.answers chain span peer) :
    (∃ l hs, m = .getheaders l ∧ a = .headers peer hs) ∨ ∃ b ∈ chain, a = .block peer b (Codec.encode b) := by
  unfold Message.answers at ha
  split at ha
  · rename_i l
    split at ha
    · cases ha
    · exact Or.inl ⟨l, _, rfl, List.mem_singleton.1 ha⟩
  · obtain ⟨h, -, hf⟩ := List.mem_filterMap.1 ha
    obtain ⟨b, hb, rfl⟩ := Option.map_eq_some_iff.1 hf
    exact Or.inr ⟨b, List.mem_of_find?_eq_some hb, rfl⟩
  · cases ha

end

/-! ## Prompt rounds -/

def Round.prompt (chain : List Block) (w : World) : Round :=
  ⟨0, maxHeaders, (w.run [.wait 0, .tick]).node.pool.answers chain maxHeaders⟩

theorem Round.honest_prompt (chain : List Block) (w : World) : (Round.prompt chain w).Honest chain w := by
  refine ⟨⟨show 1 ≤ maxHeaders by decide, Nat.le_refl maxHeaders⟩, ?_⟩
  have hwaits : ∀ a ∈ (w.run [.wait 0, .tick]).node.pool.answers chain maxHeaders, (!a.isWait) = true := by
    intro a ha
    obtain ⟨x, -, hx⟩ := List.mem_flatMap.1 ha
    rcases of_mem_answers hx with ⟨l, hs, -, rfl⟩ | ⟨b, -, rfl⟩ <;> rfl
  rw [Round.prompt, List.filter_eq_self.2 hwaits]

namespace World

def prompts (chain : List Block) : Nat → World → List Round
  | 0, _ => []
  | k + 1, w => .prompt chain w :: prompts chain k (w.run ((Round.prompt chain w).actions w))

theorem length_prompts (chain : List Block) (k : Nat) (w : World) : (prompts chain k w).length = k := by
  induction k generalizing w with
  | zero => rfl
  | succ k ih => rw [prompts, List.length_cons, ih]

theorem answered_prompts (chain : List Block) (k : Nat) (w : World) : w.Answered chain (prompts chain k w) := by
  induction k generalizing w with
  | zero => trivial
  | succ k ih => exact ⟨Round.honest_prompt chain w, ih _⟩

end World

end ChainSync
