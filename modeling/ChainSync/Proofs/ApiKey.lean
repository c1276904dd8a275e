import ChainSync.Api.Service
import ChainSync.Hash.Sha256

/-!
# What a request can do without the key

Only one kind of request gets to the node: one posted to a mutating endpoint,
with a body that can be read, which shows the key if there is one. Without the
key such an endpoint refuses, and how it refuses says nothing of the node.
-/

namespace ChainSync.Api

/-! ## The key in a request -/

/-- The first `api_key` header is not there, or not visible throughout, or says something other than the key. -/
def Request.Lacks (key : String) (r : Request) : Prop :=
  r.header? "api_key" = none ∨
    ∃ s, r.header? "api_key" = some s ∧ ((∃ c ∈ s.toList, isVisible c = false) ∨ s ≠ key)

theorem Request.headerText?_eq_some_iff {name s : String} {r : Request} :
    r.headerText? name = some s ↔ r.header? name = some s ∧ ∀ c ∈ s.toList, isVisible c = true := by
  rw [headerText?, Option.filter_eq_some_iff, List.all_eq_true]

theorem Request.Lacks.headerText?_ne {key : String} {r : Request} (h : r.Lacks key) :
    r.headerText? "api_key" ≠ some key := by
  rw [ne_eq, headerText?_eq_some_iff]
  rintro ⟨hheader, hvisible⟩
  rcases h with hnone | ⟨s, hs, ⟨c, hc, hdark⟩ | hne⟩
  · rw [hnone] at hheader
    cases hheader
  · obtain rfl := Option.some.inj (hs.symm.trans hheader)
    rw [hvisible c hc] at hdark
    cases hdark
  · exact hne (Option.some.inj (hs.symm.trans hheader))

theorem ApiConfig.not_admits_of_lacks {config : ApiConfig} {key : String} {r : Request} (hkey : config.key = some key)
    (h : r.Lacks key) : config.admits r = false := by
  rw [admits, hkey]
  exact decide_eq_false h.headerText?_ne

/-! ## Refusals -/

/-- How a mutating endpoint refuses a request that it does not admit: for its body first. -/
def refusal (e : Endpoint) (r : Request) : Reply :=
  match field e r with
  | .error reply => reply
  | .ok _ => ApiError.unauthorized.reply

theorem status_of_field {e : Endpoint} {r : Request} {reply : Reply} (h : field e r = .error reply) :
    400 ≤ reply.status := by
  unfold field at h
  split at h
  · cases h
    decide
  · split at h
    · cases h
      decide
    · split at h
      · cases h
      · cases h
        decide
      · cases h
        decide

theorem status_refusal (e : Endpoint) (r : Request) : 400 ≤ (refusal e r).status := by
  unfold refusal
  split
  · exact status_of_field ‹_›
  · decide

section
variable [Digest] {config : ApiConfig} {e : Endpoint} {r : Request}

theorem change_of_not_admits (h : config.admits r = false) (now : Instant) (n : Node) :
    change config now e r n = (n, refusal e r) := by
  unfold change refusal
  cases field e r with
  | error reply => rfl
  | ok text => rw [h]; rfl

/-! ## All that a request can do -/

/-- A request leaves the node as it is, or it was posted to a mutating endpoint, its body could be read, it was
admitted, and it does what that endpoint does with the field of its body. -/
theorem node_respond_cases (config : ApiConfig) (now : Instant) (r : Request) (n : Node) :
    (respond config now r n).1 = n ∨
      ∃ e text, r.method = "POST" ∧ Endpoint.ofPath? r.path = some e ∧ e.isMutating = true ∧
        field e r = .ok text ∧ config.admits r = true ∧ (respond config now r n).1 = (act now e text n).1 := by
  unfold respond
  split
  · exact Or.inl rfl
  cases hpath : Endpoint.ofPath? r.path with
  | none => exact Or.inl rfl
  | some e =>
    dsimp only
    split
    · split
      · cases hadmits : config.admits r with
        | false => exact Or.inl (congrArg Prod.fst (change_of_not_admits hadmits now n))
        | true =>
          cases hfield : field e r with
          | error reply => exact Or.inl (by rw [change, hfield])
          | ok text =>
            exact Or.inr ⟨e, text, ‹_›, rfl, ‹_›, hfield, rfl, by rw [change, hfield]; simp [hadmits]⟩
      · exact Or.inl rfl
    · split
      · exact Or.inl rfl
      · split
        · exact Or.inl rfl
        · exact Or.inl rfl

theorem reply_of_not_admits (h : config.admits r = false) (hpath : Endpoint.ofPath? r.path = some e)
    (he : e.isMutating = true) (now : Instant) (n : Node) :
    (respond config now r n).2 =
      if r.method = "OPTIONS" then .plain 200 else if r.method = "POST" then refusal e r else .plain 405 := by
  unfold respond
  split
  · rfl
  · rw [hpath]
    dsimp only
    rw [if_pos he]
    split
    · rw [change_of_not_admits h]
    · rfl

theorem respond_of_admits (h : config.admits r = true) (now : Instant) (n : Node) :
    respond config now r n = respond { config with key := none } now r n := by
  have hchange : ∀ e, change config now e r n = change { config with key := none } now e r n := by
    intro e
    unfold change
    rw [h]
    rfl
  unfold respond
  simp only [hchange]
  rfl

/-- Where a key is set, a request without it leaves the node as it is, on whatever path. A mutating endpoint refuses
it, and answers the same whatever the node and the time; only preflight requests, which no endpoint gets to see,
succeed on its path. With or without the key, a request that is not posted, reading ones among them, leaves the node
as it is. -/
theorem nothing_changes_without_key (config : ApiConfig) (now : Instant) (r : Request) (n : Node) :
    (∀ key, config.key = some key → r.Lacks key →
      (respond config now r n).1 = n ∧
        ∀ e, Endpoint.ofPath? r.path = some e → e.isMutating = true →
          (r.method ≠ "OPTIONS" → 400 ≤ (respond config now r n).2.status) ∧
            ∀ now' n', (respond config now' r n').2 = (respond config now r n).2) ∧
      (r.method ≠ "POST" → (respond config now r n).1 = n) := by
  constructor
  · intro key hkey hlacks
    have hdenied : config.admits r = false := ApiConfig.not_admits_of_lacks hkey hlacks
    refine ⟨?_, fun e hpath he => ⟨fun hmethod => ?_, fun now' n' => ?_⟩⟩
    · rcases node_respond_cases config now r n with hn | ⟨e, text, -, -, -, -, hadmits, -⟩
      · exact hn
      · rw [hdenied] at hadmits
        cases hadmits
    · rw [reply_of_not_admits hdenied hpath he, if_neg hmethod]
      split
      · exact status_refusal e r
      · decide
    · rw [reply_of_not_admits hdenied hpath he, reply_of_not_admits hdenied hpath he]
  · intro hmethod
    rcases node_respond_cases config now r n with hn | ⟨e, text, hpost, -⟩
    · exact hn
    · exact absurd hpost hmethod

end

/-- The key stands in the second header of its name, and the body is in order. -/
theorem nothing_changes_without_key_second :
    let config : ApiConfig := ⟨"edge", some "secret"⟩
    let headers := [("content-type", "application/json"), ("API_KEY", "other"), ("api_key", "secret")]
    let r : Request := ⟨"POST", "/transactions", headers, "[\"00\"]"⟩
    let n : Node := .fresh (.ofGenesis default) .default 1 .default
    let shut : Node := { n with relayOpen := false }
    (field .submitTransaction r).toOption = some "00" ∧ r.Lacks "secret" ∧ (respond config 0 r n).1 = n ∧
      400 ≤ (respond config 0 r n).2.status ∧ (respond config 7 r shut).2 = (respond config 0 r n).2 ∧
      (respond config 0 { r with method := "GET" } n).1 = n := by
  intro config headers r n shut
  have hfield : (field .submitTransaction r).toOption = some "00" := by decide +kernel
  have hheader : r.header? "api_key" = some "other" := by decide +kernel
  have hlacks : r.Lacks "secret" := Or.inr ⟨"other", hheader, Or.inr (by decide)⟩
  have hpath : Endpoint.ofPath? r.path = some .submitTransaction := by decide +kernel
  obtain ⟨hnode, hreply⟩ := (nothing_changes_without_key config 0 r n).1 "secret" rfl hlacks
  obtain ⟨hstatus, hsame⟩ := hreply _ hpath rfl
  have hget := (nothing_changes_without_key config 0 { r with method := "GET" } n).2 (by decide)
  exact ⟨hfield, hlacks, hnode, hstatus (by decide), hsame 7 shut, hget⟩

end ChainSync.Api
