import ChainSync.Program.Options
import Mathlib.Data.List.Induction
import Mathlib.Data.List.TakeWhile

/-!
# What a command line gives

A line that is accepted is a sequence of options, each written in one of a
few ways (`Spelling`). The options that come of it are those that the line
spells, in order, and it is accepted exactly when these go together
(`Accepted`).
-/

namespace ChainSync

/-! ## Names -/

namespace Flag

inductive Names : Flag → String → Prop
  | long {f : Flag} {name : String} (h : ofLong? name = some f) : Names f ("--" ++ name)
  | short {f : Flag} {c : Char} (h : ofShort? c = some f) : Names f ("-" ++ String.singleton c)

variable {f : Flag} {name : String} {c : Char}

theorem of_ofLong? (h : ofLong? name = some f) : name ≠ "" ∧ ∀ x ∈ name.toList, x ≠ '=' := by
  unfold ofLong? at h
  split at h <;> cases h <;> simp

theorem ofShort?_ne (h : ofShort? c = some f) : c ≠ '-' := by
  rintro rfl
  cases h

theorem of_ofShort? (h : ofShort? c = some f) (hf : f.takesValue = false) : f = .help ∨ f = .version := by
  unfold ofShort? at h
  split at h
  · cases h
    cases hf
  · cases h
    cases hf
  · exact .inl (Option.some.inj h).symm
  · exact .inr (Option.some.inj h).symm
  · cases h

end Flag

namespace Options

variable {f : Flag} {value : Option String} {g g' : Given} {w v : String} {rest : List String} {cs : List Char}
  {settled : List (Flag × String)}

theorem bind_eq_ok {ε α β : Type} {x : Except ε α} {k : α → Except ε β} {b : β} :
    (x >>= k) = .ok b ↔ ∃ a, x = .ok a ∧ k a = .ok b := by
  cases x with
  | error e =>
    constructor
    · nofun
    · rintro ⟨a, h, -⟩
      cases h
  | ok a =>
    constructor
    · exact fun h => ⟨a, rfl, h⟩
    · rintro ⟨a', h, h'⟩
      cases h
      exact h'

/-! ## Settling -/

theorem settle_eq_ok_iff : g.settle f value = .ok g' ↔ f ≠ .help ∧ f ≠ .version ∧
    (f.takesValue = true → value ≠ none) ∧ (g.has f = true → f = .seed) ∧ ¬(f = .config ∧ value = some "") ∧
      g' = { g with settled := g.settled ++ [(f, value.getD "")] } := by
  unfold Given.settle
  split
  · simp
  · simp
  · rename_i hhelp hversion
    split
    · rename_i h
      simp only [Bool.and_eq_true, Option.isNone_iff_eq_none] at h
      simp [h.1, h.2]
    · rename_i hvalue
      simp only [Bool.and_eq_true, Option.isNone_iff_eq_none, not_and] at hvalue
      split
      · rename_i h
        simp only [Bool.and_eq_true, ne_eq, decide_eq_true_eq] at h
        simp [h.1, h.2]
      · rename_i honce
        split
        · rename_i h
          simp only [Bool.and_eq_true, decide_eq_true_eq] at h
          simp [h]
        · rename_i hpath
          simp only [Bool.and_eq_true, decide_eq_true_eq] at hpath
          have honce' : g.has f = true → f = .seed := by simpa using honce
          constructor
          · intro h
            exact ⟨hhelp, hversion, hvalue, honce', hpath, (Except.ok.inj h).symm⟩
          · rintro ⟨-, -, -, -, -, rfl⟩
            rfl

theorem waiting_of_settle (h : g.settle f value = .ok g') : g'.waiting = g.waiting := by
  rw [(settle_eq_ok_iff.1 h).2.2.2.2.2]

theorem waiting_of_complete (h : g.complete = .ok g') : g'.waiting = none := by
  unfold Given.complete at h
  cases hw : g.waiting with
  | none =>
    rw [hw] at h
    cases h
    exact hw
  | some x =>
    rw [hw] at h
    exact waiting_of_settle h

theorem complete_of_waiting (h : g.waiting = none) : g.complete = .ok g := by
  unfold Given.complete
  rw [h]

theorem complete_of_complete (h : g.complete = .ok g') : g'.complete = .ok g' :=
  complete_of_waiting (waiting_of_complete h)

/-- What begins is read as if what waited before had been settled. -/
theorem begin_eq_ok_iff : g.begin f value = .ok g' ↔ ∃ g₁, g.complete = .ok g₁ ∧ g₁.begin f value = .ok g' := by
  unfold Given.begin
  rw [bind_eq_ok]
  constructor
  · rintro ⟨g₁, hg₁, h⟩
    refine ⟨g₁, hg₁, ?_⟩
    rw [complete_of_complete hg₁]
    exact h
  · rintro ⟨g₁, hg₁, h⟩
    rw [complete_of_complete hg₁] at h
    exact ⟨g₁, hg₁, h⟩

def attached (cs : List Char) : Option String :=
  match cs.dropWhile (· ≠ '=') with
  | _ :: value => some (String.ofList value)
  | [] => none

theorem attached_cases (cs : List Char) : attached cs = none ∧ cs.takeWhile (· ≠ '=') = cs ∨
    ∃ value, attached cs = some value ∧ cs = cs.takeWhile (· ≠ '=') ++ '=' :: value.toList := by
  have hsplit := List.takeWhile_append_dropWhile (p := (· ≠ '=')) (l := cs)
  have hhead := List.head?_dropWhile_not (· ≠ '=') cs
  unfold attached
  cases hvalue : cs.dropWhile (· ≠ '=') with
  | nil =>
    rw [hvalue, List.append_nil] at hsplit
    exact .inl ⟨rfl, hsplit⟩
  | cons x value =>
    rw [hvalue] at hsplit hhead
    obtain rfl : x = '=' := by simpa using hhead
    refine .inr ⟨String.ofList value, rfl, ?_⟩
    rw [String.toList_ofList]
    exact hsplit.symm

theorem long_eq (cs : List Char) (g : Given) : long cs g =
    match Flag.ofLong? (String.ofList (cs.takeWhile (· ≠ '='))) with
    | none => .error .unknownArgument
    | some f => if !f.takesValue && (attached cs).isSome then .error .tooManyValues else g.begin f (attached cs) :=
  rfl

theorem long_eq_ok_iff : long cs g = .ok g' ↔ ∃ g₁, g.complete = .ok g₁ ∧ long cs g₁ = .ok g' := by
  simp only [long_eq]
  split
  · simp
  · split
    · simp
    · exact begin_eq_ok_iff

theorem short_eq_ok_iff {c : Char} :
    short (c :: cs) g = .ok g' ↔ ∃ g₁, g.complete = .ok g₁ ∧ short (c :: cs) g₁ = .ok g' := by
  unfold short
  split
  · simp
  · split
    · split <;> exact begin_eq_ok_iff
    · simp only [bind_eq_ok]
      constructor
      · rintro ⟨g₂, h, hrest⟩
        obtain ⟨g₁, hg₁, hbegin⟩ := begin_eq_ok_iff.1 h
        exact ⟨g₁, hg₁, g₂, hbegin, hrest⟩
      · rintro ⟨g₁, hg₁, g₂, hbegin, hrest⟩
        exact ⟨g₂, begin_eq_ok_iff.2 ⟨g₁, hg₁, hbegin⟩, hrest⟩

/-! ## Words -/

/-- Whether a word is taken for the value of an option that waits for one. -/
def IsValue (w : String) : Prop :=
  ∀ c cs, w.toList ≠ '-' :: c :: cs

theorem words_long (h : w.toList = '-' :: '-' :: cs) (hcs : cs ≠ []) :
    words (w :: rest) g = (long cs g >>= words rest) := by
  obtain ⟨c, cs, rfl⟩ := List.exists_cons_of_ne_nil hcs
  simp only [words, h]

theorem words_short {c : Char} (h : w.toList = '-' :: c :: cs) (hc : c ≠ '-') :
    words (w :: rest) g = (short (c :: cs) g >>= words rest) := by
  rw [words, h]
  split
  · rename_i heq
    cases heq
    exact absurd rfl hc
  · rename_i heq
    cases heq
    exact absurd rfl hc
  · rename_i heq
    cases heq
    rfl
  · rename_i hnot
    exact absurd rfl (hnot c cs)

theorem words_value (h : IsValue w) : words (w :: rest) g = (g.takeWord w >>= words rest) := by
  rw [words]
  split
  · rename_i heq
    exact absurd heq (h _ _)
  · rename_i heq
    exact absurd heq (h _ _)
  · rename_i heq
    exact absurd heq (h _ _)
  · rfl

theorem word_cases (w : String) : w = "--" ∨ (∃ cs, w.toList = '-' :: '-' :: cs ∧ cs ≠ []) ∨
    (∃ c cs, w.toList = '-' :: c :: cs ∧ c ≠ '-') ∨ IsValue w := by
  by_cases h : ∃ c cs, w.toList = '-' :: c :: cs
  · obtain ⟨c, cs, h⟩ := h
    by_cases hc : c = '-'
    · subst hc
      cases cs with
      | nil => exact .inl (String.toList_inj.1 h)
      | cons d ds => exact .inr (.inl ⟨_, h, List.cons_ne_nil d ds⟩)
    · exact .inr (.inr (.inl ⟨c, cs, h, hc⟩))
  · exact .inr (.inr (.inr fun c cs heq => h ⟨c, cs, heq⟩))

theorem words_end : words ("--" :: rest) g = if rest.isEmpty then g.complete else .error .unknownArgument := rfl

/-- Once an option has its value, the rest of the line is read as if it had been settled. -/
theorem words_eq_ok_iff (hready : ∀ f, g.waiting ≠ some (f, none)) :
    words rest g = .ok g' ↔ ∃ g₁, g.complete = .ok g₁ ∧ words rest g₁ = .ok g' := by
  have hend : g.complete = .ok g' ↔ ∃ g₁, g.complete = .ok g₁ ∧ g₁.complete = .ok g' := by
    constructor
    · exact fun h => ⟨g', h, complete_of_complete h⟩
    · rintro ⟨g₁, h, h'⟩
      cases h'.symm.trans (complete_of_complete h)
      exact h
  -- an option that begins settles what waits by itself
  have hbegin : ∀ {read : Given → Except OptionsStop Given} {tail : List String},
      (∀ {g g'}, read g = .ok g' ↔ ∃ g₁, g.complete = .ok g₁ ∧ read g₁ = .ok g') →
        ((read g >>= words tail) = .ok g' ↔ ∃ g₁, g.complete = .ok g₁ ∧ (read g₁ >>= words tail) = .ok g') := by
    intro read tail hread
    simp only [bind_eq_ok]
    constructor
    · rintro ⟨g₂, h, h'⟩
      obtain ⟨g₁, hg₁, h₁⟩ := hread.1 h
      exact ⟨g₁, hg₁, g₂, h₁, h'⟩
    · rintro ⟨g₁, hg₁, g₂, h₁, h'⟩
      exact ⟨g₂, hread.2 ⟨g₁, hg₁, h₁⟩, h'⟩
  cases rest with
  | nil => exact hend
  | cons w rest =>
    rcases word_cases w with rfl | ⟨cs, hw, hcs⟩ | ⟨c, cs, hw, hc⟩ | hw
    · simp only [words_end]
      split
      · exact hend
      · simp
    · simp only [words_long hw hcs]
      exact hbegin long_eq_ok_iff
    · simp only [words_short hw hc]
      exact hbegin short_eq_ok_iff
    · simp only [words_value hw, bind_eq_ok]
      -- nothing waits for this word, before or after
      constructor
      · rintro ⟨g₂, h, -⟩
        unfold Given.takeWord at h
        split at h
        · rename_i f hf
          exact absurd hf (hready f)
        · cases h
      · rintro ⟨g₁, hg₁, g₂, h, -⟩
        unfold Given.takeWord at h
        rw [waiting_of_complete hg₁] at h
        cases h

/-! ## Spellings -/

inductive Spelling : Flag × String → List String → Prop
  | switch {f : Flag} {w : String} (hname : f.Names w) (hf : f.takesValue = false) : Spelling (f, "") [w]
  | apart {f : Flag} {w v : String} (hname : f.Names w) (hf : f.takesValue = true) (hv : IsValue v) :
    Spelling (f, v) [w, v]
  | equals {f : Flag} {w : String} (v : String) (hname : f.Names w) (hf : f.takesValue = true) :
    Spelling (f, v) [w ++ "=" ++ v]
  | joined {f : Flag} {c : Char} {v : String} (hname : Flag.ofShort? c = some f) (hf : f.takesValue = true)
    (hv : v ≠ "") (heq : v.toList.head? ≠ some '=') : Spelling (f, v) ["-" ++ String.singleton c ++ v]

inductive Spells : List String → List (Flag × String) → Prop
  | nothing : Spells [] []
  | dashes : Spells ["--"] []
  | option {e : Flag × String} {ws rest : List String} {more : List (Flag × String)} (he : Spelling e ws)
    (hrest : Spells rest more) : Spells (ws ++ rest) (e :: more)

def Given.put (e : Flag × String) (g : Given) : Except OptionsStop Given :=
  g.settle e.1 (if e.1.takesValue then some e.2 else none)

theorem words_waiting :
    words rest ⟨settled, some (f, some v)⟩ = .ok g' ↔
      ∃ g₁, (⟨settled, none⟩ : Given).settle f (some v) = .ok g₁ ∧ words rest g₁ = .ok g' :=
  words_eq_ok_iff (by simp)

section
variable (hf : f.takesValue = true)
include hf

theorem begin_none : (⟨settled, none⟩ : Given).begin f none = .ok ⟨settled, some (f, none)⟩ := by
  simp only [Given.begin, Given.complete, hf]
  rfl

theorem begin_some : (⟨settled, none⟩ : Given).begin f (some v) = (⟨settled, none⟩ : Given).settle f (some v) := by
  simp only [Given.begin, Given.complete, hf]
  rfl

end

theorem begin_switch (hf : f.takesValue = false) :
    (⟨settled, none⟩ : Given).begin f none = (⟨settled, none⟩ : Given).settle f none := by
  simp only [Given.begin, Given.complete, hf]
  rfl

theorem long_name {name : String} (h : Flag.ofLong? name = some f) : long name.toList g = g.begin f none := by
  have hname := (Flag.of_ofLong? h).2
  have htake : name.toList.takeWhile (· ≠ '=') = name.toList :=
    List.takeWhile_eq_self_iff.2 fun x hx => by simpa using hname x hx
  have hdrop : name.toList.dropWhile (· ≠ '=') = [] :=
    List.dropWhile_eq_nil_iff.2 fun x hx => by simpa using hname x hx
  rw [long_eq, attached, htake, hdrop, String.ofList_toList, h]
  simp

theorem long_equals {name : String} (h : Flag.ofLong? name = some f) (hf : f.takesValue = true) :
    long (name.toList ++ '=' :: v.toList) g = g.begin f (some v) := by
  have hname := (Flag.of_ofLong? h).2
  have htake : (name.toList ++ '=' :: v.toList).takeWhile (· ≠ '=') = name.toList := by
    rw [List.takeWhile_append_of_pos fun x hx => by simpa using hname x hx]
    simp
  have hdrop : (name.toList ++ '=' :: v.toList).dropWhile (· ≠ '=') = '=' :: v.toList := by
    rw [List.dropWhile_append_of_pos fun x hx => by simpa using hname x hx]
    simp
  rw [long_eq, attached, htake, hdrop, String.ofList_toList, h]
  simp [hf]

theorem words_named (hname : f.Names w) : words (w :: rest) g = (g.begin f none >>= words rest) := by
  cases hname with
  | @long name h =>
    have hne : name.toList ≠ [] := fun heq => (Flag.of_ofLong? h).1 (String.toList_eq_nil_iff.1 heq)
    rw [words_long (by simp) hne, long_name h]
  | @short c h =>
    have hword : ("-" ++ String.singleton c).toList = ['-', c] := by simp
    rw [words_short hword (Flag.ofShort?_ne h), short, h]
    dsimp only
    split
    · rfl
    · cases g.begin f none <;> rfl

theorem words_equals (hname : f.Names w) (hf : f.takesValue = true) :
    words ((w ++ "=" ++ v) :: rest) g = (g.begin f (some v) >>= words rest) := by
  cases hname with
  | @long name h =>
    have hword : ("--" ++ name ++ "=" ++ v).toList = '-' :: '-' :: (name.toList ++ '=' :: v.toList) := by simp
    rw [words_long hword (by simp), long_equals h hf]
  | @short c h =>
    have hword : ("-" ++ String.singleton c ++ "=" ++ v).toList = '-' :: c :: '=' :: v.toList := by simp
    rw [words_short hword (Flag.ofShort?_ne h), short, h]
    simp [hf]

theorem words_joined {c : Char} (hname : Flag.ofShort? c = some f) (hf : f.takesValue = true) (hv : v ≠ "")
    (heq : v.toList.head? ≠ some '=') :
    words (("-" ++ String.singleton c ++ v) :: rest) g = (g.begin f (some v) >>= words rest) := by
  have hword : ("-" ++ String.singleton c ++ v).toList = '-' :: c :: v.toList := by simp
  rw [words_short hword (Flag.ofShort?_ne hname), short, hname]
  simp only [hf, ite_true]
  split
  · rename_i hnil
    exact absurd (String.toList_eq_nil_iff.1 hnil) hv
  · rename_i value hvalue
    rw [hvalue] at heq
    exact absurd rfl heq
  · rw [String.ofList_toList]

theorem Spelling.words_eq_ok_iff {e : Flag × String} {ws : List String} (h : Spelling e ws) :
    words (ws ++ rest) ⟨settled, none⟩ = .ok g' ↔
      ∃ g₁, (⟨settled, none⟩ : Given).put e = .ok g₁ ∧ words rest g₁ = .ok g' := by
  unfold Given.put
  cases h with
  | switch hname hf =>
    rw [List.singleton_append, words_named hname, begin_switch hf, bind_eq_ok]
    simp [hf]
  | @apart f w v hname hf hv =>
    rw [List.cons_append, List.singleton_append, words_named hname, begin_none hf]
    show words (v :: rest) ⟨settled, some (f, none)⟩ = .ok g' ↔ _
    rw [words_value hv]
    show words rest ⟨settled, some (f, some v)⟩ = .ok g' ↔ _
    rw [words_waiting]
    simp [hf]
  | equals v hname hf =>
    rw [List.singleton_append, words_equals hname hf, begin_some hf, bind_eq_ok]
    simp [hf]
  | joined hname hf hv heq =>
    rw [List.singleton_append, words_joined hname hf hv heq, begin_some hf, bind_eq_ok]
    simp [hf]

/-! ## Lines -/

theorem value_of_awaited (hf : f.takesValue = true) (h : words rest ⟨settled, some (f, none)⟩ = .ok g') :
    ∃ v tail, rest = v :: tail ∧ IsValue v := by
  have hstop : ∀ g₁, (⟨settled, some (f, none)⟩ : Given).complete ≠ .ok g₁ := by
    intro g₁ h
    exact (settle_eq_ok_iff.1 h).2.2.1 hf rfl
  cases rest with
  | nil => exact absurd h (hstop g')
  | cons w rest =>
    rcases word_cases w with rfl | ⟨cs, hw, hcs⟩ | ⟨c, cs, hw, hc⟩ | hw
    · rw [words_end] at h
      split at h
      · exact absurd h (hstop g')
      · cases h
    · rw [words_long hw hcs, bind_eq_ok] at h
      obtain ⟨g₂, h, -⟩ := h
      obtain ⟨g₁, h, -⟩ := long_eq_ok_iff.1 h
      exact absurd h (hstop g₁)
    · rw [words_short hw hc, bind_eq_ok] at h
      obtain ⟨g₂, h, -⟩ := h
      obtain ⟨g₁, h, -⟩ := short_eq_ok_iff.1 h
      exact absurd h (hstop g₁)
    · exact ⟨w, rest, rfl, hw⟩

theorem names_of_long {name : String} (h : Flag.ofLong? name = some f) (hw : w.toList = '-' :: '-' :: name.toList) :
    f.Names w := by
  obtain rfl : w = "--" ++ name := String.toList_inj.1 (by simp [hw])
  exact .long h

theorem names_of_short {c : Char} (h : Flag.ofShort? c = some f) (hw : w.toList = ['-', c]) : f.Names w := by
  obtain rfl : w = "-" ++ String.singleton c := String.toList_inj.1 (by simp [hw])
  exact .short h

theorem exists_spelling_of_named (hname : f.Names w) (h : words (w :: rest) ⟨settled, none⟩ = .ok g') :
    ∃ e ws tail, w :: rest = ws ++ tail ∧ Spelling e ws := by
  by_cases hf : f.takesValue = true
  · rw [words_named hname, begin_none hf] at h
    obtain ⟨v, tail, rfl, hv⟩ := value_of_awaited hf h
    exact ⟨_, _, tail, rfl, .apart hname hf hv⟩
  · exact ⟨_, _, rest, rfl, .switch hname (by simpa using hf)⟩

theorem exists_spelling_of_long (hw : w.toList = '-' :: '-' :: cs) (hcs : cs ≠ [])
    (h : words (w :: rest) ⟨settled, none⟩ = .ok g') : ∃ e ws tail, w :: rest = ws ++ tail ∧ Spelling e ws := by
  have hlong := h
  rw [words_long hw hcs, bind_eq_ok] at hlong
  obtain ⟨g₁, hlong, -⟩ := hlong
  rw [long_eq] at hlong
  cases hname : Flag.ofLong? (String.ofList (cs.takeWhile (· ≠ '='))) with
  | none =>
    rw [hname] at hlong
    cases hlong
  | some f =>
    rw [hname] at hlong
    rcases attached_cases cs with ⟨-, hall⟩ | ⟨value, hvalue, hcut⟩
    · rw [hall] at hname
      exact exists_spelling_of_named (names_of_long hname (by simpa using hw)) h
    · have hf : f.takesValue = true := by
        refine Bool.of_not_eq_false fun hf => ?_
        simp [hvalue, hf] at hlong
      have hword : w = "--" ++ String.ofList (cs.takeWhile (· ≠ '=')) ++ "=" ++ value := by
        refine String.toList_inj.1 (hw.trans ?_)
        simp only [String.toList_append, String.toList_ofList, List.append_assoc]
        exact congrArg (['-', '-'] ++ ·) hcut
      refine ⟨(f, value), [w], rest, rfl, ?_⟩
      rw [hword]
      exact .equals value (.long hname) hf

theorem exists_spelling_of_short {c : Char} (hw : w.toList = '-' :: c :: cs) (hc : c ≠ '-')
    (h : words (w :: rest) ⟨settled, none⟩ = .ok g') : ∃ e ws tail, w :: rest = ws ++ tail ∧ Spelling e ws := by
  have hshort := h
  rw [words_short hw hc, bind_eq_ok] at hshort
  obtain ⟨g₁, hshort, -⟩ := hshort
  unfold short at hshort
  cases hname : Flag.ofShort? c with
  | none =>
    rw [hname] at hshort
    cases hshort
  | some f =>
    rw [hname] at hshort
    dsimp only at hshort
    by_cases hf : f.takesValue = true
    · cases cs with
      | nil => exact exists_spelling_of_named (names_of_short hname hw) h
      | cons x value =>
        by_cases hx : x = '='
        · have hword : w = "-" ++ String.singleton c ++ "=" ++ String.ofList value :=
            String.toList_inj.1 (by simp [hw, hx])
          refine ⟨(f, String.ofList value), [w], rest, rfl, ?_⟩
          rw [hword]
          exact .equals _ (.short hname) hf
        · have hword : w = "-" ++ String.singleton c ++ String.ofList (x :: value) :=
            String.toList_inj.1 (by simp [hw])
          refine ⟨(f, String.ofList (x :: value)), [w], rest, rfl, ?_⟩
          rw [hword]
          exact .joined hname hf (by simp) (by simpa using hx)
    · -- the only such letters ask for help or for the version
      rw [if_neg hf, bind_eq_ok] at hshort
      obtain ⟨g₂, hbegin, -⟩ := hshort
      rw [begin_switch (by simpa using hf)] at hbegin
      obtain ⟨hhelp, hversion, -⟩ := settle_eq_ok_iff.1 hbegin
      rcases Flag.of_ofShort? hname (by simpa using hf) with rfl | rfl
      · exact absurd rfl hhelp
      · exact absurd rfl hversion

theorem exists_spelling (h : words (w :: rest) ⟨settled, none⟩ = .ok g') :
    w = "--" ∧ rest = [] ∨ ∃ e ws tail, w :: rest = ws ++ tail ∧ Spelling e ws := by
  rcases word_cases w with rfl | ⟨cs, hw, hcs⟩ | ⟨c, cs, hw, hc⟩ | hw
  · rw [words_end] at h
    split at h
    · rename_i hrest
      exact .inl ⟨rfl, List.isEmpty_iff.1 hrest⟩
    · cases h
  · exact .inr (exists_spelling_of_long hw hcs h)
  · exact .inr (exists_spelling_of_short hw hc h)
  · rw [words_value hw] at h
    cases h

/-! ## What goes together -/

structure Accepted (given : List (Flag × String)) : Prop where
  noRequest : ∀ e ∈ given, e.1 ≠ .help ∧ e.1 ≠ .version
  once : given.Pairwise fun a b => a.1 = b.1 → b.1 = .seed
  path : (.config, "") ∉ given

variable {e : Flag × String} {ws line : List String} {given more : List (Flag × String)}

theorem Spelling.plain (h : Spelling e ws) : e.1.takesValue = false → e.2 = "" := by
  cases h with
  | switch => exact fun _ => rfl
  | apart _ hf | equals _ _ hf | joined _ hf => exact fun h => absurd (hf.symm.trans h) (by decide)

theorem Spelling.words_ne_nil (h : Spelling e ws) : ws ≠ [] := by
  cases h <;> exact List.cons_ne_nil _ _

theorem Spells.plain (h : Spells line given) : ∀ e ∈ given, e.1.takesValue = false → e.2 = "" := by
  induction h with
  | nothing | dashes => nofun
  | option he _ ih =>
    intro x hx
    rcases List.mem_cons.1 hx with rfl | hx
    · exact he.plain
    · exact ih x hx

theorem put_eq_ok_iff (hplain : e.1.takesValue = false → e.2 = "") :
    (⟨settled, none⟩ : Given).put e = .ok g' ↔ (e.1 ≠ .help ∧ e.1 ≠ .version) ∧
      (∀ a ∈ settled, a.1 = e.1 → e.1 = .seed) ∧ e ≠ (.config, "") ∧ g' = ⟨settled ++ [e], none⟩ := by
  obtain ⟨f, v⟩ := e
  have hhas : (Given.has f ⟨settled, none⟩ = true → f = .seed) ↔ ∀ a ∈ settled, a.1 = f → f = .seed := by
    simp only [Given.has, List.any_eq_true, decide_eq_true_eq, forall_exists_index, and_imp]
  unfold Given.put
  rw [settle_eq_ok_iff, hhas]
  by_cases hf : f.takesValue = true
  · simp [hf, and_assoc]
  · obtain rfl : v = "" := hplain (by simpa using hf)
    have hpath : f ≠ .config := by
      rintro rfl
      exact hf rfl
    simp [hf, hpath, and_assoc]

theorem accepted_append : Accepted (given ++ [e]) ↔ Accepted given ∧ (e.1 ≠ .help ∧ e.1 ≠ .version) ∧
    (∀ a ∈ given, a.1 = e.1 → e.1 = .seed) ∧ e ≠ (.config, "") := by
  constructor
  · rintro ⟨hrequest, honce, hpath⟩
    rw [List.pairwise_append] at honce
    simp only [List.mem_append, List.mem_singleton, not_or] at hrequest hpath
    exact ⟨⟨fun x hx => hrequest x (.inl hx), honce.1, hpath.1⟩, hrequest e (.inr rfl),
      fun a ha => honce.2.2 a ha e (List.mem_singleton_self e), fun h => hpath.2 h.symm⟩
  · rintro ⟨⟨hrequest, honce, hpath⟩, hrequest', honce', hpath'⟩
    constructor
    case noRequest =>
      intro x hx
      rcases List.mem_append.1 hx with hx | hx
      · exact hrequest x hx
      · exact List.mem_singleton.1 hx ▸ hrequest'
    case once =>
      refine List.pairwise_append.2 ⟨honce, List.pairwise_singleton _ _, fun a ha b hb => ?_⟩
      exact List.mem_singleton.1 hb ▸ honce' a ha
    case path =>
      intro hx
      rcases List.mem_append.1 hx with hx | hx
      · exact hpath hx
      · exact hpath' (List.mem_singleton.1 hx).symm

def Given.putAll (given : List (Flag × String)) (g : Given) : Except OptionsStop Given :=
  given.foldlM (fun g e => g.put e) g

theorem putAll_eq_ok_iff (hplain : ∀ e ∈ given, e.1.takesValue = false → e.2 = "") :
    (⟨[], none⟩ : Given).putAll given = .ok g' ↔ Accepted given ∧ g' = ⟨given, none⟩ := by
  induction given using List.reverseRecOn generalizing g' with
  | nil =>
    constructor
    · intro h
      cases h
      exact ⟨⟨nofun, .nil, nofun⟩, rfl⟩
    · rintro ⟨-, rfl⟩
      rfl
  | append_singleton given e ih =>
    have ih' : ∀ g, (⟨[], none⟩ : Given).putAll given = .ok g ↔ Accepted given ∧ g = ⟨given, none⟩ :=
      fun _ => ih fun x hx => hplain x (List.mem_append_left _ hx)
    have he := hplain e (List.mem_append_right _ (List.mem_singleton_self e))
    have hlast : (⟨[], none⟩ : Given).putAll (given ++ [e]) = .ok g' ↔
        ∃ g₁, (⟨[], none⟩ : Given).putAll given = .ok g₁ ∧ g₁.put e = .ok g' := by
      unfold Given.putAll
      rw [List.foldlM_append, bind_eq_ok]
      simp
    rw [hlast, accepted_append]
    constructor
    · rintro ⟨g₁, hinit, hput⟩
      obtain ⟨hgiven, rfl⟩ := (ih' g₁).1 hinit
      obtain ⟨hrequest, honce, hpath, rfl⟩ := (put_eq_ok_iff he).1 hput
      exact ⟨⟨hgiven, hrequest, honce, hpath⟩, rfl⟩
    · rintro ⟨⟨hgiven, hrequest, honce, hpath⟩, rfl⟩
      exact ⟨⟨given, none⟩, (ih' _).2 ⟨hgiven, rfl⟩, (put_eq_ok_iff he).2 ⟨hrequest, honce, hpath, rfl⟩⟩

/-! ## Accepted lines -/

theorem Spells.words_eq_ok_iff (h : Spells line given) (settled : List (Flag × String)) :
    words line ⟨settled, none⟩ = .ok g' ↔ (⟨settled, none⟩ : Given).putAll given = .ok g' := by
  induction h generalizing settled with
  | nothing | dashes => exact Iff.rfl
  | option he _ ih =>
    have hcons : ∀ e more, (⟨settled, none⟩ : Given).putAll (e :: more) =
        ((⟨settled, none⟩ : Given).put e >>= Given.putAll more) := fun _ _ => List.foldlM_cons
    rw [he.words_eq_ok_iff, hcons, bind_eq_ok]
    refine exists_congr fun g₁ => and_congr_right fun hput => ?_
    obtain ⟨-, -, -, rfl⟩ := (put_eq_ok_iff he.plain).1 hput
    exact ih _

theorem exists_spells (settled : List (Flag × String)) (g' : Given) (line : List String)
    (h : words line ⟨settled, none⟩ = .ok g') : ∃ given, Spells line given := by
  match line, h with
  | [], _ => exact ⟨[], .nothing⟩
  | w :: rest, h =>
    rcases exists_spelling h with ⟨rfl, rfl⟩ | ⟨e, ws, tail, hline, he⟩
    · exact ⟨[], .dashes⟩
    · have hshorter : tail.length < (w :: rest).length := by
        rw [hline, List.length_append]
        have := List.length_pos_iff.2 he.words_ne_nil
        omega
      rw [hline] at h ⊢
      obtain ⟨g₁, hput, h⟩ := he.words_eq_ok_iff.1 h
      obtain ⟨-, -, -, rfl⟩ := (put_eq_ok_iff he.plain).1 hput
      obtain ⟨more, hmore⟩ := exists_spells _ g' tail h
      exact ⟨e :: more, .option he hmore⟩
termination_by line.length
decreasing_by exact hshorter

/-- **Which lines are accepted, and what comes of them.** -/
theorem parse_eq_ok_iff {o : Options} :
    parse line = .ok o ↔ ∃ given, Spells line given ∧ Accepted given ∧ o = ofGiven ⟨given, none⟩ := by
  have hparse : parse line = .ok o ↔ ∃ g, words line ⟨[], none⟩ = .ok g ∧ o = ofGiven g := by
    unfold parse
    cases words line ⟨[], none⟩ with
    | error e => simp [Except.map]
    | ok g =>
      simp only [Except.map, Except.ok.injEq, exists_eq_left']
      exact eq_comm
  rw [hparse]
  constructor
  · rintro ⟨g, hwords, rfl⟩
    obtain ⟨given, hspells⟩ := exists_spells [] g line hwords
    obtain ⟨haccepted, rfl⟩ := (putAll_eq_ok_iff hspells.plain).1 ((hspells.words_eq_ok_iff []).1 hwords)
    exact ⟨given, hspells, haccepted, rfl⟩
  · rintro ⟨given, hspells, haccepted, rfl⟩
    exact ⟨⟨given, none⟩,
      (hspells.words_eq_ok_iff []).2 ((putAll_eq_ok_iff hspells.plain).2 ⟨haccepted, rfl⟩), rfl⟩

theorem Spells.unique {o : Options} (ho : parse line = .ok o) (h : Spells line given) (h' : Spells line more) :
    given = more := by
  unfold parse at ho
  cases hwords : words line ⟨[], none⟩ with
  | error e =>
    rw [hwords] at ho
    cases ho
  | ok g =>
    have hgiven := ((putAll_eq_ok_iff h.plain).1 ((h.words_eq_ok_iff []).1 hwords)).2
    have hmore := ((putAll_eq_ok_iff h'.plain).1 ((h'.words_eq_ok_iff []).1 hwords)).2
    exact congrArg Given.settled (hgiven.symm.trans hmore)

end Options

end ChainSync
