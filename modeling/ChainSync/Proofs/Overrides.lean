import ChainSync.Config.Load
import ChainSync.Proofs.CommandLine

/-!
# Where each setting comes from

A setting is taken from the command line if an option for it is given there,
and else from its section of the file, which has a default for all that is
missing. The chain alone never comes from the file: where no option names
it, it is the main one.
-/

namespace ChainSync

open Toml

variable {α σ : Type}

/-! ## Settings in a file -/

structure Field (σ α : Type) where
  of : σ → α
  place : Nat
  name : String
  kind : Value → Option α

/-- What a file says about a field: its default where the section or the field is missing. -/
def Field.inFile (f : Field σ α) (part : String) (default : σ) (fields : Fields) : Option α :=
  match Assoc.get? part fields with
  | none => some (f.of default)
  | some v => v.section?.bind fun s => s.read f.place f.name (f.of default) f.kind

inductive NetworkSetting : Type → Type
  | bindAddress : NetworkSetting String
  | listen : NetworkSetting Bool
  | magic : NetworkSetting (Option UInt32)
  | seeds : NetworkSetting (List String)
  | minClients : NetworkSetting Nat
  | maxClients : NetworkSetting Nat
  | dialTimeoutSecs : NetworkSetting Nat
  | handshakeTimeoutSecs : NetworkSetting Nat
  | readTimeoutSecs : NetworkSetting Nat
  | peerQueryIntervalSecs : NetworkSetting Nat
  | poolCheckIntervalSecs : NetworkSetting Nat
  | maxConcurrentDials : NetworkSetting Nat
  | userAgent : NetworkSetting (Option String)

inductive SyncSetting : Type → Type
  | tickIntervalMs : SyncSetting Nat
  | headerLookAhead : SyncSetting Nat
  | blockCacheCapacity : SyncSetting Nat
  | blockRequestLimit : SyncSetting Nat
  | headerTimeoutSecs : SyncSetting Nat
  | blockTimeoutSecs : SyncSetting Nat

inductive ApiSetting : Type → Type
  | enabled : ApiSetting Bool
  | bindAddress : ApiSetting String
  | key : ApiSetting (Option String)

def NetworkSetting.field : NetworkSetting α → Field NetworkSection α
  | bindAddress => ⟨(·.bindAddress), 0, "bind_address", Value.text?⟩
  | listen => ⟨(·.listen), 1, "listen", Value.flag?⟩
  | magic => ⟨(·.magic), 2, "magic", fun v => v.word?.map some⟩
  | seeds => ⟨(·.seeds), 3, "seed_list", Value.texts?⟩
  | minClients => ⟨(·.minClients), 4, "min_clients", Value.nat?⟩
  | maxClients => ⟨(·.maxClients), 5, "max_clients", Value.nat?⟩
  | dialTimeoutSecs => ⟨(·.dialTimeoutSecs), 6, "dial_timeout_secs", Value.nat?⟩
  | handshakeTimeoutSecs => ⟨(·.handshakeTimeoutSecs), 7, "handshake_timeout_secs", Value.nat?⟩
  | readTimeoutSecs => ⟨(·.readTimeoutSecs), 8, "read_timeout_secs", Value.nat?⟩
  | peerQueryIntervalSecs => ⟨(·.peerQueryIntervalSecs), 9, "peer_query_interval_secs", Value.nat?⟩
  | poolCheckIntervalSecs => ⟨(·.poolCheckIntervalSecs), 10, "pool_check_interval_secs", Value.nat?⟩
  | maxConcurrentDials => ⟨(·.maxConcurrentDials), 11, "max_concurrent_dials", Value.nat?⟩
  | userAgent => ⟨(·.userAgent), 12, "user_agent", fun v => v.text?.map some⟩

def SyncSetting.field : SyncSetting α → Field SyncSection α
  | tickIntervalMs => ⟨(·.tickIntervalMs), 0, "tick_interval_ms", Value.nat?⟩
  | headerLookAhead => ⟨(·.headerLookAhead), 1, "header_look_ahead", fun v => v.word?.map (·.toNat)⟩
  | blockCacheCapacity => ⟨(·.blockCacheCapacity), 2, "block_cache_capacity", Value.nat?⟩
  | blockRequestLimit => ⟨(·.blockRequestLimit), 3, "block_request_limit", Value.nat?⟩
  | headerTimeoutSecs => ⟨(·.headerTimeoutSecs), 4, "header_timeout_secs", Value.nat?⟩
  | blockTimeoutSecs => ⟨(·.blockTimeoutSecs), 5, "block_timeout_secs", Value.nat?⟩

def ApiSetting.field : ApiSetting α → Field ApiSection α
  | enabled => ⟨(·.enabled), 0, "enabled", Value.flag?⟩
  | bindAddress => ⟨(·.bindAddress), 1, "bind_address", Value.text?⟩
  | key => ⟨(·.key), 2, "api_key", fun v => v.text?.map some⟩

inductive Setting : Type → Type 1
  | name : Setting String
  | chain : Setting String
  | network {α : Type} (s : NetworkSetting α) : Setting α
  | sync {α : Type} (s : SyncSetting α) : Setting α
  | api {α : Type} (s : ApiSetting α) : Setting α

namespace Setting

def isChain : Setting α → Bool
  | chain => true
  | _ => false

def of (c : NodeConfig) : Setting α → α
  | name => c.name
  | chain => c.chain
  | network s => s.field.of c.network
  | sync s => s.field.of c.sync
  | api s => s.field.of c.api

def inFile (fields : Fields) : Setting α → Option α
  | name => (Assoc.get? "node_name" fields).bind Value.text?
  | chain => (Assoc.get? "chain" fields).bind Value.text?
  | network s => s.field.inFile "network" .default fields
  | sync s => s.field.inFile "sync" .default fields
  | api s => s.field.inFile "api" .default fields

/-- The settings are all that there is to a configuration. -/
theorem eq_of_forall {c d : NodeConfig} (h : ∀ (α : Type) (s : Setting α), s.of c = s.of d) : c = d := by
  obtain ⟨name, chain, ⟨⟩, ⟨⟩, ⟨⟩⟩ := c
  obtain ⟨name', chain', ⟨⟩, ⟨⟩, ⟨⟩⟩ := d
  have hname : name = name' := h _ .name
  have hchain : chain = chain' := h _ .chain
  simp only [NodeConfig.mk.injEq, NetworkSection.mk.injEq, SyncSection.mk.injEq, ApiSection.mk.injEq]
  exact ⟨hname, hchain,
    ⟨h _ (.network .bindAddress), h _ (.network .listen), h _ (.network .magic), h _ (.network .seeds),
      h _ (.network .minClients), h _ (.network .maxClients), h _ (.network .dialTimeoutSecs),
      h _ (.network .handshakeTimeoutSecs), h _ (.network .readTimeoutSecs), h _ (.network .peerQueryIntervalSecs),
      h _ (.network .poolCheckIntervalSecs), h _ (.network .maxConcurrentDials), h _ (.network .userAgent)⟩,
    ⟨h _ (.sync .tickIntervalMs), h _ (.sync .headerLookAhead), h _ (.sync .blockCacheCapacity),
      h _ (.sync .blockRequestLimit), h _ (.sync .headerTimeoutSecs), h _ (.sync .blockTimeoutSecs)⟩,
    ⟨h _ (.api .enabled), h _ (.api .bindAddress), h _ (.api .key)⟩⟩

end Setting

/-! ## Reading a file -/

theorem NetworkSetting.read_of_section {s : Section} {n : NetworkSection} (h : NetworkSection.ofSection? s = some n)
    (f : NetworkSetting α) :
    s.read f.field.place f.field.name (f.field.of .default) f.field.kind = some (f.field.of n) := by
  unfold NetworkSection.ofSection? at h
  iterate 13 obtain ⟨_, _, h⟩ := Option.bind_eq_some_iff.1 h
  cases h
  cases f <;> assumption

theorem SyncSetting.read_of_section {s : Section} {n : SyncSection} (h : SyncSection.ofSection? s = some n)
    (f : SyncSetting α) :
    s.read f.field.place f.field.name (f.field.of .default) f.field.kind = some (f.field.of n) := by
  unfold SyncSection.ofSection? at h
  iterate 6 obtain ⟨_, _, h⟩ := Option.bind_eq_some_iff.1 h
  cases h
  cases f <;> assumption

theorem ApiSetting.read_of_section {s : Section} {a : ApiSection} (h : ApiSection.ofSection? s = some a)
    (f : ApiSetting α) :
    s.read f.field.place f.field.name (f.field.of .default) f.field.kind = some (f.field.of a) := by
  unfold ApiSection.ofSection? at h
  iterate 3 obtain ⟨_, _, h⟩ := Option.bind_eq_some_iff.1 h
  cases h
  cases f <;> assumption

theorem Field.inFile_of_part {f : Field σ α} {part : String} {default x : σ} {fields : Fields}
    {ofSection? : Section → Option σ} (h : NodeConfig.part fields part default ofSection? = some x)
    (hread : ∀ s, ofSection? s = some x → s.read f.place f.name (f.of default) f.kind = some (f.of x)) :
    f.inFile part default fields = some (f.of x) := by
  unfold NodeConfig.part at h
  unfold Field.inFile
  cases hpart : Assoc.get? part fields with
  | none =>
    rw [hpart] at h
    cases h
    rfl
  | some v =>
    rw [hpart] at h
    obtain ⟨s, hs, hx⟩ := Option.bind_eq_some_iff.1 h
    simp only [hs, Option.bind_some]
    exact hread s hx

theorem Setting.inFile_of_fields {fields : Fields} {c : NodeConfig} (h : NodeConfig.ofFields? fields = some c)
    (s : Setting α) : s.inFile fields = some (s.of c) := by
  unfold NodeConfig.ofFields? at h
  simp only [Option.bind_eq_bind, Option.bind_eq_some_iff, Option.pure_def, Option.some.injEq] at h
  obtain ⟨_, hname, _, hchain, _, hnetwork, _, hsync, _, hapi, rfl⟩ := h
  cases s with
  | name => exact Option.bind_eq_some_iff.2 hname
  | chain => exact Option.bind_eq_some_iff.2 hchain
  | network s => exact Field.inFile_of_part hnetwork fun _ h => s.read_of_section h
  | sync s => exact Field.inFile_of_part hsync fun _ h => s.read_of_section h
  | api s => exact Field.inFile_of_part hapi fun _ h => s.read_of_section h

def HoldsFields (bs : Bytes) (fields : Fields) : Prop :=
  ∃ text, Bytes.toString? bs = some text ∧ Toml.parse? text = some fields

theorem NodeConfig.fields_of_file {bs : Bytes} {c : NodeConfig} (h : ofFile bs = .ok c) :
    ∃ fields, HoldsFields bs fields ∧ ofFields? fields = some c := by
  unfold ofFile at h
  split at h
  · cases h
  · rename_i text htext
    split at h
    · cases h
    · rename_i c' hc
      cases h
      obtain ⟨fields, hfields, hc⟩ := Option.bind_eq_some_iff.1 hc
      exact ⟨fields, ⟨text, htext, hfields⟩, hc⟩

/-! ## Options on a command line -/

def Options.valuesOf (f : Flag) (given : List (Flag × String)) : List String :=
  (given.filter (·.1 = f)).map (·.2)

def Setting.Given (given : List (Flag × String)) : Setting α → α → Prop
  | chain, v => (.network, v) ∈ given
  | network .bindAddress, v => (.p2pBind, v) ∈ given
  | network .seeds, v => v = Options.valuesOf .seed given ∧ v ≠ []
  | api .bindAddress, v => (.apiBind, v) ∈ given
  | api .enabled, v => v = false ∧ ∃ w, (.noApi, w) ∈ given
  | _, _ => False

namespace Options

variable {f : Flag} {given : List (Flag × String)} {v : String}

theorem Accepted.value?_eq (h : Accepted given) (hf : f ≠ .seed) (hv : (f, v) ∈ given) :
    (⟨given, none⟩ : Given).value? f = some v := by
  obtain ⟨init, tail, rfl⟩ := List.append_of_mem hv
  have hinit : init.find? (·.1 = f) = none := by
    refine List.find?_eq_none.2 fun a ha heq => hf ?_
    exact (List.pairwise_append.1 h.once).2.2 a ha (f, v) (List.mem_cons_self ..) (by simpa using heq)
  simp [Given.value?, List.find?_append, hinit]

theorem value?_eq_none_iff : (⟨given, none⟩ : Given).value? f = none ↔ ∀ v, (f, v) ∉ given := by
  simp only [Given.value?, Option.map_eq_none_iff, List.find?_eq_none, decide_eq_true_eq]
  constructor
  · exact fun h v hv => h (f, v) hv rfl
  · rintro h ⟨g, v⟩ hv rfl
    exact h v hv

theorem has_iff : (⟨given, none⟩ : Given).has f = true ↔ ∃ v, (f, v) ∈ given := by
  simp only [Given.has, List.any_eq_true, decide_eq_true_eq]
  constructor
  · rintro ⟨⟨g, v⟩, hv, rfl⟩
    exact ⟨v, hv⟩
  · rintro ⟨v, hv⟩
    exact ⟨(f, v), hv, rfl⟩

end Options

/-! ## Precedence -/

namespace NodeConfig

open Options (Accepted ofGiven)

variable {c : NodeConfig} {given : List (Flag × String)} {s : Setting α} {v : α}

theorem of_override_of_given (haccepted : Accepted given) (h : s.Given given v) :
    s.of (c.override (ofGiven ⟨given, none⟩)) = v := by
  have hvalue : ∀ {f : Flag} {v : String}, f ≠ .seed → (f, v) ∈ given →
      (⟨given, none⟩ : Options.Given).value? f = some v := haccepted.value?_eq
  cases s with
  | name | sync => exact h.elim
  | chain => exact congrArg (Option.getD · "mainnet") (hvalue (by decide) h)
  | network s =>
    cases s with
    | bindAddress => exact congrArg (Option.getD · c.network.bindAddress) (hvalue (by decide) h)
    | seeds =>
      obtain ⟨rfl, hseeds⟩ := h
      exact if_neg fun hnil => hseeds (List.isEmpty_iff.1 hnil)
    | _ => exact h.elim
  | api s =>
    cases s with
    | enabled =>
      obtain ⟨rfl, hnoApi⟩ := h
      have hhas : (⟨given, none⟩ : Options.Given).has .noApi = true := Options.has_iff.2 hnoApi
      show (c.api.enabled && !(⟨given, none⟩ : Options.Given).has .noApi) = false
      rw [hhas]
      exact Bool.and_false _
    | bindAddress => exact congrArg (Option.getD · c.api.bindAddress) (hvalue (by decide) h)
    | key => exact h.elim

theorem of_override_of_not_given (h : ∀ v, ¬s.Given given v) (hchain : s.isChain = false) :
    s.of (c.override (ofGiven ⟨given, none⟩)) = s.of c := by
  have hnone : ∀ {f : Flag}, (∀ v, (f, v) ∉ given) → (⟨given, none⟩ : Options.Given).value? f = none :=
    Options.value?_eq_none_iff.2
  cases s with
  | name | sync => rfl
  | chain => cases hchain
  | network s =>
    cases s with
    | bindAddress => exact congrArg (Option.getD · c.network.bindAddress) (hnone h)
    | seeds =>
      refine if_pos (List.isEmpty_iff.2 ?_)
      by_contra hseeds
      exact h _ ⟨rfl, hseeds⟩
    | _ => rfl
  | api s =>
    cases s with
    | enabled =>
      have hhas : (⟨given, none⟩ : Options.Given).has .noApi = false :=
        Bool.eq_false_iff.2 fun hhas => h false ⟨rfl, Options.has_iff.1 hhas⟩
      show (c.api.enabled && !(⟨given, none⟩ : Options.Given).has .noApi) = _
      rw [hhas]
      exact Bool.and_true _
    | bindAddress => exact congrArg (Option.getD · c.api.bindAddress) (hnone h)
    | key => rfl

/-- **Where each setting in force comes from.** With a file and a line that are both accepted there is a configuration
in force. What an option on the line sets is as the option says; all else but the chain is as the file says, or as its
section has it by default; and the chain is the main one if no option names it. -/
theorem load_settings {bs : Bytes} (hfile : ofFile bs = .ok c) {line : List String} {o : Options}
    (hline : Options.parse line = .ok o) :
    (∃ given, Options.Spells line given) ∧ ∀ given, Options.Spells line given →
      ∃ fields c', HoldsFields bs fields ∧ load (some bs) o = .ok c' ∧
        (∀ (α : Type) (s : Setting α) v, s.Given given v → s.of c' = v) ∧
        (∀ (α : Type) (s : Setting α), (∀ v, ¬s.Given given v) → s.isChain = false →
          s.inFile fields = some (s.of c')) ∧
        ((∀ v, ¬Setting.chain.Given given v) → c'.chain = "mainnet") ∧
        c'.magic = c'.network.magic.getD (if c'.chain = "testnet" then testnetMagic else mainnetMagic) := by
  obtain ⟨given, hspells, haccepted, rfl⟩ := Options.parse_eq_ok_iff.1 hline
  refine ⟨⟨given, hspells⟩, fun other hother => ?_⟩
  obtain rfl := hspells.unique hline hother
  obtain ⟨fields, hholds, hfields⟩ := fields_of_file hfile
  have hload : load (some bs) (ofGiven ⟨given, none⟩) = .ok (c.override (ofGiven ⟨given, none⟩)) := by
    unfold load
    simp only [hfile]
    rfl
  refine ⟨fields, _, hholds, hload, fun α s v hgiven => of_override_of_given haccepted hgiven,
    fun α s hnot hchain => ?_, fun hnot => ?_, ?_⟩
  · rw [of_override_of_not_given hnot hchain]
    exact s.inFile_of_fields hfields
  · exact congrArg (Option.getD · "mainnet") (Options.value?_eq_none_iff.2 hnot)
  · unfold magic
    cases (c.override (ofGiven ⟨given, none⟩)).network.magic <;> rfl

end NodeConfig

/-! ## A file for the other chain -/

namespace Scripted

def edgeFile : Bytes :=
  Bytes.ofString "node_name = \"edge\"\nchain = \"testnet\"\n[network]\nmin_clients = 2\n"

def edgeConfig : NodeConfig :=
  { NodeConfig.ofChain "testnet" with
    name := "edge"
    network := { NetworkSection.default with minClients := 2 } }

def edgeLine : List String :=
  ["--network", "testnet", "--p2p-bind=127.0.0.1:20333"]

def edgeGiven : List (Flag × String) :=
  [(.network, "testnet"), (.p2pBind, "127.0.0.1:20333")]

theorem ofFile_edgeFile : NodeConfig.ofFile edgeFile = .ok edgeConfig := by
  decide +kernel

theorem spells_edgeLine : Options.Spells edgeLine edgeGiven := by
  have hnetwork : Flag.ofLong? "network" = some .network := rfl
  have hp2pBind : Flag.ofLong? "p2p-bind" = some .p2pBind := rfl
  have hchain : Options.Spelling (.network, "testnet") ["--network", "testnet"] :=
    .apart (Options.names_of_long hnetwork rfl) rfl (by simp [Options.IsValue])
  have haddress : Options.Spelling (.p2pBind, "127.0.0.1:20333") ["--p2p-bind" ++ "=" ++ "127.0.0.1:20333"] :=
    .equals _ (Options.names_of_long hp2pBind rfl) rfl
  exact .option hchain (.option haddress .nothing)

theorem parse_edgeLine : Options.parse edgeLine = .ok (Options.ofGiven ⟨edgeGiven, none⟩) := by
  decide +kernel

end Scripted

open Scripted in
/-- The chain and the address are the line's, the number of peers and whether the interface is on are the file's. -/
theorem NodeConfig.load_settings_edge :
    ∃ fields c', HoldsFields edgeFile fields ∧ load (some edgeFile) (Options.ofGiven ⟨edgeGiven, none⟩) = .ok c' ∧
      c'.chain = "testnet" ∧ c'.network.bindAddress = "127.0.0.1:20333" ∧
      (Setting.network .minClients).inFile fields = some c'.network.minClients ∧
      (Setting.api .enabled).inFile fields = some c'.api.enabled ∧ c'.magic = c'.network.magic.getD testnetMagic := by
  obtain ⟨-, hload⟩ := NodeConfig.load_settings ofFile_edgeFile parse_edgeLine
  obtain ⟨fields, c', hholds, hc', hgiven, hfile, -, hmagic⟩ := hload edgeGiven spells_edgeLine
  have hchain : c'.chain = "testnet" := hgiven _ .chain "testnet" (by simp [Setting.Given, edgeGiven])
  refine ⟨fields, c', hholds, hc', hchain, ?_, ?_, ?_, ?_⟩
  · exact hgiven _ (.network .bindAddress) _ (by simp [Setting.Given, edgeGiven])
  · exact hfile _ (.network .minClients) (fun _ h => h) rfl
  · exact hfile _ (.api .enabled) (by simp [Setting.Given, edgeGiven]) rfl
  · rw [hmagic, if_pos hchain]

open Scripted in
/-- Nothing on the line names a chain, and still the file's is not in force. -/
theorem NodeConfig.chain_not_from_file :
    ∃ fields c', HoldsFields edgeFile fields ∧ ofFile edgeFile = .ok edgeConfig ∧
      Options.parse [] = .ok (Options.ofGiven ⟨[], none⟩) ∧ Options.Spells [] [] ∧
      load (some edgeFile) (Options.ofGiven ⟨[], none⟩) = .ok c' ∧ (∀ v, ¬Setting.chain.Given [] v) ∧
      Setting.chain.inFile fields = some "testnet" ∧ c'.chain = "mainnet" ∧ c'.magic = mainnetMagic ∧
      edgeConfig.magic = testnetMagic := by
  obtain ⟨fields, hholds, hfields⟩ := fields_of_file ofFile_edgeFile
  have hload : load (some edgeFile) (Options.ofGiven ⟨[], none⟩) =
      .ok (edgeConfig.override (Options.ofGiven ⟨[], none⟩)) := by
    unfold load
    simp only [ofFile_edgeFile]
    rfl
  exact ⟨fields, _, hholds, ofFile_edgeFile, rfl, .nothing, hload, fun _ => List.not_mem_nil,
    Setting.chain.inFile_of_fields hfields, rfl, rfl, rfl⟩

end ChainSync
