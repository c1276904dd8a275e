import ChainSync.Config.Basic
import ChainSync.Toml.Document
import ChainSync.Toml.Printer
import ChainSync.Toml.Section

/-!
# Configuration files

A file has to give the node a name and a chain. Everything else in it is
optional, and what it gives must be of the right kind.
-/

namespace ChainSync

open Toml

/-! ## Reading -/

def NetworkSection.ofSection? (s : Section) : Option NetworkSection := do
  let d := NetworkSection.default
  return {
    bindAddress := ← s.read 0 "bind_address" d.bindAddress Value.text?
    listen := ← s.read 1 "listen" d.listen Value.flag?
    magic := ← s.read 2 "magic" d.magic fun v => v.word?.map some
    seeds := ← s.read 3 "seed_list" d.seeds Value.texts?
    minClients := ← s.read 4 "min_clients" d.minClients Value.nat?
    maxClients := ← s.read 5 "max_clients" d.maxClients Value.nat?
    dialTimeoutSecs := ← s.read 6 "dial_timeout_secs" d.dialTimeoutSecs Value.nat?
    handshakeTimeoutSecs := ← s.read 7 "handshake_timeout_secs" d.handshakeTimeoutSecs Value.nat?
    readTimeoutSecs := ← s.read 8 "read_timeout_secs" d.readTimeoutSecs Value.nat?
    peerQueryIntervalSecs := ← s.read 9 "peer_query_interval_secs" d.peerQueryIntervalSecs Value.nat?
    poolCheckIntervalSecs := ← s.read 10 "pool_check_interval_secs" d.poolCheckIntervalSecs Value.nat?
    maxConcurrentDials := ← s.read 11 "max_concurrent_dials" d.maxConcurrentDials Value.nat?
    userAgent := ← s.read 12 "user_agent" d.userAgent fun v => v.text?.map some }

def SyncSection.ofSection? (s : Section) : Option SyncSection := do
  let d := SyncSection.default
  return {
    tickIntervalMs := ← s.read 0 "tick_interval_ms" d.tickIntervalMs Value.nat?
    headerLookAhead := ← s.read 1 "header_look_ahead" d.headerLookAhead fun v => v.word?.map (·.toNat)
    blockCacheCapacity := ← s.read 2 "block_cache_capacity" d.blockCacheCapacity Value.nat?
    blockRequestLimit := ← s.read 3 "block_request_limit" d.blockRequestLimit Value.nat?
    headerTimeoutSecs := ← s.read 4 "header_timeout_secs" d.headerTimeoutSecs Value.nat?
    blockTimeoutSecs := ← s.read 5 "block_timeout_secs" d.blockTimeoutSecs Value.nat? }

def ApiSection.ofSection? (s : Section) : Option ApiSection := do
  let d := ApiSection.default
  return {
    enabled := ← s.read 0 "enabled" d.enabled Value.flag?
    bindAddress := ← s.read 1 "bind_address" d.bindAddress Value.text?
    key := ← s.read 2 "api_key" d.key fun v => v.text?.map some }

namespace NodeConfig

/-- A section of the file, its default if the file has none. -/
def part {α : Type} (fields : Fields) (name : String) (absent : α)
    (ofSection? : Section → Option α) : Option α :=
  match Assoc.get? name fields with
  | none => some absent
  | some v => v.section?.bind ofSection?

def ofFields? (fields : Fields) : Option NodeConfig := do
  return {
    name := ← (Assoc.get? "node_name" fields).bind Value.text?
    chain := ← (Assoc.get? "chain" fields).bind Value.text?
    network := ← part fields "network" NetworkSection.default NetworkSection.ofSection?
    sync := ← part fields "sync" SyncSection.default SyncSection.ofSection?
    api := ← part fields "api" ApiSection.default ApiSection.ofSection? }

def ofFile (bs : Bytes) : Except ConfigError NodeConfig :=
  match Bytes.toString? bs with
  | none => .error .unreadable
  | some s =>
    match (Toml.parse? s).bind ofFields? with
    | none => .error .malformed
    | some c => .ok c

/-! ## Writing -/

def toFile (c : NodeConfig) : String :=
  let text := Printer.text
  let flag (b : Bool) := if b then "true" else "false"
  let nat (n : Nat) := toString n
  Printer.field "node_name" (text c.name) ++
  Printer.field "chain" (text c.chain) ++
  Printer.header "network" ++
  Printer.field "bind_address" (text c.network.bindAddress) ++
  Printer.field "listen" (flag c.network.listen) ++
  Printer.optional "magic" (c.network.magic.map fun m => nat m.toNat) ++
  Printer.field "seed_list" (Printer.array (c.network.seeds.map text)) ++
  Printer.field "min_clients" (nat c.network.minClients) ++
  Printer.field "max_clients" (nat c.network.maxClients) ++
  Printer.field "dial_timeout_secs" (nat c.network.dialTimeoutSecs) ++
  Printer.field "handshake_timeout_secs" (nat c.network.handshakeTimeoutSecs) ++
  Printer.field "read_timeout_secs" (nat c.network.readTimeoutSecs) ++
  Printer.field "peer_query_interval_secs" (nat c.network.peerQueryIntervalSecs) ++
  Printer.field "pool_check_interval_secs" (nat c.network.poolCheckIntervalSecs) ++
  Printer.field "max_concurrent_dials" (nat c.network.maxConcurrentDials) ++
  Printer.optional "user_agent" (c.network.userAgent.map text) ++
  Printer.header "sync" ++
  Printer.field "tick_interval_ms" (nat c.sync.tickIntervalMs) ++
  Printer.field "header_look_ahead" (nat c.sync.headerLookAhead) ++
  Printer.field "block_cache_capacity" (nat c.sync.blockCacheCapacity) ++
  Printer.field "block_request_limit" (nat c.sync.blockRequestLimit) ++
  Printer.field "header_timeout_secs" (nat c.sync.headerTimeoutSecs) ++
  Printer.field "block_timeout_secs" (nat c.sync.blockTimeoutSecs) ++
  Printer.header "api" ++
  Printer.field "enabled" (flag c.api.enabled) ++
  Printer.field "bind_address" (text c.api.bindAddress) ++
  Printer.optional "api_key" (c.api.key.map text)

end NodeConfig

end ChainSync
