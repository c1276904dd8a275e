import ChainSync.Json.Wire
import ChainSync.Sync.Basic

/-!
# Structured reports

How errors, requests, peers, the pool and the synchronizer are shown.
-/

namespace ChainSync.Json

/-! ## Results -/

def failure (kind message : String) : Json :=
  record [("error", text kind), ("message", text message)]

/-- Failures of the system below are shown by their kind alone. -/
instance : ToJson NetError where
  toJson e := failure e.kind (match e with
    | .io kind => kind
    | e => e.message)

instance : ToJson LedgerError := ⟨fun e => failure e.kind e.message⟩
instance : ToJson SyncError := ⟨fun e => failure e.kind e.message⟩
instance : ToJson Stop := ⟨fun s => toJson (NetError.ofStop s)⟩
instance : ToJson Unit := ⟨fun _ => text "ok"⟩

instance {ε α : Type} [ToJson ε] [ToJson α] : ToJson (Except ε α) where
  toJson
    | .ok a => toJson a
    | .error e => toJson e

instance : ToJson RelayResult := ⟨fun r => text r.name⟩

/-! ## Requests -/

/-- Peers that a report on a request covers. -/
def reportedPeers : List PeerId :=
  List.range 10

def ofFlight (now : Instant) (f : Flight) : Json :=
  record [("peer", toJson f.peer), ("height", toJson f.height), ("elapsed_us", toJson (f.elapsed now))]

def ofRequest (now : Instant) (r : Request) : Json :=
  record
    [("height", toJson r.height),
     ("count", toJson r.flights.length),
     ("flights", list ((reportedPeers.filterMap (r.flight? ·)).map (ofFlight now))),
     ("recent", toJson (r.recent?.map (ofFlight now))),
     ("failed", toJson ((reportedPeers.filter (r.hasFailed ·)).map fun p => [p, r.failures p])),
     ("failed_total", toJson r.failedTotal),
     ("last", toJson r.lastUsed)]

/-! ## Peers, pool and synchronizer -/

def ofPeer (now : Instant) (p : Peer) : Json :=
  record
    [("id", toJson p.id),
     ("addr", toJson p.addr),
     ("inbound", toJson p.inbound),
     ("state", text p.state.name),
     ("user_agent", toJson (p.remote.map (·.userAgent))),
     ("best_height", toJson p.bestHeight),
     ("weight", ofFinite (p.weight.value now)),
     ("error_count", toJson p.weight.errors),
     ("timeout_count", toJson p.weight.timeouts)]

instance : ToJson PoolStats where
  toJson s := record
    [("connected", toJson s.connected), ("queued", toJson s.queued), ("known", toJson s.known),
     ("bad", toJson s.bad), ("relay_pool", toJson s.relay)]

/-- Between two operations no pass of persisting is under way. -/
instance : ToJson SyncStatus where
  toJson s := record
    [("header_height", toJson s.headerHeight), ("block_height", toJson s.blockHeight),
     ("cache_len", toJson s.cacheSize), ("cache_capacity", toJson s.cacheCapacity),
     ("header_request_outstanding", toJson s.headerRequested),
     ("block_requests_outstanding", toJson s.blocksRequested), ("persisting", bool false)]

def ofPool (p : Pool) : Json :=
  record
    [("queued", toJson p.queuedAddresses), ("known", toJson p.knownAddresses),
     ("bad", toJson p.badAddresses), ("connected", toJson p.connectedAddresses),
     ("nodes", toJson p.count), ("relay", toJson p.relay.size)]

def ofSync (now : Instant) (n : Node) : Json :=
  record
    [("status", toJson n.status), ("tip", toJson (n.ledger.hashAt n.ledger.headerHeight)),
     ("header_request", toJson (n.sync.header.map (ofRequest now)))]

end ChainSync.Json
