import ChainSync.Config.Load
import ChainSync.Node.Service

/-!
# Running a node

A runner holds a configured node and runs its services: the API, then the
pool and the synchronizer, until shutdown. The services can run only once;
one that fails takes the others down with it.
-/

namespace ChainSync

inductive RunError
  | apiAddress (text : String)
  | apiListen (addr : SocketAddress)
  | poolFailed
  | syncFailed
deriving DecidableEq

def RunError.message : RunError → String
  | apiAddress text => s!"Invalid API bind address {text}"
  | apiListen addr => s!"Failed to bind API on {addr.toText}"
  | poolFailed => "node manager failed"
  | syncFailed => "sync manager failed"

structure Runner where
  config : NodeConfig
  service : Service

namespace Runner

/-- A node at the start of the chain. The pool's settings are judged first. -/
def ofConfig [Digest] (c : NodeConfig) : Except ConfigError Runner := do
  let pool ← c.poolConfig
  let sync ← c.syncConfig
  return ⟨c, .ofNode (.fresh (.ofGenesis genesisBlock) pool 0 sync)⟩

def cancelled (r : Runner) : Bool :=
  r.service.stopped

/-- Where the API listens, if it is served. -/
def apiAddress (r : Runner) : Except RunError (Option SocketAddress) :=
  if ¬ r.config.api.enabled then .ok none
  else
    match SocketAddress.ofText? r.config.api.bindAddress with
    | some addr => .ok (some addr)
    | none => .error (.apiAddress r.config.api.bindAddress)

/-- Whether two listeners get in each other's way. -/
def collide (a b : SocketAddress) : Bool :=
  a.port = b.port && a.port ≠ 0 && (a.ip = b.ip || a.ip.isUnspecified || b.ip.isUnspecified)

/-- Starts the services and lets them do what they can do at once; `canListen` tells the addresses
of this machine. -/
def start [Digest] (canListen : SocketAddress → Bool) (r : Runner) : Except RunError Runner := do
  let api ← r.apiAddress
  if let some addr := api then
    if !canListen addr then throw (.apiListen addr)
  let service ← r.service.startPool.mapError fun _ => .poolFailed
  if let some addr := service.node.pool.config.bindAddress then
    if !canListen addr || api.any (collide addr) then throw .poolFailed
  let service ← service.startSync.mapError fun _ => .syncFailed
  return { r with service := service.settle }

def stop (r : Runner) : Runner :=
  { r with service := r.service.stop }

/-- Runs the services until shutdown, which comes in the end. Nothing is stopped if not even the API
could be started. -/
def run [Digest] (canListen : SocketAddress → Bool) (r : Runner) : Runner × Except RunError Unit :=
  match r.start canListen with
  | .ok r => (r.stop, .ok ())
  | .error (.apiAddress text) => (r, .error (.apiAddress text))
  | .error (.apiListen addr) => (r, .error (.apiListen addr))
  | .error e => (r.stop, .error e)

end Runner

end ChainSync
