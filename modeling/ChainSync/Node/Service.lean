import ChainSync.Net.AddressText
import ChainSync.Sync.Persist

/-!
# Services

A node at work: the pool's service and the synchronizer's service each
serve an inbox of events and their timers until shutdown. Whatever can be
done at the present instant is done by `settle`; `advance` lets time pass.
-/

namespace ChainSync

/-- A service runs at most once. -/
inductive Phase
  | idle
  | running
  | ended
deriving DecidableEq, Inhabited

def poolInboxCapacity : Nat := 1000

def syncInboxCapacity : Nat := 1024

/-- How late a timer may be before it counts as having missed ticks. -/
def tickTolerance : Duration := .ofMillis 5

/-- A timer that is set. Of timers due at the same instant the one set first fires first. -/
structure Timer where
  due : Instant
  /-- The place of this setting among all settings. -/
  turn : Nat
deriving DecidableEq, Inhabited

def Timer.isBefore (a b : Timer) : Bool :=
  a.due < b.due || (a.due == b.due && a.turn < b.turn)

/-- A timer that catches up, after `ticks` ticks of it. -/
def Timer.afterTicks (t : Timer) (ticks : Nat) (period : Duration) (turn : Nat) : Timer :=
  if ticks = 0 then t else ⟨t.due + ticks * period, turn⟩

structure Service where
  node : Node
  now : Instant
  pool : Phase
  sync : Phase
  poolInbox : List PoolEvent
  syncInbox : List SyncEvent
  /-- When peers are next asked for addresses. -/
  query : Timer
  /-- When the pool is next checked. -/
  check : Timer
  /-- When the synchronizer next takes a round. -/
  tick : Timer
  /-- How many settings of a timer there were. -/
  turns : Nat
  stopped : Bool

namespace Service

def ofNode (node : Node) : Service where
  node
  now := 0
  pool := .idle
  sync := .idle
  poolInbox := []
  syncInbox := []
  query := ⟨0, 0⟩
  check := ⟨0, 0⟩
  tick := ⟨0, 0⟩
  turns := 0
  stopped := false

/-- Whether the tasks of a peer were told to stop, by themselves or with everything else. -/
def isCancelled (s : Service) (p : Peer) : Bool :=
  p.cancelled || s.stopped

/-! ## Inboxes -/

/-- Puts an event into the pool's inbox; refused when full, and once the service has ended. -/
def pushPool (event : PoolEvent) (s : Service) : Service × Bool :=
  if s.pool = .ended || poolInboxCapacity ≤ s.poolInbox.length then (s, false)
  else ({ s with poolInbox := s.poolInbox ++ [event] }, true)

/-- Puts an event into the synchronizer's inbox; refused when full, and once the service has ended. -/
def pushSync (event : SyncEvent) (s : Service) : Service × Bool :=
  if s.sync = .ended || syncInboxCapacity ≤ s.syncInbox.length then (s, false)
  else ({ s with syncInbox := s.syncInbox ++ [event] }, true)

/-! ## Timers -/

/-- How many ticks of a timer that catches up are due, when the next was at `next`. -/
def dueTicks (now next : Instant) (period : Duration) : Nat :=
  if now < next then 0 else (now - next) / max period 1 + 1

/-- When a timer that skips missed ticks fires again, having fired now for the tick at `due`. -/
def nextAfter (now due : Instant) (period : Duration) : Instant :=
  if due + tickTolerance < now then now + period - (now - due) % max period 1 else due + period

def repeatFn {α : Type} (f : α → α) : Nat → α → α
  | 0, x => x
  | n + 1, x => repeatFn f n (f x)

variable [Digest]

/-- The pool's timers, each tick that is due. A timer needs a period, and without one neither runs. -/
def firePool (s : Service) : Service :=
  let config := s.node.pool.config
  if s.pool ≠ .running || config.queryInterval = 0 || config.checkInterval = 0 then s
  else
    let queries := dueTicks s.now s.query.due config.queryInterval
    let checks := dueTicks s.now s.check.due config.checkInterval
    let pool := repeatFn (·.queryPeers s.now) queries s.node.pool
    let pool := repeatFn Pool.check checks pool
    { s with
      node := s.node.setPool pool
      query := s.query.afterTicks queries config.queryInterval s.turns
      check := s.check.afterTicks checks config.checkInterval (s.turns + 1)
      turns := s.turns + 2 }

def round (s : Service) : Service :=
  { s with
    node := (s.node.tick s.now).persistIfReady
    tick := ⟨nextAfter s.now s.tick.due s.node.sync.config.tickInterval, s.turns⟩
    turns := s.turns + 1 }

/-- The synchronizer's rounds that are due, at most `n`. -/
def rounds : Nat → Service → Service
  | 0, s => s
  | n + 1, s => if s.now < s.tick.due then s else rounds n s.round

/-- The synchronizer's timer. Past the tolerance ticks are skipped, so few rounds can be due. -/
def fireSync (s : Service) : Service :=
  if s.sync ≠ .running then s
  else rounds (tickTolerance / max s.node.sync.config.tickInterval 1 + 2) s

/-- All timers, from the one that is first. -/
def fire (s : Service) : Service :=
  if s.tick.isBefore s.query && s.tick.isBefore s.check then s.fireSync.firePool
  else s.firePool.fireSync

/-! ## Inboxes and dials -/

def handleInboxes (s : Service) : Service :=
  let node := if s.pool = .running then
      s.poolInbox.foldl (fun n e => n.handlePoolEvent s.now e) s.node else s.node
  let node := if s.sync = .running then
      s.syncInbox.foldl (fun n e => n.handleSyncEvent s.now e) node else node
  { s with
    node
    poolInbox := if s.pool = .running then [] else s.poolInbox
    syncInbox := if s.sync = .running then [] else s.syncInbox }

/-- Ends every dial as failed, which is how each ends where there is no network. -/
def failDials (s : Service) : Service :=
  if s.pool ≠ .running then s
  else
    let pool := s.node.pool.jobs.foldl
      (fun pool job => pool.finishDial s.now job (.error .connectionClosed)) s.node.pool
    { s with node := s.node.setPool pool }

/-- Everything the running services can do at this instant. -/
def settle (s : Service) : Service :=
  s.fire.handleInboxes.failDials

/-! ## Life cycle -/

def alreadyRunning (what : String) : String :=
  s!"{what} already running"

/-- Starts the pool's service: the seeds are taken in, then its timers run. -/
def startPool (s : Service) : Except NetError Service :=
  if s.pool ≠ .idle then .error (.service (alreadyRunning "node manager"))
  else
    let seeds := SocketAddress.ofSeeds s.node.pool.config.seeds defaultPort
    .ok
      { s with
        pool := .running
        node := s.node.setPool (s.node.pool.addAddresses seeds).1
        query := ⟨s.now, s.turns⟩
        check := ⟨s.now, s.turns + 1⟩
        turns := s.turns + 2 }

def startSync (s : Service) : Except SyncError Service :=
  if s.sync ≠ .idle then .error (.internal (alreadyRunning "sync manager"))
  else .ok { s with sync := .running, tick := ⟨s.now, s.turns⟩, turns := s.turns + 1 }

/-- Asks for shutdown. A running pool hangs up on all its peers, and both services end. -/
def stop (s : Service) : Service :=
  { s with
    stopped := true
    node := if s.pool = .running then s.node.setPool s.node.pool.disconnectAll else s.node
    pool := if s.pool = .running then .ended else s.pool
    sync := if s.sync = .running then .ended else s.sync
    poolInbox := if s.pool = .running then [] else s.poolInbox
    syncInbox := if s.sync = .running then [] else s.syncInbox }

def advance (d : Duration) (s : Service) : Service :=
  { s with now := s.now + d }

end Service

end ChainSync
