import ChainSync.Assoc
import ChainSync.Clock
import ChainSync.Peer.Basic

/-!
# Outstanding requests

A request for headers or for a block over all peers it was sent to. Each
attempt is a flight, at most one per peer; the latest one drives the
timeout, and failures are counted per peer to choose whom to ask next.
-/

namespace ChainSync

/-- One attempt on one peer. -/
structure Flight where
  peer : PeerId
  height : Nat
  start : Instant
deriving DecidableEq, Inhabited

namespace Flight

def elapsed (now : Instant) (f : Flight) : Duration :=
  now - f.start

def isTimedOut (now : Instant) (timeout : Duration) (f : Flight) : Bool :=
  timeout ≤ f.elapsed now

end Flight

structure Request where
  height : Nat
  flights : List (PeerId × Flight)
  /-- How often each peer failed this request. -/
  failed : List (PeerId × Nat)
  failedTotal : Nat
  lastUsed : Option PeerId
deriving DecidableEq, Inhabited

namespace Request

def new (height : Nat) : Request :=
  ⟨height, [], [], 0, none⟩

/-- Records an attempt, in place of an older one on the same peer. -/
def addFlight (f : Flight) (r : Request) : Request :=
  { r with lastUsed := some f.peer, flights := Assoc.set f.peer f r.flights }

def flight? (peer : PeerId) (r : Request) : Option Flight :=
  Assoc.get? peer r.flights

/-- The flight that started last, the later one in the list of equals. -/
def latest? : List Flight → Option Flight
  | [] => none
  | f :: rest =>
    match latest? rest with
    | none => some f
    | some g => some (if f.start ≤ g.start then g else f)

/-- The latest attempt: on the peer used last if it is still there, else the one that started last. -/
def recent? (r : Request) : Option Flight :=
  (r.lastUsed.bind (r.flight? ·)).or (latest? (r.flights.map (·.2)))

def removeFlight (peer : PeerId) (r : Request) : Request :=
  { r with flights := Assoc.erase peer r.flights }

def failures (r : Request) (peer : PeerId) : Nat :=
  (Assoc.get? peer r.failed).getD 0

def addFailure (peer : PeerId) (r : Request) : Request :=
  { r with
    failed := Assoc.set peer (r.failures peer + 1) r.failed
    failedTotal := r.failedTotal + 1 }

def hasFailed (peer : PeerId) (r : Request) : Bool :=
  Assoc.contains peer r.failed

/-- A request in flight to one peer. -/
def start (now : Instant) (peer : PeerId) (height : Nat) : Request :=
  (new height).addFlight ⟨peer, height, now⟩

end Request

end ChainSync
