import ChainSync.Peer.Connection
import ChainSync.Peer.Handshake

/-!
# Running the version exchange

An `Exchange` is a connection together with how far its version exchange
has come. It is run alone, on what the remote has sent so far, or by two
endpoints that face each other.
-/

namespace ChainSync

/-- A connection on which the version exchange goes on. -/
structure Exchange where
  connection : Connection
  own : Version
  stage : Handshake
  /-- Messages written, oldest first. -/
  sent : List Message

namespace Exchange

def start (own : Version) (c : Connection) : Exchange :=
  ⟨c, own, .greeting, []⟩

/-- Sends what is owed, or takes in one message; nothing if there is nothing to do now. The bytes
are those written. -/
def move [Digest] (x : Exchange) : Exchange × Bytes :=
  match x.stage.owed? x.own with
  | some m =>
    match x.connection.send m with
    | (connection, .ok bs) =>
      ({ x with connection, stage := x.stage.afterSend, sent := x.sent ++ [m] }, bs)
    | (connection, .error e) => ({ x with connection, stage := .failed e }, [])
  | none =>
    if ¬ x.stage.isWaiting then (x, [])
    else
      match x.connection.poll with
      | (connection, .waiting) => ({ x with connection }, [])
      | (connection, .packet p) =>
        let stage := match Connection.messageOf p with
          | .ok m => x.stage.receive x.own m
          | .error e => .failed e
        ({ x with connection, stage }, [])
      | (connection, .failure e) => ({ x with connection, stage := .failed e }, [])
      | (connection, .ended) => ({ x with connection, stage := .failed .connectionClosed }, [])

/-- How it stands when the deadline passes. -/
def result (x : Exchange) : Except NetError Version :=
  x.stage.result?.getD (.error (.timeout "handshake"))

/-- The most moves that one endpoint makes. -/
def moves : Nat := 4

/-- Goes as far as what has arrived allows, with the bytes written. -/
def advance [Digest] : Nat → Exchange → Exchange × Bytes
  | 0, x => (x, [])
  | n + 1, x =>
    let (x, bs) := x.move
    let (x, more) := advance n x
    (x, bs ++ more)

def run [Digest] (own : Version) (c : Connection) : Exchange × Bytes :=
  advance moves (start own c)

def deliver (bs : Bytes) (x : Exchange) : Exchange :=
  { x with connection := x.connection.deliver bs }

/-- Two endpoints that face each other take turns. -/
def advanceBoth [Digest] : Nat → Exchange → Exchange → Exchange × Exchange
  | 0, x, y => (x, y)
  | n + 1, x, y =>
    let (x, bs) := x.move
    let (y, cs) := (y.deliver bs).move
    advanceBoth n (x.deliver cs) y

/-- In each round at least one of the two moves, unless both are over or stuck. -/
def runBoth [Digest] (own own' : Version) (c c' : Connection) : Exchange × Exchange :=
  advanceBoth (2 * moves) (start own c) (start own' c')

end Exchange

end ChainSync
