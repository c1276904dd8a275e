import ChainSync.Sync.Basic

/-!
# Synchronizing headers

One request for headers is outstanding at a time, until the last header is
`lookAhead` past the last block. A request whose latest flight is too old
goes to the peer that failed it least.
-/

namespace ChainSync.Node

variable [Digest]

def syncHeaders (now : Instant) (n : Node) : Node :=
  let tip := n.ledger.headerHeight
  if n.sync.header.isSome then n
  else if n.sync.config.lookAhead ≤ tip - n.ledger.blockHeight then n
  else
    match n.pool.nextPeer? now (tip + 1) with
    | none => n
    | some p =>
      match n.withPeer p.id (·.getHeaders now (n.ledger.hashAt tip)) with
      | (n, .ok ()) => n.setHeader (some (.start now p.id (tip + 1)))
      | (n, .error _) => n

/-- Sends an overdue request to another peer, or gives it up if there is none to send it to. -/
def retryHeaders (now : Instant) (r : Request) (late : Flight) (n : Node) : Node :=
  let r := r.addFailure late.peer
  let n := n.setPool (n.pool.penaliseTimeout late.peer).1
  match n.pool.retryPeer? now r.failures r.height with
  | none => n.setHeader none
  | some p =>
    let r := r.addFlight ⟨p.id, r.height, now⟩
    match n.withPeer p.id (·.getHeaders now (n.ledger.hashAt (r.height - 1))) with
    | (n, .ok ()) => n.setHeader (some r)
    | (n, .error _) => n.setHeader none

/-- Looks after the outstanding request: it goes once it is satisfied, and is retried when overdue. -/
def checkHeaders (now : Instant) (n : Node) : Node :=
  match n.sync.header with
  | none => n
  | some r =>
    match r.recent? with
    | none => n.setHeader none
    | some f =>
      if ¬ f.isTimedOut now n.sync.config.headerTimeout then n
      else if r.height ≤ n.ledger.headerHeight then n.setHeader none
      else n.retryHeaders now r f

/-- Takes the answer to the outstanding request; any other headers change nothing. The sender is
charged when not all of them link on. -/
def receiveHeaders (peer : PeerId) (headers : List Header) (n : Node) : Node :=
  match n.sync.header, headers with
  | none, _ | _, [] => n
  | some r, first :: _ =>
    if first.height ≠ r.height || first.height ≤ n.ledger.headerHeight then n
    else
      let (ledger, accepted) := n.ledger.addHeaders headers
      let n := { n with ledger }.setHeader none
      if accepted < headers.length then n.setPool (n.pool.penaliseError peer).1 else n

end ChainSync.Node
