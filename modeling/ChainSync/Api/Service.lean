import ChainSync.Api.Body
import ChainSync.Api.MediaType
import ChainSync.Api.Reply
import ChainSync.Api.Request
import ChainSync.Json.Report
import ChainSync.Net.AddressText

/-!
# The API

What each endpoint answers, and what the two mutating ones do to the node.
A request is judged in stages: the path, the method, the content type and
the body, and only then the API key.
-/

namespace ChainSync.Api

structure ApiConfig where
  name : String
  /-- What mutating requests have to show, if anything. -/
  key : Option String
deriving DecidableEq

def apiVersion : String := "0.1.0"

def maxBody : Nat := 2097152

/-- Whether a request may change the node. -/
def ApiConfig.admits (config : ApiConfig) (r : Request) : Bool :=
  config.key.all fun key => r.headerText? "api_key" = some key

/-! ## Reading -/

/-- Whether the stored blocks reach the greatest height that any pooled peer advertises. -/
def isSynced (n : Node) : Bool :=
  ((n.pool.pooledPeers.map (·.bestHeight)).max?).any (· ≤ n.ledger.blockHeight)

def info (config : ApiConfig) (n : Node) : Json :=
  let status := n.status
  let stats := n.pool.stats
  .record
    [("name", .text config.name),
     ("appVersion", .text apiVersion),
     ("headersHeight", toJson status.headerHeight),
     ("fullHeight", toJson status.blockHeight),
     ("peerCount", toJson stats.connected),
     ("queuedCount", toJson stats.queued),
     ("knownCount", toJson stats.known),
     ("badCount", toJson stats.bad),
     ("cachedBlocks", toJson status.cacheSize),
     ("cacheCapacity", toJson status.cacheCapacity),
     ("headerRequestOutstanding", toJson status.headerRequested),
     ("blockRequestsOutstanding", toJson status.blocksRequested),
     ("unconfirmedCount", toJson stats.relay),
     ("isSynced", toJson (isSynced n))]


def unconfirmedTx (id : String) (n : Node) : Except ApiError Json :=
  match Hash.ofText id with
  | .error fault => .error (.badRequest (NetError.invalidMessage (.hash fault)).message)
  | .ok h =>
    match n.pool.relay.get? h with
    | none => .error (.notFound s!"Transaction {id} not in pool")
    | some tx => .ok (.record [("id", toJson h), ("bytes", toJson tx)])

/-- The last segment of a path as text, if its bytes are UTF-8. -/
def segmentText? (segment : String) : Option String :=
  (percentDecode (Bytes.ofString segment)).toString?

/-- What an endpoint that changes nothing answers. -/
def read (config : ApiConfig) (now : Instant) (e : Endpoint) (n : Node) : Reply :=
  match e with
  | .info => .json (info config n)
  | .connectedPeers => .json (.list (n.pool.pooledPeers.map (Json.ofPeer now)))
  | .knownPeers => .json (toJson n.pool.knownAddresses)
  | .badPeers => .json (toJson n.pool.badAddresses)
  | .unconfirmed => .json (toJson n.pool.relay.hashes)
  | .unconfirmedById segment =>
    match segmentText? segment with
    | none => .plain 400
    | some id => .ofExcept (unconfirmedTx id n)
  | .connectPeer | .submitTransaction => .plain 405

/-! ## Changing -/

/-- Asks for a dial to an address given as text. -/
def connectPeer (address : String) (n : Node) : Node × Except ApiError Json :=
  match SocketAddress.ofHostText? address defaultPort with
  | none => (n, .error (.badRequest s!"Invalid address: {address}"))
  | some a =>
    let (pool, queued) := n.pool.connectTo a
    (n.setPool pool,
     .ok (.record [("address", toJson a), ("status", .text (if queued then "queued" else "ignored"))]))

variable [Digest]

/-- Submits a transaction for relay, in hexadecimal with any number of `0x` in front. -/
def submitTransaction (now : Instant) (text : String) (n : Node) : Node × Except ApiError Json :=
  match Hex.decode (String.ofList (Hash.dropMarks text.toList)) with
  | .error _ => (n, .error (.badRequest "Invalid transaction bytes"))
  | .ok data =>
    let tx : Transaction := ⟨data⟩
    let id := tx.hash.toText
    let (n, result) := n.relay now tx
    (n, match result with
      | .invalid => .error (.badRequest s!"Transaction {id} failed verification")
      | .ledgerNotReady => .error (.unavailable "Ledger not ready")
      | result => .ok (.record [("id", .text id), ("result", toJson result)]))

def act (now : Instant) (e : Endpoint) (field : String) (n : Node) : Node × Except ApiError Json :=
  match e with
  | .connectPeer => connectPeer field n
  | _ => submitTransaction now field n

/-- The field of a request's body, or the reply that refuses it. -/
def field (e : Endpoint) (r : Request) : Except Reply String :=
  if ¬ (r.headerText? "content-type").any MediaType.isJson then .error (.plain 415)
  else if maxBody < r.body.length then .error (.plain 413)
  else
    match Body.readField e.fieldName r.body with
    | .ok text => .ok text
    | .error .notJson => .error (.plain 400)
    | .error .wrongShape => .error (.plain 422)

def change (config : ApiConfig) (now : Instant) (e : Endpoint) (r : Request) (n : Node) : Node × Reply :=
  match field e r with
  | .error reply => (n, reply)
  | .ok text =>
    if ¬ config.admits r then (n, ApiError.unauthorized.reply)
    else
      let (n, answer) := act now e text n
      (n, .ofExcept answer)

/-- Serves one request. Preflight requests succeed on any path. -/
def respond (config : ApiConfig) (now : Instant) (r : Request) (n : Node) : Node × Reply :=
  if r.method = "OPTIONS" then (n, .plain 200)
  else
    match Endpoint.ofPath? r.path with
    | none => (n, .plain 404)
    | some e =>
      if e.isMutating then
        if r.method = "POST" then change config now e r n else (n, .plain 405)
      else if r.method = "GET" then (n, read config now e n)
      else if r.method = "HEAD" then (n, (read config now e n).withoutBody)
      else (n, .plain 405)

end ChainSync.Api
