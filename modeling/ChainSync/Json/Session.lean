import ChainSync.Json.Report
import ChainSync.Peer.Session

/-!
# Structured sessions

How the events of a session, its messages and the peer's standing are
shown.
-/

namespace ChainSync.Json

instance : ToJson PoolEvent where
  toJson e := record (match e with
    | .addresses _ addresses => [("event", text "addresses"), ("list", toJson addresses)]
    | .addressRequest _ => [("event", text "address_request")]
    | .inventory _ inventory => ("event", text "inventory") :: inventoryFields inventory
    | .dataRequest _ inventory => ("event", text "data_request") :: inventoryFields inventory
    | .transaction _ tx => [("event", text "transaction"), ("data", toJson tx)]
    | .disconnected _ _ reason => [("event", text "disconnected"), ("reason", text reason.name)])

instance [Digest] : ToJson SyncEvent where
  toJson e := record (match e with
    | .headers _ headers => [("event", text "headers"), ("hashes", toJson (headers.map Header.hash))]
    | .block _ b raw => [("event", text "block"), ("block", toJson b), ("raw", ofBytes raw)])

/-- News for the pool stands before news for the synchronizer, the end of the session last. -/
def eventRank : PeerEvent → Nat
  | .pool (.disconnected ..) => 2
  | .sync _ => 1
  | .pool _ => 0

def ofEvents [Digest] (events : List PeerEvent) : Json :=
  list ((events.mergeSort fun a b => eventRank a ≤ eventRank b).map fun
    | .pool e => toJson e
    | .sync e => toJson e)

def standing (p : Peer) : List (String × Json) :=
  [("state", text p.state.name), ("reason", toJson (p.reason.map (·.name))),
   ("height", toJson p.bestHeight)]

/-- Messages as whoever reads the stream sees them: commands are cut to the width of their field. -/
def ofWritten [Digest] (m : Message) : Json :=
  let seen := do
    let bs ← Frame.encode mainnetMagic m.toPacket
    let (_, p) ← Frame.decode bs
    (Message.decode p).mapError NetError.ofStop
  toJson seen

/-- What a step did; what a peer that has gone had queued does not count. -/
def activityFields [Digest] (p : Peer) (a : Activity) : List (String × Json) :=
  [("events", ofEvents a.events),
   ("sent", if p.state = .disconnected then null else list (a.sent.map ofWritten)),
   ("peer", record (standing p))]

end ChainSync.Json
