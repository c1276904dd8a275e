import ChainSync.Bytes
import ChainSync.Text.Hex

/-!
# Requests

A request as the API receives it, and which endpoint its path names.
-/

namespace ChainSync.Api

structure Request where
  method : String
  /-- Path and query. -/
  target : String
  headers : List (String × String)
  body : Bytes

/-- A text stands for its bytes where a body is wanted. -/
instance : Coe String Bytes := ⟨Bytes.ofString⟩

/-- Printable ASCII, or a tab. -/
def isVisible (c : Char) : Bool :=
  (32 ≤ c.toNat && c.toNat < 127) || c == '\t'

namespace Request

def header? (name : String) (r : Request) : Option String :=
  (r.headers.find? fun h => h.1.toLower = name).map (·.2)

/-- A header's text, if it is nothing but printable ASCII and tabs. -/
def headerText? (name : String) (r : Request) : Option String :=
  (r.header? name).filter fun s => s.toList.all isVisible

def path (r : Request) : List Char :=
  r.target.toList.takeWhile fun c => c != '?' && c != '#'

end Request

/-! ## Percent signs in paths -/

/-- Replaces each percent sign with two hexadecimal digits by the byte they write. -/
def percentDecode : Bytes → Bytes
  | 37 :: hi :: lo :: rest =>
    match Hex.digitValue? hi, Hex.digitValue? lo with
    | some h, some l => UInt8.ofNat (16 * h + l) :: percentDecode rest
    | _, _ => 37 :: percentDecode (hi :: lo :: rest)
  | b :: rest => b :: percentDecode rest
  | [] => []

/-! ## Endpoints -/

inductive Endpoint
  | info
  | connectedPeers
  | knownPeers
  | badPeers
  | connectPeer
  | submitTransaction
  | unconfirmed
  /-- One pooled transaction, by the last segment of the path. -/
  | unconfirmedById (segment : String)
deriving DecidableEq

namespace Endpoint

def ofSegments? : List String → Option Endpoint
  | ["", "info"] => some info
  | ["", "peers", "connected"] => some connectedPeers
  | ["", "peers", "known"] => some knownPeers
  | ["", "peers", "bad"] => some badPeers
  | ["", "peers", "connect"] => some connectPeer
  | ["", "transactions"] => some submitTransaction
  | ["", "transactions", "unconfirmed"] => some unconfirmed
  | ["", "transactions", "unconfirmed", id] => if id.isEmpty then none else some (unconfirmedById id)
  | _ => none

def ofPath? (path : List Char) : Option Endpoint :=
  ofSegments? ((path.splitOn '/').map String.ofList)

/-- Whether the endpoint changes something, and so takes a body. -/
def isMutating : Endpoint → Bool
  | connectPeer | submitTransaction => true
  | _ => false

/-- The field that the body of a request carries. -/
def fieldName : Endpoint → String
  | connectPeer => "address"
  | _ => "bytes"

end Endpoint

end ChainSync.Api
