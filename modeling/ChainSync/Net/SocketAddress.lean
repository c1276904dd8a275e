import ChainSync.Net.Ip

/-!
# Socket addresses

An address with a port; an IPv6 one also carries flow information and a
scope. `compare` puts every IPv4 address before every IPv6 one.
-/

namespace ChainSync

inductive SocketAddress
  | v4 (ip : Ipv4) (port : UInt16)
  | v6 (ip : Ipv6) (port : UInt16) (flow scope : UInt32)
deriving DecidableEq

namespace SocketAddress

instance : Inhabited SocketAddress := ⟨.v4 default 0⟩

def ofIp (ip : Ip) (port : UInt16) : SocketAddress :=
  match ip with
  | .v4 ip => .v4 ip port
  | .v6 ip => .v6 ip port 0 0

def ip : SocketAddress → Ip
  | .v4 ip _ => .v4 ip
  | .v6 ip _ _ _ => .v6 ip

def port : SocketAddress → UInt16
  | .v4 _ port => port
  | .v6 _ port _ _ => port

/-- The numbers that order addresses, most significant first. -/
def rank : SocketAddress → List Nat
  | .v4 ip port => [0, ip.toNat, port.toNat]
  | .v6 ip port flow scope => [1, ip.toNat, port.toNat, flow.toNat, scope.toNat]

def le (a b : SocketAddress) : Bool :=
  compareLex a.rank b.rank != .gt
where
  compareLex : List Nat → List Nat → Ordering
    | [], [] => .eq
    | [], _ :: _ => .lt
    | _ :: _, [] => .gt
    | x :: xs, y :: ys => (compare x y).then (compareLex xs ys)

def toText : SocketAddress → String
  | .v4 ip port => s!"{ip.toText}:{port.toNat}"
  | .v6 ip port _ scope =>
    if scope = 0 then s!"[{ip.toText}]:{port.toNat}"
    else s!"[{ip.toText}%{scope.toNat}]:{port.toNat}"

def sorted (addresses : List SocketAddress) : List SocketAddress :=
  (addresses.mergeSort le).eraseReps

end SocketAddress

end ChainSync
