import ChainSync.Bytes

/-!
# Internet addresses

Both families as their bytes in network order. An IPv6 address is shown
with its longest run of at least two zero groups (the first of equal ones)
written `::`, and an IPv4-mapped one by its dotted form.
-/

namespace ChainSync

abbrev Ipv4 := FixedBytes 4

abbrev Ipv6 := FixedBytes 16

namespace Ipv4

def ofNat (n : Nat) : Ipv4 :=
  ⟨Bytes.ofNatBE 4 n, Bytes.length_ofNatBE 4 n⟩

def toText (ip : Ipv4) : String :=
  ".".intercalate (ip.bytes.map fun b => toString b.toNat)

def isLoopback (ip : Ipv4) : Bool :=
  ip.bytes.head? == some 127

/-- The ten zero bytes and two full ones in front of a mapped address. -/
def mappedHead : Bytes :=
  List.replicate 10 0 ++ [0xFF, 0xFF]

def toMapped (ip : Ipv4) : Ipv6 :=
  ⟨mappedHead ++ ip.bytes, by simp [mappedHead, ip.length_bytes]⟩

end Ipv4

namespace Ipv6

/-- Pairs of bytes as numbers, most significant byte first. -/
def pairs : Bytes → List Nat
  | a :: b :: rest => (a.toNat * 256 + b.toNat) :: pairs rest
  | _ => []

def groups (ip : Ipv6) : List Nat :=
  pairs ip.bytes

def ofGroups? (gs : List Nat) : Option Ipv6 :=
  FixedBytes.ofBytes? 16 (gs.flatMap (Bytes.ofNatBE 2))

/-- The address of the older family that this one stands for, if it is mapped. -/
def mapped? (ip : Ipv6) : Option Ipv4 :=
  if ip.bytes.take 12 = Ipv4.mappedHead then FixedBytes.ofBytes? 4 (ip.bytes.drop 12) else none

def isLoopback (ip : Ipv6) : Bool :=
  ip.bytes == List.replicate 15 0 ++ [1]

/-- How many zero groups stand in front. -/
def zeroRun (gs : List Nat) : Nat :=
  (gs.takeWhile (· == 0)).length

/-- Length of the longest run of zero groups, and how many groups stand before the first such run. -/
def longestZeroRun : List Nat → Nat × Nat
  | [] => (0, 0)
  | g :: gs =>
    let (length, before) := longestZeroRun gs
    if length ≤ zeroRun (g :: gs) ∧ g = 0 then (zeroRun (g :: gs), 0) else (length, before + 1)

def groupsText (gs : List Nat) : String :=
  ":".intercalate (gs.map fun g => String.ofList (Nat.toDigits 16 g))

def toText (ip : Ipv6) : String :=
  match ip.mapped? with
  | some v4 => "::ffff:" ++ v4.toText
  | none =>
    let gs := ip.groups
    let (length, before) := longestZeroRun gs
    if 1 < length then groupsText (gs.take before) ++ "::" ++ groupsText (gs.drop (before + length))
    else groupsText gs

end Ipv6

inductive Ip
  | v4 (ip : Ipv4)
  | v6 (ip : Ipv6)
deriving DecidableEq

namespace Ip

def isLoopback : Ip → Bool
  | .v4 ip => ip.isLoopback
  | .v6 ip => ip.isLoopback

def isUnspecified : Ip → Bool
  | .v4 ip => ip.isZero
  | .v6 ip => ip.isZero

end Ip

end ChainSync
