import ChainSync.Net.SocketAddress

/-!
# Addresses in text

`ofText?` reads a socket address: dotted IPv4 without leading zeros, or
bracketed IPv6 with an optional numeric scope, and a decimal port.
`ofHostText?` also takes an address without a port and a numeric host in
the older dotted forms; host names are not looked up.
-/

namespace ChainSync.AddressText

/-- A reader takes what it reads off the front, or takes nothing. -/
abbrev Read (α : Type) := List Char → Option (α × List Char)

def char (c : Char) : Read Unit
  | d :: rest => if c = d then some ((), rest) else none
  | [] => none

def digitValue (c : Char) : Nat :=
  if c.isDigit then c.toNat - 48 else c.toLower.toNat - 87

def isDigitIn (radix : Nat) (c : Char) : Bool :=
  (c.isDigit || (c.toLower.toNat - 97 < 26 && 97 ≤ c.toLower.toNat)) && digitValue c < radix

def number (radix : Nat) (digits : List Char) : Nat :=
  digits.foldl (fun n c => n * radix + digitValue c) 0

/-- All digits in front: at most `width` of them, a value up to `limit`, and a leading zero only
when alone or where `zeros` allows it. -/
def readNumber (radix : Nat) (width : Option Nat) (zeros : Bool) (limit : Nat) : Read Nat := fun cs =>
  let digits := cs.takeWhile (isDigitIn radix)
  if digits.isEmpty ∨ width.any (· < digits.length) ∨ (¬ zeros ∧ 1 < digits.length ∧ digits.head? = some '0')
      ∨ limit < number radix digits then none
  else some (number radix digits, cs.drop digits.length)

def readOctets : Nat → Read Bytes
  | 0, cs => some ([], cs)
  | n + 1, cs => do
    let (_, cs) ← char '.' cs
    let (octet, cs) ← readNumber 10 (some 3) false 255 cs
    let (octets, cs) ← readOctets n cs
    some (UInt8.ofNat octet :: octets, cs)

def readIpv4 : Read Ipv4 := fun cs => do
  let (first, cs) ← readNumber 10 (some 3) false 255 cs
  let (octets, cs) ← readOctets 3 cs
  let ip ← FixedBytes.ofBytes? 4 (UInt8.ofNat first :: octets)
  some (ip, cs)

/-- At most `room` colon-separated groups; the last two may be written as a dotted IPv4 address,
which the flag reports. -/
def readGroups : Nat → Bool → List Char → List Nat × Bool × List Char
  | 0, _, cs => ([], false, cs)
  | room + 1, leading, cs =>
    let start := if leading then some cs else (char ':' cs).map (·.2)
    match if 0 < room then start.bind readIpv4 else none with
    | some (ip, rest) => (Ipv6.pairs ip.bytes, true, rest)
    | none =>
      match start.bind (readNumber 16 (some 4) true 0xFFFF) with
      | none => ([], false, cs)
      | some (g, rest) =>
        let (gs, dotted, rest) := readGroups room false rest
        (g :: gs, dotted, rest)

def readIpv6 : Read Ipv6 := fun cs => do
  let (front, dotted, cs) := readGroups 8 true cs
  if front.length = 8 then
    return (← Ipv6.ofGroups? front, cs)
  if dotted then
    none
  let (_, cs) ← char ':' cs
  let (_, cs) ← char ':' cs
  let (back, _, cs) := readGroups (7 - front.length) true cs
  let ip ← Ipv6.ofGroups? (front ++ List.replicate (8 - front.length - back.length) 0 ++ back)
  return (ip, cs)

def readPort : Read UInt16 := fun cs => do
  let (_, cs) ← char ':' cs
  let (port, cs) ← readNumber 10 none true 0xFFFF cs
  return (port.toUInt16, cs)

def readScope : Read UInt32 := fun cs => do
  let (_, cs) ← char '%' cs
  let (scope, cs) ← readNumber 10 none true 0xFFFFFFFF cs
  return (scope.toUInt32, cs)

def readSocketV4 : Read SocketAddress := fun cs => do
  let (ip, cs) ← readIpv4 cs
  let (port, cs) ← readPort cs
  return (.v4 ip port, cs)

def readSocketV6 : Read SocketAddress := fun cs => do
  let (_, cs) ← char '[' cs
  let (ip, cs) ← readIpv6 cs
  let (scope, cs) := (readScope cs).getD (0, cs)
  let (_, cs) ← char ']' cs
  let (port, cs) ← readPort cs
  return (.v6 ip port 0 scope, cs)

/-- The whole text, by the first reader that succeeds on its front. -/
def whole {α : Type} (first second : Read α) (s : String) : Option α :=
  match (first s.toList).or (second s.toList) with
  | some (x, []) => some x
  | _ => none

def ip? (s : String) : Option Ip :=
  whole (fun cs => (readIpv4 cs).map fun (ip, cs) => (.v4 ip, cs))
    (fun cs => (readIpv6 cs).map fun (ip, cs) => (.v6 ip, cs)) s

/-! ## Numeric hosts -/

/-- A part of a numeric host: hexadecimal behind `0x`, octal behind `0`, else decimal. -/
def hostPart? (cs : List Char) : Option Nat :=
  let (radix, digits) : Nat × List Char := match cs with
    | '0' :: 'x' :: rest => (16, rest)
    | '0' :: 'X' :: rest => (16, rest)
    | '0' :: rest => (8, '0' :: rest)
    | _ => (10, cs)
  if digits.isEmpty ∨ ¬ digits.all (isDigitIn radix) ∨ 0xFFFFFFFF < number radix digits then none
  else some (number radix digits)

/-- One to four parts; the last fills all bytes that the others leave. -/
def hostIpv4? (host : List Char) : Option Ipv4 := do
  let parts ← (host.splitOn '.').mapM hostPart?
  let last ← parts.getLast?
  let front := parts.dropLast
  if 3 < front.length ∨ front.any (255 < ·) ∨ Nat.pow 256 (4 - front.length) ≤ last then none
  else
    Ipv4.ofNat (front.foldl (fun n part => n * 256 + part) 0 * Nat.pow 256 (4 - front.length) + last)

/-- A decimal port, for which a plus sign and leading zeros are fine. -/
def hostPort? (cs : List Char) : Option UInt16 :=
  let digits := match cs with
    | '+' :: rest => rest
    | _ => cs
  if digits.isEmpty ∨ ¬ digits.all Char.isDigit ∨ 0xFFFF < number 10 digits then none
  else some (number 10 digits).toUInt16

end AddressText

namespace SocketAddress

open AddressText

def ofText? (s : String) : Option SocketAddress :=
  whole readSocketV4 readSocketV6 s

/-- A literal address, with `port` where the text names none. -/
def ofLiteral? (s : String) (port : UInt16) : Option SocketAddress :=
  (ofText? s).or ((ip? s).map (ofIp · port))

/-- A literal address, or a numeric host and a port behind the last colon. -/
def ofHostText? (s : String) (port : UInt16) : Option SocketAddress :=
  (ofLiteral? s port).or <|
    match s.toList.splitOn ':' with
    | [] => none
    | [host] => (hostIpv4? host).map (.v4 · port)
    | parts => do
      let port ← hostPort? (parts.getLastD [])
      match parts.dropLast with
      | [host] => (hostIpv4? host).map (.v4 · port)
      | hosts => (ip? (String.ofList (List.intercalate [':'] hosts))).map (ofIp · port)

/-- The addresses a list of seeds names, in ascending order; seeds that name none are skipped. -/
def ofSeeds (seeds : List String) (port : UInt16) : List SocketAddress :=
  sorted (seeds.filterMap (ofHostText? · port))

end SocketAddress

end ChainSync
