/-!
# Bytes

Byte strings are lists, so that every codec is an equation about appending.
Numbers are written least significant byte first (`ofNatLE`), with
`toNatLE` reading them back; `FixedBytes` carries its length in its type.
-/

namespace ChainSync

abbrev Bytes := List UInt8

namespace Bytes

/-- The first `width` bytes of `n`, least significant first. -/
def ofNatLE : Nat → Nat → Bytes
  | 0, _ => []
  | width + 1, n => UInt8.ofNat (n % 256) :: ofNatLE width (n / 256)

def toNatLE : Bytes → Nat
  | [] => 0
  | b :: bs => b.toNat + 256 * toNatLE bs

/-- Network order: most significant byte first. -/
def ofNatBE (width n : Nat) : Bytes :=
  (ofNatLE width n).reverse

def toNatBE (bs : Bytes) : Nat :=
  toNatLE bs.reverse

/-- Whether `n` bytes are there, looking at no more than `n` of them. -/
def hasAtLeast : Nat → Bytes → Bool
  | 0, _ => true
  | _ + 1, [] => false
  | n + 1, _ :: bs => hasAtLeast n bs

theorem hasAtLeast_iff (n : Nat) (bs : Bytes) : hasAtLeast n bs = true ↔ n ≤ bs.length := by
  fun_induction hasAtLeast n bs with
  | case1 => simp
  | case2 => simp
  | case3 n b bs ih => simp [ih]

@[simp] theorem length_ofNatLE (width n : Nat) : (ofNatLE width n).length = width := by
  induction width generalizing n with
  | zero => rfl
  | succ width ih => simp [ofNatLE, ih]

@[simp] theorem length_ofNatBE (width n : Nat) : (ofNatBE width n).length = width := by
  simp [ofNatBE]

/-- The bytes of a text in UTF-8. -/
def ofString (s : String) : Bytes :=
  s.toUTF8.data.toList

/-- The text these bytes spell in UTF-8, if they spell one. -/
def toString? (bs : Bytes) : Option String :=
  String.fromUTF8? ⟨bs.toArray⟩

end Bytes

/-! ## Byte strings of a fixed length -/

structure FixedBytes (n : Nat) where
  bytes : Bytes
  length_bytes : bytes.length = n
deriving DecidableEq

namespace FixedBytes

variable {n : Nat}

def zero (n : Nat) : FixedBytes n :=
  ⟨List.replicate n 0, List.length_replicate⟩

instance : Inhabited (FixedBytes n) := ⟨zero n⟩

def ofBytes? (n : Nat) (bs : Bytes) : Option (FixedBytes n) :=
  if h : bs.length = n then some ⟨bs, h⟩ else none

/-- The number these bytes write most significant first; the order of byte strings. -/
def toNat (x : FixedBytes n) : Nat :=
  x.bytes.foldl (fun acc b => acc * 256 + b.toNat) 0

def isZero (x : FixedBytes n) : Bool :=
  x == zero n

end FixedBytes

end ChainSync
