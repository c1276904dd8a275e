/-!
# Rates

Binary64 numbers as their bit patterns, so that a NaN keeps its sign and
payload through arithmetic and two numbers compare by a total order: from
the negative NaNs over the reals, -0 below +0, to the positive NaNs.
-/

namespace ChainSync

structure Rate where
  bits : UInt64
deriving DecidableEq, Inhabited

namespace Rate

def toFloat (r : Rate) : Float :=
  Float.ofBits r.bits

def isNaN (r : Rate) : Bool :=
  0x7FF0000000000000 < (r.bits &&& 0x7FFFFFFFFFFFFFFF)

def isFinite (r : Rate) : Bool :=
  (r.bits &&& 0x7FFFFFFFFFFFFFFF) < 0x7FF0000000000000

/-- A NaN that arithmetic passes on. -/
def quiet (r : Rate) : Rate :=
  ⟨r.bits ||| 0x0008000000000000⟩

/-- A computed number; an invalid operation gives the NaN with its sign set. -/
def ofFloat (x : Float) : Rate :=
  if x.isNaN then ⟨0xFFF8000000000000⟩ else ⟨x.toBits⟩

def ofNat (n : Nat) : Rate :=
  ⟨(Float.ofNat n).toBits⟩

def negZero : Rate := ⟨0x8000000000000000⟩

def add (a b : Rate) : Rate :=
  if a.isNaN then a.quiet
  else if b.isNaN then b.quiet
  else ofFloat (a.toFloat + b.toFloat)

def divNat (a : Rate) (n : Nat) : Rate :=
  if a.isNaN then a.quiet else ofFloat (a.toFloat / Float.ofNat n)

/-- The sum from the left; -0 for no numbers at all. -/
def sum (rs : List Rate) : Rate :=
  rs.foldl add negZero

/-- The place of a number in the total order. -/
def rank (r : Rate) : Int :=
  let n := r.bits.toNat
  if n < Nat.pow 2 63 then n else Nat.pow 2 63 - 1 - (n : Int)

/-- How two numbers compare, unless one is a NaN. -/
def compare? (a b : Rate) : Option Ordering :=
  if a.isNaN || b.isNaN then none
  else if a.toFloat < b.toFloat then some .lt
  else if b.toFloat < a.toFloat then some .gt
  else some .eq

end Rate

end ChainSync
