import ChainSync.Bytes

/-!
# Faults in UTF-8

Where a byte string stops being UTF-8. `faultFrom` runs a machine over the
bytes that knows, between two bytes, how many continuation bytes are owed
and between which bounds the next one lies.
-/

namespace ChainSync.Utf8

/-- Between two bytes of a character: continuation bytes owed, and the bounds of the next one. -/
structure Owed where
  count : Nat
  least : UInt8
  most : UInt8
deriving DecidableEq

/-- What a first byte promises, if a character can start with it. -/
def promise? (b : UInt8) : Option Owed :=
  if b ≤ 0x7F then some ⟨0, 0x80, 0xBF⟩
  else if 0xC2 ≤ b ∧ b ≤ 0xDF then some ⟨1, 0x80, 0xBF⟩
  else if b = 0xE0 then some ⟨2, 0xA0, 0xBF⟩
  else if b = 0xED then some ⟨2, 0x80, 0x9F⟩
  else if 0xE1 ≤ b ∧ b ≤ 0xEF then some ⟨2, 0x80, 0xBF⟩
  else if b = 0xF0 then some ⟨3, 0x90, 0xBF⟩
  else if 0xF1 ≤ b ∧ b ≤ 0xF3 then some ⟨3, 0x80, 0xBF⟩
  else if b = 0xF4 then some ⟨3, 0x80, 0x8F⟩
  else none

inductive Fault
  /-- A sequence of `length` bytes at `index` starts no character. -/
  | invalid (length index : Nat)
  /-- The text ends inside the character at `index`. -/
  | incomplete (index : Nat)
deriving DecidableEq

def Fault.message : Fault → String
  | .invalid length index => s!"invalid utf-8 sequence of {length} bytes from index {index}"
  | .incomplete index => s!"incomplete utf-8 byte sequence from index {index}"

/-- The first fault, `seen` bytes into the character that starts at `index` and still owes `owed`. -/
def faultFrom (index seen : Nat) (owed : Owed) : Bytes → Option Fault
  | [] => if owed.count = 0 then none else some (.incomplete index)
  | b :: rest =>
    if owed.count = 0 then
      match promise? b with
      | none => some (.invalid 1 (index + seen))
      | some owed => faultFrom (index + seen) 1 owed rest
    else if owed.least ≤ b ∧ b ≤ owed.most then
      faultFrom index (seen + 1) ⟨owed.count - 1, 0x80, 0xBF⟩ rest
    else some (.invalid seen index)

def fault? (bs : Bytes) : Option Fault :=
  faultFrom 0 0 ⟨0, 0x80, 0xBF⟩ bs

end ChainSync.Utf8
