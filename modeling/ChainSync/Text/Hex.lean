import ChainSync.Bytes
import ChainSync.Text.Quoted

/-!
# Hexadecimal text

Bytes are written as two lower-case digits each and read in either case.
Reading looks at the bytes of a text: their number is checked first, then
each of them from the left.
-/

namespace ChainSync.Hex

def digit (n : Nat) : Char :=
  if n < 10 then Char.ofNat (48 + n) else Char.ofNat (87 + n)

def encodeByte (b : UInt8) : List Char :=
  [digit (b.toNat / 16), digit (b.toNat % 16)]

def encode (bs : Bytes) : String :=
  String.ofList (bs.flatMap encodeByte)

def digitValue? (b : UInt8) : Option Nat :=
  if 48 ≤ b ∧ b ≤ 57 then some (b.toNat - 48)
  else if 97 ≤ b ∧ b ≤ 102 then some (b.toNat - 87)
  else if 65 ≤ b ∧ b ≤ 70 then some (b.toNat - 55)
  else none

inductive Fault
  | oddLength
  | invalidDigit (byte : UInt8) (position : Nat)
deriving DecidableEq

def Fault.message : Fault → String
  | .oddLength => "Odd number of digits"
  | .invalidDigit byte position =>
    s!"Invalid character {Text.quoteChar (Char.ofNat byte.toNat)} at position {position}"

def decodeFrom (position : Nat) : Bytes → Except Fault Bytes
  | [] => .ok []
  | [_] => .error .oddLength
  | hi :: lo :: rest =>
    match digitValue? hi, digitValue? lo with
    | none, _ => .error (.invalidDigit hi position)
    | _, none => .error (.invalidDigit lo (position + 1))
    | some h, some l => (decodeFrom (position + 2) rest).map (UInt8.ofNat (16 * h + l) :: ·)

def decode (s : String) : Except Fault Bytes :=
  if s.utf8ByteSize % 2 = 1 then .error .oddLength else decodeFrom 0 (Bytes.ofString s)

end ChainSync.Hex
