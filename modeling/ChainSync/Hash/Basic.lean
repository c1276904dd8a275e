import ChainSync.Bytes
import ChainSync.Text.Hex

/-!
# Hashes

Headers, blocks and transactions are identified by 32-byte hashes. What
computes them is a parameter, the `Digest` instance, so that statements
about the node hold for every hash function and name exactly the
collisions they exclude.
-/

namespace ChainSync

abbrev Hash := FixedBytes 32

/-- The hash function that every identity and checksum is computed with. -/
class Digest where
  digest : Bytes → Hash

export Digest (digest)

namespace Hash

/-- Stands for "unknown" where a hash is asked for by height. -/
def zero : Hash := FixedBytes.zero 32

def toText (h : Hash) : String :=
  Hex.encode h.bytes

def describe (h : Hash) : String :=
  s!"Hash256({h.toText})"

inductive Fault
  | hex (fault : Hex.Fault)
  | size (actual : Nat)
deriving DecidableEq

def Fault.message : Fault → String
  | .hex fault => s!"invalid hash hex: {fault.message}"
  | .size actual => s!"hash must be 32 bytes, got {actual}"

/-- Drops every leading `0x`. -/
def dropMarks : List Char → List Char
  | '0' :: 'x' :: rest => dropMarks rest
  | cs => cs

/-- Reads a hash written in hexadecimal, with any number of `0x` in front. -/
def ofText (s : String) : Except Fault Hash := do
  let bytes ← (Hex.decode (String.ofList (dropMarks s.toList))).mapError .hex
  match FixedBytes.ofBytes? 32 bytes with
  | some h => .ok h
  | none => .error (.size bytes.length)

end Hash

end ChainSync
