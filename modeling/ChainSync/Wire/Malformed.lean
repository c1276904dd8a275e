import ChainSync.Hash.Basic
import ChainSync.Text.Utf8

/-!
# Malformed data

Every reason for which received bytes are refused, with its wording.
-/

namespace ChainSync

inductive Malformed
  /-- Fewer than `need` bytes are left for `what`. -/
  | truncated (what : String) (need left : Nat)
  /-- A length or count above what its place admits. -/
  | lengthLimit (length max : Nat)
  | utf8 (fault : Utf8.Fault)
  | trailing (count : Nat)
  | hash (fault : Hash.Fault)
  | witnessMarker (byte : UInt8)
  | inventoryKind (byte : UInt8)
  | entryTransactions (byte : UInt8)
  | payloadNotEmpty (what : String)
  | commandPadding
  | commandBytes (field : Bytes)
  /-- Any other reason, in the words of whoever refuses. -/
  | other (text : String)
deriving DecidableEq

/-- A number as `0x` and at least `width` lower-case hexadecimal digits. -/
def hexNumber (width n : Nat) : String :=
  let digits := Nat.toDigits 16 n
  "0x" ++ String.ofList (List.replicate (width - digits.length) '0' ++ digits)

def Malformed.message : Malformed → String
  | .truncated what need left => s!"{what} truncated: need {need} bytes, have {left}"
  | .lengthLimit length max => s!"length {length} exceeds limit {max}"
  | .utf8 fault => s!"invalid utf-8 string: {fault.message}"
  | .trailing count => s!"{count} trailing bytes"
  | .hash fault => fault.message
  | .witnessMarker byte => s!"header witness marker must be 1, got {byte.toNat}"
  | .inventoryKind byte => s!"Unknown inventory type: {hexNumber 2 byte.toNat}"
  | .entryTransactions byte => s!"header entry must carry zero transactions, got {byte.toNat}"
  | .payloadNotEmpty what => s!"{what} must have an empty payload"
  | .commandPadding => "Command field is not zero padded"
  | .commandBytes field => s!"Invalid command bytes: {Hex.encode field}"
  | .other text => text

end ChainSync
