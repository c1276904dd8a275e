import ChainSync.Wire.Decoder

/-!
# Variable-length integers and what they count

Values below `0xFD` take one byte; larger ones follow a marker byte in two,
four or eight. Byte strings, texts and lists carry their length in this
form. Writing takes the shortest form; reading accepts any.
-/

namespace ChainSync

/-- The longest byte string that a length may announce. -/
def maxVarLength : Nat := 0x02000000

namespace VarInt

def width (v : UInt64) : Nat :=
  if v.toNat ≤ 0xFC then 1
  else if v.toNat ≤ 0xFFFF then 3
  else if v.toNat ≤ 0xFFFFFFFF then 5
  else 9

def encode (v : UInt64) : Bytes :=
  if v.toNat ≤ 0xFC then [UInt8.ofNat v.toNat]
  else if v.toNat ≤ 0xFFFF then 0xFD :: Bytes.ofNatLE 2 v.toNat
  else if v.toNat ≤ 0xFFFFFFFF then 0xFE :: Bytes.ofNatLE 4 v.toNat
  else 0xFF :: Bytes.ofNatLE 8 v.toNat

/-- How many bytes follow a marker byte, if it is one. -/
def payloadWidth? (marker : UInt8) : Option Nat :=
  if marker = 0xFD then some 2
  else if marker = 0xFE then some 4
  else if marker = 0xFF then some 8
  else none

def decode : Decoder UInt64 := do
  Decoder.need 1 "var-int"
  let marker ← Decoder.byte
  match payloadWidth? marker with
  | none => return marker.toUInt64
  | some n =>
    Decoder.need n "var-int"
    return (← Decoder.natLE n).toUInt64

/-- A value used as a length or count, refused above `max`. -/
def decodeLength (max : Nat) : Decoder Nat := do
  let v ← decode
  if max < v.toNat then
    Decoder.refuse (.lengthLimit v.toNat max)
  return v.toNat

end VarInt

/-! ## Byte strings, texts and lists -/

namespace VarBytes

def encode (bs : Bytes) : Bytes :=
  VarInt.encode bs.length.toUInt64 ++ bs

def decode : Decoder Bytes := do
  let n ← VarInt.decodeLength maxVarLength
  Decoder.need n "var-bytes"
  Decoder.bytes n

end VarBytes

namespace VarString

def encode (s : String) : Bytes :=
  VarBytes.encode (Bytes.ofString s)

def decode : Decoder String := do
  let raw ← VarBytes.decode
  match raw.toString? with
  | some s => return s
  | none => Decoder.refuse (.utf8 ((Utf8.fault? raw).getD (.incomplete raw.length)))

end VarString

namespace VarList

variable {α : Type} [Codec α]

def encode (xs : List α) : Bytes :=
  VarInt.encode xs.length.toUInt64 ++ xs.flatMap Codec.encode

/-- A list of at most `max` values. -/
def decode (max : Nat) : Decoder (List α) := do
  let n ← VarInt.decodeLength max
  Decoder.repeatN Codec.decode n []

end VarList

end ChainSync
