import ChainSync.Wire.Malformed

/-!
# Decoders

A decoder takes what it reads off the front of a byte string. It stops in
one of two ways: it refuses the bytes, or it runs over their end. Reads of
a fixed size are partial; `need` is the guard to put in front of them, and
a decoder is safe when every read stands behind a guard wide enough.
-/

namespace ChainSync

inductive Stop
  | refused (cause : Malformed)
  /-- A read wanted more bytes than were left. -/
  | overrun
deriving DecidableEq

abbrev Decoder (α : Type) := StateT Bytes (Except Stop) α

namespace Decoder

def refuse {α : Type} (cause : Malformed) : Decoder α :=
  fun _ => .error (.refused cause)

/-- Refuses unless `n` bytes are left. -/
def need (n : Nat) (what : String) : Decoder Unit := fun bs =>
  if bs.hasAtLeast n then .ok ((), bs) else .error (.refused (.truncated what n bs.length))

/-- The next `n` bytes. -/
def bytes (n : Nat) : Decoder Bytes := fun bs =>
  if bs.hasAtLeast n then .ok (bs.take n, bs.drop n) else .error .overrun

def byte : Decoder UInt8
  | [] => .error .overrun
  | b :: bs => .ok (b, bs)

def natLE (width : Nat) : Decoder Nat := do
  return (← bytes width).toNatLE

def u16 : Decoder UInt16 := do
  return (← natLE 2).toUInt16

def u32 : Decoder UInt32 := do
  return (← natLE 4).toUInt32

def u64 : Decoder UInt64 := do
  return (← natLE 8).toUInt64

/-- A port, which travels most significant byte first. -/
def port : Decoder UInt16 := do
  return (← bytes 2).toNatBE.toUInt16

def fixed (n : Nat) : Decoder (FixedBytes n) := fun bs =>
  if h : (bs.take n).length = n then .ok (⟨bs.take n, h⟩, bs.drop n) else .error .overrun

/-- Refuses what is left over behind a complete value. -/
def finish : Decoder Unit := fun bs =>
  if bs.isEmpty then .ok ((), bs) else .error (.refused (.trailing bs.length))

/-- `n` values in a row, behind those read before (latest first). -/
def repeatN {α : Type} (item : Decoder α) : Nat → List α → Decoder (List α)
  | 0, acc => pure acc.reverse
  | n + 1, acc => do
    let x ← item
    repeatN item n (x :: acc)

end Decoder

/-! ## Values with a wire form -/

class Codec (α : Type) where
  encode : α → Bytes
  decode : Decoder α

namespace Codec

/-- Reads a value that fills the byte string. -/
def ofBytes (α : Type) [Codec α] (bs : Bytes) : Except Stop α := do
  let (x, rest) ← (Codec.decode : Decoder α).run bs
  let _ ← Decoder.finish.run rest
  return x

end Codec

end ChainSync
