import ChainSync.Wire.Message
import ChainSync.Wire.Error

/-!
# Frames

On a stream every packet stands in a frame: the network's magic number,
the command padded with zeros to twelve bytes, the payload's length and
checksum, then the payload. `Frame.next` takes frames off a growing buffer
and `Frame.decode` reads exactly one.
-/

namespace ChainSync

def mainnetMagic : UInt32 := 7630401

def testnetMagic : UInt32 := 1953787457

/-- The longest payload that a frame may carry. -/
def maxPayload : Nat := 0x02000000

namespace Frame

def headSize : Nat := 24

def commandSize : Nat := 12

/-- The first four bytes of the payload's hash. -/
def checksum [Digest] (payload : Bytes) : Bytes :=
  (digest payload).bytes.take 4

/-- Printable ASCII other than the space. -/
def isGraphic (b : UInt8) : Bool :=
  33 ≤ b && b ≤ 126

/-- The first twelve bytes of a command, filled up with zeros. -/
def commandField (command : String) : Bytes :=
  let name := (Bytes.ofString command).take commandSize
  name ++ List.replicate (commandSize - name.length) 0

/-- Reads a command field: a graphic name, then nothing but zeros. -/
def commandOfField (field : Bytes) : Except NetError String :=
  let name := field.takeWhile (· != 0)
  if (field.drop name.length).any (· != 0) then .error (.invalidMessage .commandPadding)
  else if name.isEmpty || !name.all isGraphic then .error (.invalidMessage (.commandBytes field))
  else .ok (String.ofList (name.map fun b => Char.ofNat b.toNat))

def checkSum [Digest] (payload expected : Bytes) : Except NetError Unit :=
  let actual := checksum payload
  if actual = expected then .ok ()
  else .error (.checksumMismatch (Hex.encode expected) (Hex.encode actual))

def encode [Digest] (magic : UInt32) (p : Packet) : Except NetError Bytes :=
  let size := p.payload.length
  if maxPayload < size then .error (.messageTooLarge size maxPayload)
  else .ok (Bytes.ofNatLE 4 magic.toNat ++ commandField p.command ++ Bytes.ofNatLE 4 size ++
    checksum p.payload ++ p.payload)

/-! ## One frame -/

/-- The fields in front of a payload, uninterpreted. -/
structure Head where
  magic : UInt32
  commandField : Bytes
  length : Nat
  checksum : Bytes

def Head.ofBytes (bs : Bytes) : Head where
  magic := (Bytes.toNatLE (bs.take 4)).toUInt32
  commandField := (bs.drop 4).take 12
  length := Bytes.toNatLE ((bs.drop 16).take 4)
  checksum := (bs.drop 20).take 4

/-- Reads a byte string that is precisely one frame. -/
def decode [Digest] (bs : Bytes) : Except NetError (UInt32 × Packet) := do
  if bs.length < headSize then
    throw (.lengthMismatch headSize bs.length)
  let head := Head.ofBytes bs
  let command ← commandOfField head.commandField
  let payload := bs.drop headSize
  if payload.length ≠ head.length then
    throw (.lengthMismatch head.length payload.length)
  checkSum payload head.checksum
  return (head.magic, ⟨command, payload⟩)

/-! ## A stream of frames -/

/-- What the front of a buffer turns out to be, with the buffer that remains. -/
inductive Step
  /-- More bytes are needed to tell. -/
  | wait
  | packet (p : Packet) (rest : Bytes)
  | fail (e : NetError) (rest : Bytes)

/-- The fields in front are judged as soon as they are there. Only a checksum failure consumes its
frame; the other failures leave the buffer as it is. -/
def next [Digest] (magic : UInt32) (buffer : Bytes) : Step :=
  if ¬ buffer.hasAtLeast headSize then .wait
  else
    let head := Head.ofBytes buffer
    if head.magic ≠ magic then .fail (.magicMismatch magic head.magic) buffer
    else
      match commandOfField head.commandField with
      | .error e => .fail e buffer
      | .ok command =>
        if maxPayload < head.length then .fail (.messageTooLarge head.length maxPayload) buffer
        else if ¬ buffer.hasAtLeast (headSize + head.length) then .wait
        else
          let payload := (buffer.drop headSize).take head.length
          let rest := buffer.drop (headSize + head.length)
          match checkSum payload head.checksum with
          | .error e => .fail e rest
          | .ok () => .packet ⟨command, payload⟩ rest

theorem next_packet_length [Digest] {magic : UInt32} {buffer rest : Bytes} {p : Packet}
    (h : next magic buffer = .packet p rest) : rest.length < buffer.length := by
  unfold next at h
  split at h
  · cases h
  · rename_i hb
    have hsize : headSize ≤ buffer.length := (Bytes.hasAtLeast_iff _ _).1 (by simpa using hb)
    dsimp only at h
    split at h
    · cases h
    split at h
    · cases h
    split at h
    · cases h
    split at h
    · cases h
    split at h
    · cases h
    · cases h
      simp only [List.length_drop]
      simp only [headSize] at hsize ⊢
      omega

/-- How a buffer's frames end: all that is left is unfinished, or a failure. -/
structure Drained where
  packets : List Packet
  error : Option NetError
  rest : Bytes

/-- Takes frames off the buffer until more bytes are needed or one fails. -/
def drain [Digest] (magic : UInt32) (buffer : Bytes) : Drained :=
  match _h : next magic buffer with
  | .wait => ⟨[], none, buffer⟩
  | .fail e rest => ⟨[], some e, rest⟩
  | .packet p rest =>
    let d := drain magic rest
    { d with packets := p :: d.packets }
termination_by buffer.length
decreasing_by exact next_packet_length (by assumption)

end Frame

end ChainSync
