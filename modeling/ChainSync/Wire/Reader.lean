import ChainSync.Wire.Frame

/-!
# Reading frames off a stream

A reader buffers what arrives and hands out one packet at a time. A failing
frame ends the stream once: the next look says that it is over, and only
bytes that arrive later make the reader look at its buffer again.
-/

namespace ChainSync

inductive ReaderState
  /-- The buffer holds no whole frame. -/
  | hungry
  /-- The buffer may hold a frame. -/
  | filled
  /-- The stream has ended, and what is left of it has to make whole frames. -/
  | closing
  /-- The stream has ended and that has been said. -/
  | closed
  /-- A failure has been handed out, and the end is due next. -/
  | failed (ended : Bool)
deriving DecidableEq

structure FrameReader where
  magic : UInt32
  buffer : Bytes
  state : ReaderState

/-- What a look at a stream shows. -/
inductive Arrival
  | waiting
  | packet (p : Packet)
  | failure (e : NetError)
  | ended

namespace FrameReader

def empty (magic : UInt32) : FrameReader :=
  ⟨magic, [], .hungry⟩

def feed (bs : Bytes) (r : FrameReader) : FrameReader :=
  { r with buffer := r.buffer ++ bs, state := .filled }

/-- The end of the stream has been read. -/
def close (r : FrameReader) : FrameReader × Arrival :=
  if r.buffer.isEmpty then ({ r with state := .closed }, .ended)
  else ({ r with state := .failed true }, .failure (.io "Other"))

/-- Looks for a packet in what has been fed. -/
def poll [Digest] (r : FrameReader) : FrameReader × Arrival :=
  match r.state with
  | .hungry | .closed => (r, .waiting)
  | .failed ended => ({ r with state := if ended then .closed else .hungry }, .ended)
  | .filled =>
    match Frame.next r.magic r.buffer with
    | .wait => ({ r with state := .hungry }, .waiting)
    | .packet p rest => ({ r with buffer := rest }, .packet p)
    | .fail e rest => ({ r with buffer := rest, state := .failed false }, .failure e)
  | .closing =>
    match Frame.next r.magic r.buffer with
    | .wait => r.close
    | .packet p rest => ({ r with buffer := rest }, .packet p)
    | .fail e rest => ({ r with buffer := rest, state := .failed true }, .failure e)

theorem poll_packet_length [Digest] {r r' : FrameReader} {p : Packet} (h : r.poll = (r', .packet p)) :
    r'.buffer.length < r.buffer.length := by
  unfold poll at h
  cases hstate : r.state with
  | hungry | closed | failed ended => simp [hstate] at h
  | filled =>
    cases hnext : Frame.next r.magic r.buffer with
    | wait | fail => simp [hstate, hnext] at h
    | packet q rest =>
      obtain ⟨rfl, -⟩ : { r with buffer := rest } = r' ∧ q = p := by simpa [hstate, hnext] using h
      exact Frame.next_packet_length hnext
  | closing =>
    cases hnext : Frame.next r.magic r.buffer with
    | wait => cases hempty : r.buffer.isEmpty <;> simp [hstate, hnext, close, hempty] at h
    | fail => simp [hstate, hnext] at h
    | packet q rest =>
      obtain ⟨rfl, -⟩ : { r with buffer := rest } = r' ∧ q = p := by simpa [hstate, hnext] using h
      exact Frame.next_packet_length hnext

/-- The end of the stream is in sight. -/
def atEnd (r : FrameReader) : FrameReader :=
  { r with state := .closing }

/-- Looks once more when there is nothing else to read than the end of the stream. -/
def pollAtEnd [Digest] (r : FrameReader) : FrameReader × Arrival :=
  match r.state with
  | .closed => (r, .ended)
  | _ => { r with state := .closing }.poll

/-- Reading the stream itself failed. -/
def abort (e : NetError) (r : FrameReader) : FrameReader × Arrival :=
  ({ r with state := .failed (r.state == .closed) }, .failure e)

end FrameReader

end ChainSync
