import ChainSync.Peer.Exchange

/-!
# Two ends of one stream

What one end writes arrives at the other. An end that is closed or dropped
is gone, and no operation applies to it any more.
-/

namespace ChainSync

inductive Side
  | left
  | right
deriving DecidableEq

def Side.other : Side → Side
  | left => right
  | right => left

structure Link where
  left : Option Connection
  right : Option Connection

namespace Link

def connection? (side : Side) (l : Link) : Option Connection :=
  match side with
  | .left => l.left
  | .right => l.right

def set (side : Side) (c : Option Connection) (l : Link) : Link :=
  match side with
  | .left => { l with left := c }
  | .right => { l with right := c }

def deliver (side : Side) (bs : Bytes) (l : Link) : Link :=
  l.set side ((l.connection? side).map (·.deliver bs))

def send [Digest] (side : Side) (m : Message) (l : Link) : Option (Link × Except NetError Unit) :=
  (l.connection? side).map fun c =>
    match c.send m with
    | (c, .ok bs) => ((l.set side c).deliver side.other bs, .ok ())
    | (c, .error e) => (l.set side c, .error e)

def receive [Digest] (side : Side) (l : Link) :
    Option (Link × Except NetError (Message × Packet)) :=
  (l.connection? side).map fun c => c.receive.map (fun c => l.set side (some c)) id

def split (side : Side) (l : Link) : Link :=
  l.set side ((l.connection? side).map ({ · with split := true }))

/-- An end goes away without a word. -/
def drop (side : Side) (l : Link) : Link :=
  match l.connection? side with
  | none => l
  | some c =>
    (l.set side none).set side.other ((l.connection? side.other).map (·.loseRemote (!c.arrived.isEmpty)))

def close (side : Side) (l : Link) : Option (Link × Except NetError Unit) :=
  (l.connection? side).map fun c => (l.drop side, c.close)

/-- One end runs the version exchange while the other does nothing. -/
def greet [Digest] (side : Side) (own : Version) (l : Link) :
    Option (Link × Except NetError Version) :=
  match l.connection? side with
  | none => none
  | some c =>
    if c.split then none
    else
      let (x, bs) := Exchange.run own c
      some ((l.set side x.connection).deliver side.other bs, x.result)

def greetBoth [Digest] (own own' : Version) (l : Link) :
    Option (Link × Except NetError Version × Except NetError Version) :=
  match l.left, l.right with
  | some c, some c' =>
    if c.split || c'.split then none
    else
      let (x, y) := Exchange.runBoth own own' c c'
      some (⟨x.connection, y.connection⟩, x.result, y.result)
  | _, _ => none

end Link

end ChainSync
