import ChainSync.Assoc
import ChainSync.Peer.Basic

/-!
# The address book

Where every address of the pool stands: queued for a dial, known and
healthy, bad, or the listen address of a connected peer. An address that
is connected keeps that standing until its peer is unlinked.
-/

namespace ChainSync

structure AddressBook where
  queued : List SocketAddress
  bad : List SocketAddress
  /-- Each with whether it passed a quality probe. -/
  known : List (SocketAddress × Bool)
  connected : List (SocketAddress × PeerId)
deriving DecidableEq, Inhabited

namespace AddressBook

def empty : AddressBook := ⟨[], [], [], []⟩

def isConnected (a : SocketAddress) (b : AddressBook) : Bool :=
  Assoc.contains a b.connected

def isQueued (a : SocketAddress) (b : AddressBook) : Bool :=
  b.queued.contains a

def isTracked (a : SocketAddress) (b : AddressBook) : Bool :=
  b.queued.contains a || b.bad.contains a || Assoc.contains a b.known || b.isConnected a

def drop (a : SocketAddress) (addresses : List SocketAddress) : List SocketAddress :=
  addresses.filter (· ≠ a)

def markBad (a : SocketAddress) (b : AddressBook) : AddressBook :=
  if b.isConnected a then b
  else { b with queued := drop a b.queued, known := Assoc.erase a b.known, bad := b.bad.insert a }

/-- A passed probe is not forgotten. -/
def markKnown (a : SocketAddress) (probed : Bool) (b : AddressBook) : AddressBook :=
  if b.isConnected a then b
  else
    { b with
      queued := drop a b.queued
      bad := drop a b.bad
      known := Assoc.set a ((Assoc.get? a b.known).getD false || probed) b.known }

def park (a : SocketAddress) (b : AddressBook) : AddressBook :=
  { b with known := Assoc.set a false b.known }

/-- A known address to promote, one that passed its probe if there is any. -/
def pickKnown? (b : AddressBook) : Option SocketAddress :=
  ((b.known.find? (·.2)).or b.known.head?).map (·.1)

def enqueue (a : SocketAddress) (b : AddressBook) : AddressBook :=
  { b with known := Assoc.erase a b.known, bad := drop a b.bad, queued := b.queued.insert a }

/-- Gives an address to the peer that is reached there. -/
def link (a : SocketAddress) (id : PeerId) (b : AddressBook) : AddressBook where
  queued := drop a b.queued
  known := Assoc.erase a b.known
  bad := drop a b.bad
  connected := Assoc.set a id b.connected

/-- Takes an address from a peer, if it is this one's. -/
def unlink (a : SocketAddress) (id : PeerId) (b : AddressBook) : AddressBook :=
  if Assoc.get? a b.connected = some id then { b with connected := Assoc.erase a b.connected } else b

def recycle (b : AddressBook) : AddressBook :=
  { b with bad := [], known := b.bad.foldl (fun known a => Assoc.set a false known) b.known }

end AddressBook

end ChainSync
