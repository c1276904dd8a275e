import ChainSync.Chain.Block
import ChainSync.Net.SocketAddress

/-!
# Messages

The closed set of messages a node understands, with `unknown` for the
rest. A message travels as a packet: a command and the payload that the
command gives meaning to.
-/

namespace ChainSync

/-- The most addresses in one `addr` message. -/
def maxAddresses : Nat := 200

/-- The most hashes in one `inv` or `getdata` message. -/
def maxInventory : Nat := 500

/-- The most headers in one `headers` message. -/
def maxHeaders : Nat := 2000

/-- The most hashes that say where `getheaders` or `getblocks` starts. -/
def maxLocator : Nat := 64

/-- The service bit of nodes that hold the chain. -/
def fullNode : UInt64 := 1

/-! ## Commands -/

inductive Command
  | version
  | verack
  | addr
  | getaddr
  | inv
  | getdata
  | getheaders
  | headers
  | getblocks
  | block
  | tx
  | other (name : String)
deriving DecidableEq

namespace Command

def name : Command → String
  | version => "version"
  | verack => "verack"
  | addr => "addr"
  | getaddr => "getaddr"
  | inv => "inv"
  | getdata => "getdata"
  | getheaders => "getheaders"
  | headers => "headers"
  | getblocks => "getblocks"
  | block => "block"
  | tx => "tx"
  | other name => name

def ofName (s : String) : Command :=
  if s = "version" then version
  else if s = "verack" then verack
  else if s = "addr" then addr
  else if s = "getaddr" then getaddr
  else if s = "inv" then inv
  else if s = "getdata" then getdata
  else if s = "getheaders" then getheaders
  else if s = "headers" then headers
  else if s = "getblocks" then getblocks
  else if s = "block" then block
  else if s = "tx" then tx
  else other s

def isKnown : Command → Bool
  | other _ => false
  | _ => true

def describe : Command → String
  | version => "Version"
  | verack => "Verack"
  | addr => "Addr"
  | getaddr => "GetAddr"
  | inv => "Inv"
  | getdata => "GetData"
  | getheaders => "GetHeaders"
  | headers => "Headers"
  | getblocks => "GetBlocks"
  | block => "Block"
  | tx => "Tx"
  | other name => s!"Other({Text.quote name})"

end Command

/-! ## Payloads -/

structure Version where
  version : UInt32
  services : UInt64
  timestamp : UInt32
  /-- Port the sender listens on, 0 if none. -/
  port : UInt16
  /-- Drawn once per process, so that a node notices when it reached itself. -/
  nonce : UInt32
  userAgent : String
  startHeight : UInt32
  relay : Bool
deriving DecidableEq, Inhabited

instance : Codec Version where
  encode v :=
    Bytes.ofNatLE 4 v.version.toNat ++ Bytes.ofNatLE 8 v.services.toNat ++
      Bytes.ofNatLE 4 v.timestamp.toNat ++ Bytes.ofNatLE 2 v.port.toNat ++
      Bytes.ofNatLE 4 v.nonce.toNat ++ VarString.encode v.userAgent ++
      Bytes.ofNatLE 4 v.startHeight.toNat ++ [if v.relay then 1 else 0]
  decode := do
    Decoder.need (4 + 8 + 4 + 2 + 4) "version"
    let version ← Decoder.u32
    let services ← Decoder.u64
    let timestamp ← Decoder.u32
    let port ← Decoder.u16
    let nonce ← Decoder.u32
    let userAgent ← VarString.decode
    Decoder.need 5 "version"
    let startHeight ← Decoder.u32
    let relay ← Decoder.byte
    return { version, services, timestamp, port, nonce, userAgent, startHeight, relay := relay != 0 }

/-- An address with the time it was last seen. -/
structure AddressEntry where
  timestamp : UInt32
  services : UInt64
  address : SocketAddress
deriving DecidableEq, Inhabited

namespace AddressEntry

/-- The sixteen bytes of an address; IPv4 travels mapped. -/
def wireIp : Ip → Ipv6
  | .v4 ip => ip.toMapped
  | .v6 ip => ip

def ofWireIp (ip : Ipv6) : Ip :=
  match ip.mapped? with
  | some v4 => .v4 v4
  | none => .v6 ip

instance : Codec AddressEntry where
  encode e :=
    Bytes.ofNatLE 4 e.timestamp.toNat ++ Bytes.ofNatLE 8 e.services.toNat ++
      (wireIp e.address.ip).bytes ++ Bytes.ofNatBE 2 e.address.port.toNat
  decode := do
    Decoder.need (4 + 8 + 16 + 2) "network address"
    let timestamp ← Decoder.u32
    let services ← Decoder.u64
    let ip ← Decoder.fixed 16
    let port ← Decoder.port
    return { timestamp, services, address := .ofIp (ofWireIp ip) port }

end AddressEntry

inductive InventoryKind
  | tx
  | block
  | consensus
deriving DecidableEq, Inhabited

namespace InventoryKind

def toByte : InventoryKind → UInt8
  | tx => 0x01
  | block => 0x02
  | consensus => 0xE0

def name : InventoryKind → String
  | tx => "tx"
  | block => "block"
  | consensus => "consensus"

def ofByte? (b : UInt8) : Option InventoryKind :=
  if b = 0x01 then some tx
  else if b = 0x02 then some block
  else if b = 0xE0 then some consensus
  else none

end InventoryKind

/-- Things named by their hashes, announced or asked for. -/
structure Inventory where
  kind : InventoryKind
  hashes : List Hash
deriving DecidableEq, Inhabited

instance : Codec Inventory where
  encode i := i.kind.toByte :: VarList.encode i.hashes
  decode := do
    Decoder.need 1 "inv"
    let b ← Decoder.byte
    match InventoryKind.ofByte? b with
    | none => Decoder.refuse (.inventoryKind b)
    | some kind =>
      let hashes ← VarList.decode maxInventory
      return { kind, hashes }

/-- A stretch of the chain: behind the first known of `start`, up to `stop`. -/
structure Locator where
  start : List Hash
  /-- Zero asks for as much as allowed. -/
  stop : Hash
deriving DecidableEq, Inhabited

namespace Locator

def behind (h : Hash) : Locator :=
  ⟨[h], Hash.zero⟩

instance : Codec Locator where
  encode l := VarList.encode l.start ++ l.stop.bytes
  decode := do
    let start ← VarList.decode maxLocator
    let stop ← Codec.decode
    return { start, stop }

end Locator

/-- A header in a list of headers: an empty transaction count follows it. -/
structure HeaderEntry where
  header : Header
deriving DecidableEq

instance : Codec HeaderEntry where
  encode e := Codec.encode e.header ++ [0]
  decode := do
    let header ← Codec.decode
    Decoder.need 1 "header entry"
    let count ← Decoder.byte
    if count ≠ 0 then
      Decoder.refuse (.entryTransactions count)
    return ⟨header⟩

/-! ## Messages -/

structure Packet where
  command : String
  payload : Bytes
deriving DecidableEq, Inhabited

inductive Message
  | version (v : Version)
  | verack
  | addr (entries : List AddressEntry)
  | getaddr
  | inv (inventory : Inventory)
  | getdata (inventory : Inventory)
  | getheaders (locator : Locator)
  | headers (headers : List Header)
  | getblocks (locator : Locator)
  | block (block : Block)
  | tx (tx : Transaction)
  | unknown (command : String) (payload : Bytes)
deriving DecidableEq, Inhabited

namespace Message

def command : Message → Command
  | version _ => .version
  | verack => .verack
  | addr _ => .addr
  | getaddr => .getaddr
  | inv _ => .inv
  | getdata _ => .getdata
  | getheaders _ => .getheaders
  | headers _ => .headers
  | getblocks _ => .getblocks
  | block _ => .block
  | tx _ => .tx
  | unknown command _ => .other command

def payload : Message → Bytes
  | version v => Codec.encode v
  | verack | getaddr => []
  | addr entries => VarList.encode entries
  | inv inventory | getdata inventory => Codec.encode inventory
  | getheaders locator | getblocks locator => Codec.encode locator
  | headers hs => VarList.encode (hs.map HeaderEntry.mk)
  | block b => Codec.encode b
  | tx t => Codec.encode t
  | unknown _ payload => payload

def toPacket (m : Message) : Packet :=
  ⟨m.command.name, m.payload⟩

/-- A payload for commands that take none. -/
def empty (payload : Bytes) (what : String) : Except Stop Unit :=
  if payload.isEmpty then .ok () else .error (.refused (.payloadNotEmpty what))

/-- Reads a list that fills the payload. -/
def listOf (α : Type) [Codec α] (max : Nat) (payload : Bytes) : Except Stop (List α) := do
  let (xs, rest) ← (VarList.decode max : Decoder (List α)).run payload
  let _ ← Decoder.finish.run rest
  return xs

def decode (p : Packet) : Except Stop Message :=
  match Command.ofName p.command with
  | .version => version <$> Codec.ofBytes Version p.payload
  | .verack => do
    empty p.payload "verack"
    return verack
  | .getaddr => do
    empty p.payload "getaddr"
    return getaddr
  | .addr => addr <$> listOf AddressEntry maxAddresses p.payload
  | .inv => inv <$> Codec.ofBytes Inventory p.payload
  | .getdata => getdata <$> Codec.ofBytes Inventory p.payload
  | .getheaders => getheaders <$> Codec.ofBytes Locator p.payload
  | .getblocks => getblocks <$> Codec.ofBytes Locator p.payload
  | .headers => (fun es => headers (es.map HeaderEntry.header)) <$> listOf HeaderEntry maxHeaders p.payload
  | .block => block <$> Codec.ofBytes Block p.payload
  | .tx => tx <$> Codec.ofBytes Transaction p.payload
  | .other command => return unknown command p.payload

end Message

end ChainSync
