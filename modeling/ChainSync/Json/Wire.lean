import ChainSync.Json.Basic
import ChainSync.Wire.Frame

/-!
# Structured forms of what travels

Bytes are hexadecimal text. They are also read from a list of parts, where
a part may say how often it is repeated; a field that is absent reads as
zero or empty.
-/

namespace ChainSync

namespace Json

/-! ## Bytes and hashes -/

def ofBytes (bs : Bytes) : Json :=
  text (Hex.encode bs)

/-- The bytes of a text, none if it is no hexadecimal. -/
def unhex (s : String) : Bytes :=
  (Hex.decode s).toOption.getD []

/-- Puts `n` copies of `unit` in front. -/
def copies (unit : Bytes) : Nat → Bytes → Bytes
  | 0, acc => acc
  | n + 1, acc => copies unit n (unit ++ acc)

/-- Puts a part in front of the parts behind it. -/
def prepend (part : Json) (acc : Bytes) : Bytes :=
  match part with
  | text s => unhex s ++ acc
  | part => copies (unhex (part.str "hex")) (part.natOr "times" 1) acc

def toBytes : Json → Bytes
  | list parts => parts.foldr prepend []
  | j => prepend j []

def bytes (j : Json) (name : String) : Bytes :=
  (j.field name).toBytes

def toHash (j : Json) : Hash :=
  (FixedBytes.ofBytes? 32 j.toBytes).getD Hash.zero

def hash (j : Json) (name : String) : Hash :=
  (j.field name).toHash

def toTx (j : Json) : Transaction :=
  ⟨j.toBytes⟩

/-- A rate as its bit pattern or as a whole number. -/
def toRate : Json → Rate
  | text s => ⟨(Bytes.toNatBE (unhex s)).toUInt64⟩
  | j => .ofFloat (Float.ofInt (j.int?.getD 0))

instance : ToJson Hash := ⟨fun h => text h.toText⟩
instance : ToJson SocketAddress := ⟨fun a => text a.toText⟩
instance : ToJson Transaction := ⟨fun t => ofBytes t.data⟩

/-! ## Headers and blocks -/

instance : ToJson Witness :=
  ⟨fun w => record [("invocation", ofBytes w.invocation), ("verification", ofBytes w.verification)]⟩

instance [Digest] : ToJson Header where
  toJson h := record
    [("version", toJson h.version), ("prev", toJson h.prevHash), ("merkle", toJson h.merkleRoot),
     ("timestamp", toJson h.timestamp), ("index", toJson h.index),
     ("consensus_data", toJson h.consensusData), ("next_consensus", ofBytes h.nextConsensus.bytes),
     ("invocation", ofBytes h.witness.invocation), ("verification", ofBytes h.witness.verification),
     ("hash", toJson h.hash)]

def toHeader (j : Json) : Header where
  version := (j.nat "version").toUInt32
  prevHash := j.hash "prev"
  merkleRoot := j.hash "merkle"
  timestamp := (j.nat "timestamp").toUInt32
  index := (j.nat "index").toUInt32
  consensusData := (j.nat "consensus_data").toUInt64
  nextConsensus := (FixedBytes.ofBytes? 20 (j.bytes "next_consensus")).getD (FixedBytes.zero 20)
  witness := ⟨j.bytes "invocation", j.bytes "verification"⟩

def blockFields [Digest] (b : Block) : List (String × Json) :=
  [("header", toJson b.header), ("txs", toJson b.transactions)]

instance [Digest] : ToJson Block := ⟨fun b => record (blockFields b)⟩

def toBlock (j : Json) : Block :=
  ⟨(j.field "header").toHeader, (j.listOf "txs").map toTx⟩

/-! ## Messages -/

def versionFields (v : Version) : List (String × Json) :=
  [("version", toJson v.version), ("services", toJson v.services), ("timestamp", toJson v.timestamp),
   ("port", toJson v.port), ("nonce", toJson v.nonce), ("user_agent", toJson v.userAgent),
   ("start_height", toJson v.startHeight), ("relay", toJson v.relay)]

instance : ToJson Version := ⟨fun v => record (versionFields v)⟩

def toVersion (j : Json) : Version where
  version := (j.nat "version").toUInt32
  services := (j.natOr "services" 1).toUInt64
  timestamp := (j.nat "timestamp").toUInt32
  port := (j.nat "port").toUInt16
  nonce := (j.nat "nonce").toUInt32
  userAgent := j.str "user_agent"
  startHeight := (j.nat "start_height").toUInt32
  relay := j.flagOr "relay" true

instance : ToJson AddressEntry where
  toJson e := record
    [("timestamp", toJson e.timestamp), ("services", toJson e.services), ("address", toJson e.address)]

def inventoryFields (i : Inventory) : List (String × Json) :=
  [("inv_type", toJson i.kind.name), ("hashes", toJson i.hashes)]

instance : ToJson Inventory := ⟨fun i => record (inventoryFields i)⟩

def toKind (j : Json) : InventoryKind :=
  match j.text? with
  | some "block" => .block
  | some "consensus" => .consensus
  | _ => .tx

def locatorFields (l : Locator) : List (String × Json) :=
  [("start", toJson l.start), ("stop", toJson l.stop)]

instance : ToJson Locator := ⟨fun l => record (locatorFields l)⟩

def packetFields (p : Packet) : List (String × Json) :=
  [("command", toJson p.command), ("payload", ofBytes p.payload)]

instance : ToJson Packet := ⟨fun p => record (packetFields p)⟩

def toPacket (j : Json) : Packet :=
  ⟨j.str "command", j.bytes "payload"⟩

def messageType : Message → String
  | .unknown .. => "unknown"
  | m => m.command.name

def messageFields [Digest] : Message → List (String × Json)
  | .version v => versionFields v
  | .verack | .getaddr => []
  | .addr entries => [("list", toJson entries)]
  | .inv inventory | .getdata inventory => inventoryFields inventory
  | .getheaders locator | .getblocks locator => locatorFields locator
  | .headers headers => [("headers", toJson headers)]
  | .block b => blockFields b
  | .tx tx => [("data", toJson tx)]
  | .unknown command payload => packetFields ⟨command, payload⟩

instance [Digest] : ToJson Message :=
  ⟨fun m => record (("type", text (messageType m)) :: messageFields m)⟩

/-- What the names of hashes and addresses in a message stand for. -/
structure Names where
  hash : Json → Hash
  address : Json → SocketAddress

def toInventory (names : Names) (j : Json) : Inventory :=
  ⟨(j.field "inv_type").toKind, (j.listOf "hashes").map names.hash⟩

def toLocator (names : Names) (j : Json) : Locator :=
  ⟨(j.listOf "start").map names.hash, names.hash (j.field "stop")⟩

def toEntry (names : Names) (j : Json) : AddressEntry where
  timestamp := (j.nat "timestamp").toUInt32
  services := (j.natOr "services" 1).toUInt64
  address := names.address (j.field "address")

def toMessage (names : Names) (j : Json) : Message :=
  match Command.ofName (j.str "type") with
  | .version => .version j.toVersion
  | .verack => .verack
  | .getaddr => .getaddr
  | .addr => .addr ((j.listOf "list").map (toEntry names))
  | .inv => .inv (toInventory names j)
  | .getdata => .getdata (toInventory names j)
  | .getheaders => .getheaders (toLocator names j)
  | .getblocks => .getblocks (toLocator names j)
  | .headers => .headers ((j.listOf "headers").map toHeader)
  | .block => .block j.toBlock
  | .tx => .tx ⟨j.bytes "data"⟩
  | .other _ => .unknown (j.str "command") (j.bytes "payload")

end Json

end ChainSync
