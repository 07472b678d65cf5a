import UnicityPow.Codec
import UnicityPow.HeaderSync

/-!
# Message payloads

The byte codec of `message.cpp`: variable-length integers, the serializer and deserializer,
and the payloads of the nine messages. A C++ string is a list of bytes.
-/

namespace UnicityPow

/-! ## Limits -/

def MAX_SIZE : Nat := 0x02000000

def MAX_PROTOCOL_MESSAGE_LENGTH : Nat := 4 * 1000 * 1000

def MAX_LOCATOR_SZ : Nat := 101

def MAX_INV_SIZE : Nat := 50000

def MAX_ADDR_SIZE : Nat := 1000

def MAX_SUBVERSION_LENGTH : Nat := 256

def HEADER_SIZE : Nat := 100

/-! ## Fixed-width integers -/

/-- The `n` low bytes, least significant first. -/
def writeLE {w : Nat} (n : Nat) (v : BitVec w) : List UInt8 := (toBytes n v.toNat).map UInt8.ofNat

def readLE (w : Nat) (bytes : List UInt8) : BitVec w := BitVec.ofNat w (ofBytes (bytes.map UInt8.toNat))

def writeBE {w : Nat} (n : Nat) (v : BitVec w) : List UInt8 := (writeLE n v).reverse

def readBE (w : Nat) (bytes : List UInt8) : BitVec w := readLE w bytes.reverse

def writeLE16 (v : BitVec 16) : List UInt8 := writeLE 2 v
def writeLE32 (v : BitVec 32) : List UInt8 := writeLE 4 v
def writeLE64 (v : BitVec 64) : List UInt8 := writeLE 8 v
def writeBE16 (v : BitVec 16) : List UInt8 := writeBE 2 v

def readLE32 (bytes : List UInt8) : BitVec 32 := readLE 32 bytes
def readLE64 (bytes : List UInt8) : BitVec 64 := readLE 64 bytes
def readBE16 (bytes : List UInt8) : BitVec 16 := readBE 16 bytes

/-! ## Variable-length integers -/

namespace VarInt

def encode (value : BitVec 64) : List UInt8 :=
  if value.toNat < 0xfd then [UInt8.ofNat value.toNat]
  else if value.toNat ≤ 0xffff then 0xfd :: writeLE16 (value.setWidth 16)
  else if value.toNat ≤ 0xffffffff then 0xfe :: writeLE32 (value.setWidth 32)
  else 0xff :: writeLE64 value

/-- The forms of more than one byte: `n` bytes for a value of at least `least`. -/
def decodeWide (n least : Nat) (buffer : List UInt8) : Option (BitVec 64 × Nat) :=
  if buffer.length < n + 1 then none
  else
    let value := readLE 64 ((buffer.drop 1).take n)
    if value.toNat < least then none else some (value, n + 1)

/-- `VarInt::decode`: the value and the bytes consumed, `none` for 0 of them. -/
def decode (buffer : List UInt8) : Option (BitVec 64 × Nat) :=
  match buffer with
  | [] => none
  | first :: _ =>
    if first < 0xfd then some (BitVec.ofNat 64 first.toNat, 1)
    else if first = 0xfd then decodeWide 2 0xfd buffer
    else if first = 0xfe then decodeWide 4 0x10000 buffer
    else decodeWide 8 0x100000000 buffer

end VarInt

/-! ## Addresses -/

structure NetworkAddress where
  services : BitVec 64 := 0
  ip : BitVec 128 := 0
  port : BitVec 16 := 0
deriving DecidableEq

structure TimestampedAddress where
  timestamp : BitVec 32 := 0
  address : NetworkAddress := {}
deriving DecidableEq

/-! ## The serializer -/

namespace MessageSerializer

def writeVarint (value : Nat) : List UInt8 := VarInt.encode (BitVec.ofNat 64 value)

def writeString (str : List UInt8) : List UInt8 := writeVarint str.length ++ str

/-- A blob, the address of a peer included: its bytes are in the order of the number's digits. -/
def writeBlob {w : Nat} (n : Nat) (v : BitVec w) : List UInt8 := writeBE n v

def writeNetworkAddress (addr : NetworkAddress) : List UInt8 :=
  writeLE64 addr.services ++ writeBlob 16 addr.ip ++ writeBE16 addr.port

def writeTimestampedAddress (addr : TimestampedAddress) : List UInt8 :=
  writeLE32 addr.timestamp ++ writeNetworkAddress addr.address

def writeInventoryVector (inv : InventoryVector) : List UInt8 := writeLE32 inv.type ++ writeBlob 32 inv.hash

/-- The count of a list, then its elements. -/
def writeVector {α : Type} (write : α → List UInt8) (l : List α) : List UInt8 :=
  writeVarint l.length ++ l.flatMap write

end MessageSerializer

open MessageSerializer

/-- `CBlockHeader::SerializeFixed`. -/
def CBlockHeader.serialize (header : CBlockHeader) : List UInt8 :=
  writeLE32 header.nVersion ++ writeBlob 32 header.hashPrevBlock ++ writeBlob 20 header.minerAddress ++
    writeLE32 header.nTime ++ writeLE32 header.nBits ++ writeLE32 header.nNonce ++ writeBlob 32 header.hashRandomX

/-! ## The deserializer -/

structure MessageDeserializer where
  data : List UInt8
  position : Nat := 0
  error : Bool := false

abbrev Deserialize := Codec.Reader MessageDeserializer

namespace MessageDeserializer

def bytesRemaining (d : MessageDeserializer) : Nat := d.data.length - d.position

/-- The bytes from `data_ + position_` on. -/
def remaining (d : MessageDeserializer) : List UInt8 := d.data.drop d.position

def fail (d : MessageDeserializer) : MessageDeserializer := { d with error := true }

def advance (d : MessageDeserializer) (n : Nat) : MessageDeserializer := { d with position := d.position + n }

def checkAvailable (d : MessageDeserializer) (bytes : Nat) : MessageDeserializer :=
  if d.bytesRemaining < bytes then d.fail else d

instance : Codec.Tape MessageDeserializer UInt8 where
  rest := remaining
  failed := error

/-- The reads of a fixed number of bytes: `dflt` once an error is set. -/
def readFixed {α : Type} (n : Nat) (dflt : α) (read : List UInt8 → α) : Deserialize α := fun d =>
  let d := d.checkAvailable n
  if d.error then some (dflt, d) else some (read (d.remaining.take n), d.advance n)

def readUint32 : Deserialize (BitVec 32) := readFixed 4 0 readLE32

def readUint64 : Deserialize (BitVec 64) := readFixed 8 0 readLE64

def readInt32 : Deserialize (BitVec 32) := readUint32

def readInt64 : Deserialize (BitVec 64) := readUint64

def readBytes (count : Nat) : Deserialize (List UInt8) := readFixed count [] id

def readVarint : Deserialize (BitVec 64) := fun d =>
  let d := d.checkAvailable 1
  if d.error then some (0, d)
  else
    match VarInt.decode d.remaining with
    | none => some (0, d.fail)
    | some (value, consumed) =>
      if MAX_SIZE < value.toNat then some (0, d.fail) else some (value, d.advance consumed)

def readString (maxLength : Nat) : Deserialize (List UInt8) := do
  let len ← readVarint
  fun d =>
    if d.error || decide (maxLength < len.toNat) || decide (d.bytesRemaining < len.toNat) then some ([], d.fail)
    else some (d.remaining.take len.toNat, d.advance len.toNat)

/-- `read_network_address`. Once an error is set, the reads after it change nothing. -/
def readNetworkAddress : Deserialize NetworkAddress := do
  let services ← readUint64
  let ip ← readFixed 16 0 (readBE 128)
  let port ← readFixed 2 0 readBE16
  return { services, ip, port }

def readTimestampedAddress : Deserialize TimestampedAddress := do
  let timestamp ← readUint32
  let address ← readNetworkAddress
  return { timestamp, address }

def readInventoryVector : Deserialize InventoryVector := do
  let type ← readUint32
  let hash ← readFixed 32 0 (readBE 256)
  return { type, hash }

/-- The count of a list against its limit, then its elements. -/
def readVector {α : Type} (limit : Nat) (read : Deserialize α) : Deserialize (List α) := do
  let count ← readVarint
  Codec.giveUpIf (decide (limit < count.toNat))
  Codec.readList read count.toNat

/-- A hash of a list or at the end of one: `read_bytes` and a check of what it returned. -/
def readHash : Deserialize Uint256 := do
  let bytes ← readBytes 32
  Codec.giveUpIf (bytes.length != 32)
  return readBE 256 bytes

end MessageDeserializer

open MessageDeserializer

namespace CBlockHeader

/-- `CBlockHeader::Deserialize`, from the bytes at its offsets. -/
def deserialize (data : List UInt8) : Option CBlockHeader :=
  if data.length ≠ HEADER_SIZE then none
  else some {
    nVersion := readLE32 (data.take 4)
    hashPrevBlock := readBE 256 ((data.drop 4).take 32)
    minerAddress := readBE 160 ((data.drop 36).take 20)
    nTime := readLE32 ((data.drop 56).take 4)
    nBits := readLE32 ((data.drop 60).take 4)
    nNonce := readLE32 ((data.drop 64).take 4)
    hashRandomX := readBE 256 ((data.drop 68).take 32) }

/-- The header of a list: `read_bytes`, a check of what it returned, and `Deserialize`. -/
def read : Deserialize CBlockHeader := do
  let bytes ← readBytes HEADER_SIZE
  Codec.giveUpIf (bytes.length != HEADER_SIZE)
  Codec.lift (deserialize bytes)

end CBlockHeader

/-- `deserialize` from the reads of a payload: the buffer is read from its start, and the
answer is `!has_error()`. -/
def deserializeWith {α : Type} (read : Deserialize α) (data : List UInt8) : Option α := Codec.run { data } read

/-! ## Messages -/

structure VersionMessage where
  version : BitVec 32
  services : BitVec 64
  timestamp : BitVec 64
  addrRecv : NetworkAddress
  addrFrom : NetworkAddress
  nonce : BitVec 64
  userAgent : List UInt8
  startHeight : BitVec 32
deriving DecidableEq

namespace VersionMessage

def serialize (m : VersionMessage) : List UInt8 :=
  writeLE32 m.version ++ writeLE64 m.services ++ writeLE64 m.timestamp ++ writeNetworkAddress m.addrRecv ++
    writeNetworkAddress m.addrFrom ++ writeLE64 m.nonce ++ writeString m.userAgent ++ writeLE32 m.startHeight

def read : Deserialize VersionMessage := do
  let version ← readInt32
  let services ← readUint64
  let timestamp ← readInt64
  let addrRecv ← readNetworkAddress
  let addrFrom ← readNetworkAddress
  let nonce ← readUint64
  let userAgent ← readString MAX_SUBVERSION_LENGTH
  let startHeight ← readInt32
  return { version, services, timestamp, addrRecv, addrFrom, nonce, userAgent, startHeight }

end VersionMessage

namespace GetHeadersMessage

def serialize (m : GetHeadersMessage) : List UInt8 :=
  writeLE32 m.version ++ writeVector (writeBlob 32) m.blockLocatorHashes ++ writeBlob 32 m.hashStop

def read : Deserialize GetHeadersMessage := do
  let version ← readUint32
  let blockLocatorHashes ← readVector MAX_LOCATOR_SZ readHash
  let hashStop ← readHash
  return { version, blockLocatorHashes, hashStop }

end GetHeadersMessage

inductive Message
  | version (m : VersionMessage)
  | verack
  | ping (nonce : BitVec 64)
  | pong (nonce : BitVec 64)
  | addr (addresses : List TimestampedAddress)
  | getaddr
  | inv (inventory : List InventoryVector)
  | getheaders (m : GetHeadersMessage)
  | headers (headers : List CBlockHeader)
deriving DecidableEq

namespace Message

def command : Message → String
  | version _ => "version"
  | verack => "verack"
  | ping _ => "ping"
  | pong _ => "pong"
  | addr _ => "addr"
  | getaddr => "getaddr"
  | inv _ => "inv"
  | getheaders _ => "getheaders"
  | headers _ => "headers"

def serialize : Message → List UInt8
  | version m => m.serialize
  | verack => []
  | ping nonce => writeLE64 nonce
  | pong nonce => writeLE64 nonce
  | addr l => writeVector writeTimestampedAddress l
  | getaddr => []
  | inv l => writeVector writeInventoryVector l
  | getheaders m => m.serialize
  | headers l => writeVector CBlockHeader.serialize l

/-- `create_message` of a command, then `deserialize` of the payload. -/
def deserialize (command : String) (data : List UInt8) : Option Message :=
  if command = "version" then (deserializeWith VersionMessage.read data).map version
  else if command = "verack" then if data.length = 0 then some verack else none
  else if command = "ping" then (deserializeWith readUint64 data).map ping
  else if command = "pong" then (deserializeWith readUint64 data).map pong
  else if command = "addr" then (deserializeWith (readVector MAX_ADDR_SIZE readTimestampedAddress) data).map addr
  else if command = "getaddr" then if data.length = 0 then some getaddr else none
  else if command = "inv" then (deserializeWith (readVector MAX_INV_SIZE readInventoryVector) data).map inv
  else if command = "getheaders" then (deserializeWith GetHeadersMessage.read data).map getheaders
  else if command = "headers" then (deserializeWith (readVector MAX_HEADERS_SIZE CBlockHeader.read) data).map headers
  else none

end Message

end UnicityPow
