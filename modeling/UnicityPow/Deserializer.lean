import UnicityPow.Message

/-!
# The deserializer and its buffer

`MessageDeserializer` holds a pointer and two lengths of type `size_t`. Here its reads are written out
over memory, with the arithmetic of the lengths as it wraps and a record of the bytes that are touched.
-/

namespace UnicityPow

open MessageSerializer

/-- The members of `MessageDeserializer`; `touched` has the offsets from `data_` of all bytes read so far. -/
structure BufferReader where
  data : Nat → UInt8
  size : BitVec 64
  position : BitVec 64 := 0
  error : Bool := false
  touched : List Nat := []

abbrev BufferRead := StateM BufferReader

namespace BufferReader

def bytesRemaining (r : BufferReader) : BitVec 64 := r.size - r.position

def hasError : BufferRead Bool := fun r => (r.error, r)

def fail : BufferRead Unit := fun r => ((), { r with error := true })

def checkAvailable (bytes : BitVec 64) : BufferRead Unit := fun r =>
  ((), if r.bytesRemaining < bytes then { r with error := true } else r)

/-- The `n` bytes from `data_ + position_ + offset` on. -/
def bytesAt (offset n : Nat) : BufferRead (List UInt8) := fun r =>
  ((List.range n).map fun i => r.data (r.position.toNat + offset + i),
    { r with touched := r.touched ++ (List.range n).map fun i => r.position.toNat + offset + i })

/-- `position_ += n`. -/
def advance (n : BitVec 64) : BufferRead Unit := fun r => ((), { r with position := r.position + n })

/-! ## Integers and bytes -/

/-- The reads of a fixed number of bytes: `dflt` once an error is set. -/
def readFixed {α : Type} (n : BitVec 64) (dflt : α) (read : List UInt8 → α) : BufferRead α := do
  checkAvailable n
  if ← hasError then return dflt
  else
    let bytes ← bytesAt 0 n.toNat
    advance n
    return read bytes

def readUint8 : BufferRead (BitVec 8) := readFixed 1 0 (readLE 8)

def readUint16 : BufferRead (BitVec 16) := readFixed 2 0 (readLE 16)

def readUint32 : BufferRead (BitVec 32) := readFixed 4 0 readLE32

def readUint64 : BufferRead (BitVec 64) := readFixed 8 0 readLE64

def readInt32 : BufferRead (BitVec 32) := readUint32

def readInt64 : BufferRead (BitVec 64) := readUint64

def readBool : BufferRead Bool := do
  return (← readUint8) != 0

def readBytes (count : BitVec 64) : BufferRead (List UInt8) := readFixed count [] id

/-! ## Counted data -/

/-- The forms of `VarInt::decode` of more than one byte: `n` bytes for a value of at least `least`. -/
def decodeWide (n least : Nat) (available : BitVec 64) : BufferRead (Option (BitVec 64 × BitVec 64)) := do
  if available.toNat < n + 1 then return none
  else
    let bytes ← bytesAt 1 n
    if (readLE 64 bytes).toNat < least then return none else return some (readLE 64 bytes, BitVec.ofNat 64 (n + 1))

/-- `VarInt::decode` at `data_ + position_`: the value and the bytes consumed, `none` for 0 of them. -/
def decodeVarint (available : BitVec 64) : BufferRead (Option (BitVec 64 × BitVec 64)) := do
  if available.toNat < 1 then return none
  else
    let bytes ← bytesAt 0 1
    let first := bytes.headD 0
    if first < 0xfd then return some (BitVec.ofNat 64 first.toNat, 1)
    else if first = 0xfd then decodeWide 2 0xfd available
    else if first = 0xfe then decodeWide 4 0x10000 available
    else decodeWide 8 0x100000000 available

def readVarint : BufferRead (BitVec 64) := do
  checkAvailable 1
  if ← hasError then return 0
  else
    match ← decodeVarint (← get).bytesRemaining with
    | none =>
      fail
      return 0
    | some (value, consumed) =>
      if MAX_SIZE < value.toNat then
        fail
        return 0
      else
        advance consumed
        return value

/-- `read_string` once it has the length. -/
def readChars (maxLength len : BitVec 64) : BufferRead (List UInt8) := do
  if (← hasError) || decide (maxLength < len) || decide ((← get).bytesRemaining < len) then
    fail
    return []
  else
    let bytes ← bytesAt 0 len.toNat
    advance len
    return bytes

def readString (maxLength : BitVec 64) : BufferRead (List UInt8) := do
  let len ← readVarint
  readChars maxLength len

/-! ## Records -/

/-- `read_network_address`. Once an error is set, the reads after it change nothing. -/
def readNetworkAddress (hasTimestamp : Bool) : BufferRead NetworkAddress := do
  if hasTimestamp then
    let _ ← readUint32
  let services ← readUint64
  let ip ← readFixed 16 0 (readBE 128)
  let port ← readFixed 2 0 readBE16
  return { services, ip, port }

def readTimestampedAddress : BufferRead TimestampedAddress := do
  let timestamp ← readUint32
  let address ← readNetworkAddress false
  return { timestamp, address }

def readInventoryVector : BufferRead InventoryVector := do
  let type ← readUint32
  let hash ← readFixed 32 0 (readBE 256)
  return { type, hash }

end BufferReader

/-! ## Sequences of reads -/

inductive ReadCall
  | uint8
  | uint16
  | uint32
  | uint64
  | int32
  | int64
  | bool
  | varint
  | string (maxLength : BitVec 64)
  | bytes (count : BitVec 64)
  | networkAddress (hasTimestamp : Bool)
  | timestampedAddress
  | inventoryVector

inductive ReadValue
  | uint8 (v : BitVec 8)
  | uint16 (v : BitVec 16)
  | uint32 (v : BitVec 32)
  | uint64 (v : BitVec 64)
  | int32 (v : BitVec 32)
  | int64 (v : BitVec 64)
  | bool (v : Bool)
  | varint (v : BitVec 64)
  | string (v : List UInt8)
  | bytes (v : List UInt8)
  | networkAddress (v : NetworkAddress)
  | timestampedAddress (v : TimestampedAddress)
  | inventoryVector (v : InventoryVector)
deriving DecidableEq

open BufferReader

def ReadCall.run : ReadCall → BufferRead ReadValue
  | uint8 => ReadValue.uint8 <$> readUint8
  | uint16 => ReadValue.uint16 <$> readUint16
  | uint32 => ReadValue.uint32 <$> readUint32
  | uint64 => ReadValue.uint64 <$> readUint64
  | int32 => ReadValue.int32 <$> readInt32
  | int64 => ReadValue.int64 <$> readInt64
  | bool => ReadValue.bool <$> readBool
  | varint => ReadValue.varint <$> readVarint
  | string maxLength => ReadValue.string <$> readString maxLength
  | bytes count => ReadValue.bytes <$> readBytes count
  | networkAddress hasTimestamp => ReadValue.networkAddress <$> readNetworkAddress hasTimestamp
  | timestampedAddress => ReadValue.timestampedAddress <$> readTimestampedAddress
  | inventoryVector => ReadValue.inventoryVector <$> readInventoryVector

def runCalls : List ReadCall → BufferRead (List ReadValue)
  | [] => return []
  | call :: calls => do
    let value ← call.run
    let values ← runCalls calls
    return value :: values

/-- What `MessageSerializer` writes for a value. -/
def ReadValue.write : ReadValue → List UInt8
  | uint8 v => writeLE 1 v
  | uint16 v => writeLE16 v
  | uint32 v => writeLE32 v
  | uint64 v => writeLE64 v
  | int32 v => writeLE32 v
  | int64 v => writeLE64 v
  | bool v => [if v then 1 else 0]
  | varint v => VarInt.encode v
  | string v => writeString v
  | bytes v => v
  | networkAddress v => writeNetworkAddress v
  | timestampedAddress v => writeTimestampedAddress v
  | inventoryVector v => writeInventoryVector v

end UnicityPow
