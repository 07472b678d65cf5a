import UnicityPow.Message

/-!
# The address manager

The addresses that a node has heard of, in a table of new and a table of tried ones, with the
lists of keys that selection draws from, and the file that keeps them.
-/

namespace UnicityPow

/-! ## Constants -/

def ADDRMAN_HORIZON_DAYS : BitVec 32 := 30
def ADDRMAN_RETRIES : BitVec 32 := 3
def ADDRMAN_MAX_FAILURES : BitVec 32 := 10
def ADDRMAN_MIN_FAIL_DAYS : BitVec 32 := 7
def TRIED_DEMOTION_THRESHOLD : BitVec 32 := 10
def STALE_AFTER_DAYS : BitVec 32 := 30
def SECONDS_PER_DAY : BitVec 32 := 86400
def TERRIBLE_GRACE_PERIOD_SEC : BitVec 32 := 60
def TERRIBLE_FUTURE_TIMESTAMP_SEC : BitVec 32 := 600
def FEELER_MIN_RETRY_SECONDS : BitVec 32 := 600

/-! ## Addresses -/

/-- The 16 bytes of the address and the two of the port. -/
abbrev AddrKey := BitVec 144

instance addrKeyTransOrd : Std.TransOrd AddrKey := inferInstance
instance addrKeyLawfulEqOrd : Std.LawfulEqOrd AddrKey := inferInstance

def addrKey (addr : NetworkAddress) : AddrKey := addr.ip ++ addr.port

/-- `attempts` is an `int` that is only compared with unsigned constants. -/
structure AddrInfo where
  address : NetworkAddress := {}
  timestamp : BitVec 32 := 0
  lastTry : BitVec 32 := 0
  lastCountAttempt : BitVec 32 := 0
  lastSuccess : BitVec 32 := 0
  attempts : BitVec 32 := 0
  tried : Bool := false
deriving DecidableEq

def AddrInfo.isStale (info : AddrInfo) (now : BitVec 32) : Bool :=
  if info.timestamp = 0 ∨ now < info.timestamp then false
  else decide (STALE_AFTER_DAYS * SECONDS_PER_DAY < now - info.timestamp)

def AddrInfo.isTerrible (info : AddrInfo) (now : BitVec 32) : Bool :=
  if 0 < info.lastTry ∧ info.lastTry < now ∧ now - info.lastTry < TERRIBLE_GRACE_PERIOD_SEC then false
  else if now < info.timestamp ∧ TERRIBLE_FUTURE_TIMESTAMP_SEC < info.timestamp - now then true
  else if 0 < info.timestamp ∧ info.timestamp < now ∧
      ADDRMAN_HORIZON_DAYS < (now - info.timestamp) / SECONDS_PER_DAY then true
  else if info.lastSuccess = 0 ∧ ADDRMAN_RETRIES ≤ info.attempts then true
  else if 0 < info.lastSuccess ∧ info.lastSuccess < now ∧ ADDRMAN_MAX_FAILURES ≤ info.attempts ∧
      ADDRMAN_MIN_FAIL_DAYS ≤ (now - info.lastSuccess) / SECONDS_PER_DAY then true
  else false

/-- What `attempt` makes of an entry. -/
def AddrInfo.attempted (now lastGood : BitVec 32) (fCountFailure : Bool) (info : AddrInfo) : AddrInfo :=
  let info := { info with lastTry := now }
  if fCountFailure && decide (info.lastCountAttempt < lastGood) then
    { info with lastCountAttempt := now, attempts := info.attempts + 1 }
  else info

/-- `NormalizeAddress`: an IPv4-compatible address, whose first twelve bytes are zero, becomes
the mapped one. -/
def normalizeAddress (addr : NetworkAddress) : NetworkAddress :=
  if addr.ip >>> 32 = 0 ∧ addr.ip.setWidth 32 ≠ 0 then { addr with ip := addr.ip ||| 0xffff00000000#128 } else addr

def isRoutable (addr : NetworkAddress) : Bool := !decide (addr.port = 0) && !decide (addr.ip = 0)

/-! ## The file -/

/-- What the stream and the parser find of `peers.json`. -/
abbrev PeersFile := HeaderFile

def serializeAddrInfo (info : AddrInfo) : Json :=
  .object [
    ("ip", .array ((writeBE 16 info.address.ip).map (fun b => .number b.toNat))),
    ("port", .number info.address.port.toNat),
    ("services", .number info.address.services.toNat),
    ("timestamp", .number info.timestamp.toNat),
    ("last_try", .number info.lastTry.toNat),
    ("last_count_attempt", .number info.lastCountAttempt.toNat),
    ("last_success", .number info.lastSuccess.toNat),
    ("attempts", .number info.attempts.toInt)]

/-- The bytes of the address. A field that is missing reads as `null`, which no conversion takes. -/
def readIp (j : Json) : Except LoadStop (List UInt8) :=
  match j with
  | .array l =>
    if l.length ≠ 16 then .error .refused
    else l.mapM (fun b => do return UInt8.ofNat (BitVec.ofInt 8 (← b.getInt)).toNat)
  | _ => .error .refused

/-- `DeserializeAddrInfo`, whose exceptions are refusals; `tried` is set by the caller. -/
def deserializeAddrInfo (j : Json) : Except LoadStop AddrInfo := do
  let ip ← readIp (j.read "ip")
  let port ← (j.read "port").getInt
  let services ← (j.read "services").getInt
  let timestamp ← (j.read "timestamp").getInt
  let lastTry ← (j.read "last_try").getInt
  let lastCountAttempt ← j.valueInt "last_count_attempt" 0
  let lastSuccess ← (j.read "last_success").getInt
  let attempts ← (j.read "attempts").getInt
  return {
    address := { services := BitVec.ofInt 64 services, ip := readBE 128 ip, port := BitVec.ofInt 16 port }
    timestamp := BitVec.ofInt 32 timestamp
    lastTry := BitVec.ofInt 32 lastTry
    lastCountAttempt := BitVec.ofInt 32 lastCountAttempt
    lastSuccess := BitVec.ofInt 32 lastSuccess
    attempts := BitVec.ofInt 32 attempts }

/-- What a range-based loop visits. -/
def Json.elements : Json → List Json
  | null => []
  | array l => l
  | object fields => fields.map Prod.snd
  | j => [j]

/-- The records of one table that can be read. -/
def readTable (root : Json) (key : String) (tried : Bool) : List AddrInfo :=
  match root.field key with
  | none => []
  | some j => j.elements.filterMap (fun record => (deserializeAddrInfo record).toOption.map ({ · with tried }))

/-! ## The manager -/

abbrev AddrTable := Std.ExtTreeMap AddrKey AddrInfo compare

structure AddressManager where
  tried : AddrTable := ∅
  new : AddrTable := ∅
  triedKeys : List AddrKey := []
  newKeys : List AddrKey := []
  mLastGood : BitVec 32 := 1

namespace AddressManager

def rebuildKeyVectors (s : AddressManager) : AddressManager :=
  { s with triedKeys := s.tried.keys, newKeys := s.new.keys }

/-- A zero, future or absurdly old timestamp becomes the present. -/
def effectiveTimestamp (now timestamp : BitVec 32) : BitVec 32 :=
  let effTs := if timestamp = 0 then now else timestamp
  if now < effTs ∨ 10 * 365 * 24 * 60 * 60 < now - effTs then now else effTs

def refreshTimestamp (effTs : BitVec 32) (info : AddrInfo) : AddrInfo :=
  if info.timestamp < effTs then { info with timestamp := effTs } else info

def add (now : BitVec 32) (s : AddressManager) (addr : NetworkAddress) (timestamp : BitVec 32) : AddressManager × Bool :=
  let normalized := normalizeAddress addr
  if !isRoutable normalized then (s, false)
  else
    let effTs := effectiveTimestamp now timestamp
    let info : AddrInfo := { address := normalized, timestamp := effTs }
    let key := addrKey normalized
    if key ∈ s.tried then ({ s with tried := s.tried.modify key (refreshTimestamp effTs) }, false)
    else if key ∈ s.new then ({ s with new := s.new.modify key (refreshTimestamp effTs) }, false)
    else if info.isTerrible now then (s, false)
    else ({ s with new := s.new.insert key info, newKeys := s.newKeys ++ [key] }, true)

/-- `add_multiple`; each address comes with the time at which the loop reaches it. -/
def addMultiple (s : AddressManager) (addresses : List (BitVec 32 × TimestampedAddress)) : AddressManager × Nat :=
  addresses.foldl (fun (s, added) (now, tsAddr) =>
    match s.add now tsAddr.address tsAddr.timestamp with
    | (s, true) => (s, added + 1)
    | (s, false) => (s, added)) (s, 0)

def attempt (now : BitVec 32) (s : AddressManager) (addr : NetworkAddress) (fCountFailure : Bool) : AddressManager :=
  let key := addrKey (normalizeAddress addr)
  if key ∈ s.new then { s with new := s.new.modify key (AddrInfo.attempted now s.mLastGood fCountFailure) }
  else { s with tried := s.tried.modify key (AddrInfo.attempted now s.mLastGood fCountFailure) }

def good (now : BitVec 32) (s : AddressManager) (addr : NetworkAddress) : AddressManager :=
  let key := addrKey (normalizeAddress addr)
  let s := { s with mLastGood := now }
  match s.new[key]? with
  | some info =>
    { s with
      tried := s.tried.insert key { info with tried := true, lastSuccess := now, attempts := 0 }
      new := s.new.erase key
      newKeys := s.newKeys.filter (· ≠ key)
      triedKeys := s.triedKeys ++ [key] }
  | none => { s with tried := s.tried.modify key (fun info => { info with lastSuccess := now, attempts := 0 }) }

def failed (now : BitVec 32) (s : AddressManager) (addr : NetworkAddress) : AddressManager :=
  let key := addrKey (normalizeAddress addr)
  match s.new[key]? with
  | some info =>
    let info := { info with attempts := info.attempts + 1 }
    if info.isTerrible now then { s with new := s.new.erase key, newKeys := s.newKeys.filter (· ≠ key) }
    else { s with new := s.new.insert key info }
  | none =>
    match s.tried[key]? with
    | none => s
    | some info =>
      let info := { info with attempts := info.attempts + 1 }
      -- demotion: back to the new table
      if TRIED_DEMOTION_THRESHOLD ≤ info.attempts then
        { s with
          new := s.new.insert key { info with tried := false }
          tried := s.tried.erase key
          triedKeys := s.triedKeys.filter (· ≠ key)
          newKeys := s.newKeys ++ [key] }
      else { s with tried := s.tried.insert key info }

def cleanupStale (now : BitVec 32) (s : AddressManager) : AddressManager :=
  let kept := s.new.filter (fun _ info => !(info.isStale now || info.isTerrible now))
  if kept.size < s.new.size then rebuildKeyVectors { s with new := kept } else s

/-! ## Selection -/

/-- An entry by its position; a position without key, or a key without entry, is an error. -/
def pick (keys : List AddrKey) (table : AddrTable) (draw : Nat) : Except Unit AddrInfo :=
  match keys[draw % keys.length]? with
  | none => .error ()
  | some key =>
    match table[key]? with
    | none => .error ()
    | some info => .ok info

/-- The draws of one call, by the round; `accepted` compares a draw with the chance of the entry. -/
structure SelectDraws where
  searchTried : Bool
  index : Nat → Nat
  accepted : Nat → AddrInfo → Bool

/-- The rounds of `select`; what none of them accepts is left to the first entry of a table. -/
def selectLoop (s : AddressManager) (draws : SelectDraws) (searchTried : Bool) :
    Nat → Nat → Except Unit (Option NetworkAddress)
  | 0, _ =>
    match s.tried.keys.head?.bind (s.tried[·]?), s.new.keys.head?.bind (s.new[·]?) with
    | some info, _ => .ok (some info.address)
    | none, some info => .ok (some info.address)
    | none, none => .ok none
  | rounds + 1, i => do
    let useTried := (searchTried && !s.tried.isEmpty) || s.new.isEmpty
    let info ← if useTried then pick s.triedKeys s.tried (draws.index i) else pick s.newKeys s.new (draws.index i)
    if draws.accepted i info then return some info.address else selectLoop s draws searchTried rounds (i + 1)

def select (s : AddressManager) (draws : SelectDraws) : Except Unit (Option NetworkAddress) :=
  if s.tried.isEmpty && s.new.isEmpty then .ok none
  else selectLoop s draws (!s.tried.isEmpty && (draws.searchTried || s.new.isEmpty)) 200 0

def feelerLoop (now : BitVec 32) (s : AddressManager) (index : Nat → Nat) : Nat → Nat → Except Unit NetworkAddress
  | 0, i => do return (← pick s.newKeys s.new (index i)).address
  | rounds + 1, i => do
    let info ← pick s.newKeys s.new (index i)
    if info.lastTry = 0 ∨ now < info.lastTry ∨ FEELER_MIN_RETRY_SECONDS ≤ now - info.lastTry then return info.address
    else feelerLoop now s index rounds (i + 1)

def selectNewForFeeler (now : BitVec 32) (s : AddressManager) (index : Nat → Nat) : Except Unit (Option NetworkAddress) :=
  if s.new.isEmpty then .ok none else (feelerLoop now s index 50 0).map some

/-! ## Persistence -/

def save (s : AddressManager) : PeersFile :=
  .doc (.object [
    ("version", .number 1),
    ("tried_count", .number s.tried.size),
    ("new_count", .number s.new.size),
    ("m_last_good", .number s.mLastGood.toNat),
    ("tried", .array (s.tried.toList.map (fun kv => serializeAddrInfo kv.2))),
    ("new", .array (s.new.toList.map (fun kv => serializeAddrInfo kv.2)))])

def insertAll (l : List AddrInfo) (table : AddrTable) : AddrTable :=
  l.foldl (fun table info => table.insert (addrKey info.address) info) table

/-- `Load` inside its `try`. -/
def loadDoc (s : AddressManager) (root : Json) : Except LoadStop AddressManager := do
  let version ← root.valueInt "version" 0
  if toInt32 version ≠ 1 then .error .refused
  else
    let lastGood ← root.valueInt "m_last_good" 1
    return rebuildKeyVectors
      { s with
        mLastGood := BitVec.ofInt 32 lastGood
        tried := insertAll (readTable root "tried" true) ∅
        new := insertAll (readTable root "new" false) ∅ }

/-- `Load`: an exception empties the tables, an early return does not. -/
def load (s : AddressManager) (file : PeersFile) : AddressManager × Bool :=
  let r : Except LoadStop AddressManager := match file with
    | .missing => .error .refused
    | .malformed => .error .threw
    | .doc root => s.loadDoc root
  match r with
  | .ok s => (s, true)
  | .error .refused => (s, false)
  | .error .threw => ({ s with tried := ∅, new := ∅, triedKeys := [], newKeys := [] }, false)

end AddressManager

/-! ## Runs -/

/-- A call on the manager; `now` is what its clock reads. -/
inductive AddrOp
  | add (now : BitVec 32) (addr : NetworkAddress) (timestamp : BitVec 32)
  | addMultiple (addresses : List (BitVec 32 × TimestampedAddress))
  | attempt (now : BitVec 32) (addr : NetworkAddress) (fCountFailure : Bool)
  | good (now : BitVec 32) (addr : NetworkAddress)
  | failed (now : BitVec 32) (addr : NetworkAddress)
  | cleanupStale (now : BitVec 32)
  | save
  | load (file : PeersFile)

namespace AddressManager

def step (s : AddressManager) : AddrOp → AddressManager
  | .add now addr timestamp => (s.add now addr timestamp).1
  | .addMultiple addresses => (s.addMultiple addresses).1
  | .attempt now addr fCountFailure => s.attempt now addr fCountFailure
  | .good now addr => s.good now addr
  | .failed now addr => s.failed now addr
  | .cleanupStale now => s.cleanupStale now
  | .save => s
  | .load file => (s.load file).1

end AddressManager

end UnicityPow
