import UnicityPow.Uint

/-!
# The ban list

`BanManager` with the file it keeps in the data directory. Times are seconds; the sum of a
ban's start and its offset stays below 2^63, so it is an integer.
-/

namespace UnicityPow

structure CBanEntry where
  nVersion : Int := 1
  nCreateTime : Int := 0
  nBanUntil : Int := 0
deriving DecidableEq

/-- A `nBanUntil` of 0 is a permanent ban. -/
def CBanEntry.isExpired (e : CBanEntry) (now : Int) : Bool := e.nBanUntil != 0 && decide (e.nBanUntil < now)

abbrev BanMap := Std.ExtTreeMap String CBanEntry compare

/-- `banlist.json`: an object with one member for each address, or `null` for none. -/
inductive BanFile
  | missing
  | malformed
  | entries (m : BanMap)

/-- The two readings of the clock that one call can make, and whether `atomic_write_file`
succeeds. -/
structure BanEnv where
  time : Int
  saveTime : Int
  writeOk : Bool := true

/-- `BanManager`, with the file at its path. -/
structure BanManager where
  banned : BanMap := ∅
  banFilePath : String := ""
  banAutoSave : Bool := true
  isDirty : Bool := false
  file : BanFile := .missing

/-- `(dir / "banlist.json").string()`, or no path without a directory. -/
def banlistPath (datadir : String) : String :=
  if datadir = "" then "" else if datadir.endsWith "/" then datadir ++ "banlist.json" else datadir ++ "/banlist.json"

namespace BanManager

/-- The constructor: a new manager over the file that is there. -/
def create (datadir : String) (file : BanFile) : BanManager := { banFilePath := banlistPath datadir, file }

/-- What has not expired. -/
def unexpired (now : Int) (m : BanMap) : BanMap := m.filter (fun _ e => !e.isExpired now)

/-- `SaveBansInternal`. Only a dirty list is written, but every list is swept. -/
def saveBansInternal (env : BanEnv) (b : BanManager) : BanManager × Bool :=
  if b.banFilePath = "" then (b, true)
  else
    let b := { b with banned := unexpired env.saveTime b.banned }
    if !b.isDirty then (b, true)
    else if !env.writeOk then (b, false)
    else ({ b with file := .entries b.banned, isDirty := false }, true)

def saveBans (env : BanEnv) (b : BanManager) : BanManager × Bool := b.saveBansInternal env

/-- The saving at the end of a change. -/
def autoSave (env : BanEnv) (b : BanManager) : BanManager :=
  if b.banAutoSave && b.banFilePath != "" then (b.saveBansInternal env).1 else b

def loadBans (env : BanEnv) (datadir : String) (b : BanManager) : BanManager × Bool :=
  let b := if b.banFilePath = "" then { b with banFilePath := banlistPath datadir } else b
  if b.banFilePath = "" then (b, true)
  else
    match b.file with
    | .missing => (b, true)
    | .malformed => (b, false)
    | .entries m =>
      let live := unexpired env.time m
      let b := { b with banned := b.banned ∪ live, isDirty := live.size != m.size }
      (if b.isDirty then b.autoSave env else b, true)

section
variable (normalize : String → Option String)

def ban (env : BanEnv) (b : BanManager) (address : String) (banTimeOffset : Int) : BanManager :=
  match normalize address with
  | none => b
  | some normalized =>
    let banUntil := if 0 < banTimeOffset then env.time + banTimeOffset else 0
    let entry : CBanEntry := { nCreateTime := env.time, nBanUntil := banUntil }
    { b with banned := b.banned.insert normalized entry, isDirty := true }.autoSave env

def unban (env : BanEnv) (b : BanManager) (address : String) : BanManager :=
  match normalize address with
  | none => b
  | some normalized =>
    if normalized ∈ b.banned then { b with banned := b.banned.erase normalized, isDirty := true }.autoSave env
    else b

def isBanned (now : Int) (b : BanManager) (address : String) : Bool :=
  match (normalize address).bind (fun normalized => b.banned[normalized]?) with
  | none => false
  | some entry => !entry.isExpired now

end

def clearBanned (env : BanEnv) (b : BanManager) : BanManager :=
  { b with banned := ∅, isDirty := true }.autoSave env

def sweepBanned (env : BanEnv) (b : BanManager) : BanManager :=
  let live := unexpired env.time b.banned
  if live.size != b.banned.size then { b with banned := live, isDirty := true }.autoSave env else b

end BanManager

/-! ## Runs -/

/-- A call, or a restart: a new manager on the same directory, then `LoadBans`. -/
inductive BanOp
  | ban (address : String) (banTimeOffset : Int) (env : BanEnv)
  | unban (address : String) (env : BanEnv)
  | clearBanned (env : BanEnv)
  | sweepBanned (env : BanEnv)
  | saveBans (env : BanEnv)
  | restart (env : BanEnv)

namespace BanOp

def env : BanOp → BanEnv
  | ban _ _ env => env
  | unban _ env => env
  | clearBanned env => env
  | sweepBanned env => env
  | saveBans env => env
  | restart env => env

/-- Whether a call is a Ban, Unban or ClearBanned that affects a normalized address. -/
def affects (normalize : String → Option String) (key : String) : BanOp → Bool
  | ban address _ _ => normalize address == some key
  | unban address _ => normalize address == some key
  | clearBanned _ => true
  | _ => false

/-- A ban that lasts to `t`. -/
def bansAt (t : Int) : BanOp → Bool
  | ban _ banTimeOffset env => decide (banTimeOffset ≤ 0) || decide (t ≤ env.time + banTimeOffset)
  | _ => false

end BanOp

namespace BanManager

def step (normalize : String → Option String) (datadir : String) (b : BanManager) : BanOp → BanManager
  | .ban address banTimeOffset env => b.ban normalize env address banTimeOffset
  | .unban address env => b.unban normalize env address
  | .clearBanned env => b.clearBanned env
  | .sweepBanned env => b.sweepBanned env
  | .saveBans env => (b.saveBans env).1
  | .restart env => ((create datadir b.file).loadBans env datadir).1

/-- The manager after the calls of a log, the latest call first, from an empty directory. -/
def run (normalize : String → Option String) (datadir : String) : List BanOp → BanManager
  | [] => create datadir .missing
  | op :: log => (run normalize datadir log).step normalize datadir op

/-- A clock that never goes back, up to the reading `t`. -/
def Clocked : Int → List BanOp → Prop
  | _, [] => True
  | t, op :: log => op.env.saveTime ≤ t ∧ op.env.time ≤ op.env.saveTime ∧ Clocked op.env.time log

end BanManager

end UnicityPow
