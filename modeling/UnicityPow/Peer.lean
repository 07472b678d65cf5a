import UnicityPow.Activation
import UnicityPow.HeaderFile

/-!
# Peers

The connection object and what `PeerLifecycleManager` tracks of it. Objects outlive their
entry in the peer map, so they are held in a store of their own and named by pointers.
-/

namespace UnicityPow

/-! ## Connections -/

inductive ConnectionType
  | INBOUND | OUTBOUND | MANUAL | FEELER
deriving DecidableEq

inductive PeerConnectionState
  | DISCONNECTED | CONNECTING | CONNECTED | VERSION_SENT | READY | DISCONNECTING
deriving DecidableEq

/-- `Peer`, with the remote end of its transport connection while it holds one. Times of
connection are steady-clock seconds. -/
structure Peer where
  id : Int := -1
  isInbound : Bool
  connectionType : ConnectionType
  connection : Option (String × BitVec 16)
  targetAddress : String := ""
  targetPort : BitVec 16 := 0
  state : PeerConnectionState := .CONNECTED
  successfullyConnected : Bool := false
  syncStarted : Bool := false
  connectedTime : Int := 0
  pingTimeMs : Int := -1

/-- `PeerPtr`. -/
abbrev PeerPtr := Nat

namespace Peer

def isConnected (p : Peer) : Bool := p.state != .DISCONNECTED && p.state != .DISCONNECTING

def isFeeler (p : Peer) : Bool := p.connectionType == .FEELER

def isManual (p : Peer) : Bool := p.connectionType == .MANUAL

def address (p : Peer) : String :=
  match p.connection with
  | some (remote, _) => remote
  | none => if p.targetAddress ≠ "" then p.targetAddress else "unknown"

def port (p : Peer) : BitVec 16 :=
  match p.connection with
  | some (_, remote) => remote
  | none => p.targetPort

/-- `do_disconnect`. -/
def disconnect (p : Peer) : Peer :=
  if p.isConnected then { p with connection := none, state := .DISCONNECTED } else p

/-- `handle_verack`, but for the disconnection of a feeler that it posts. -/
def handleVerack (p : Peer) : Peer :=
  if p.successfullyConnected then p else { p with state := .READY, successfullyConnected := true }

@[simp] theorem disconnect_id (p : Peer) : p.disconnect.id = p.id := by
  unfold disconnect
  split <;> rfl

@[simp] theorem handleVerack_id (p : Peer) : p.handleVerack.id = p.id := by
  unfold handleVerack
  split <;> rfl

end Peer

/-! ## Permissions and misbehaviour -/

abbrev NetPermissionFlags := BitVec 32

namespace NetPermissionFlags

def None : NetPermissionFlags := 0
def Download : NetPermissionFlags := 1 <<< 6
def NoBan : NetPermissionFlags := 1 <<< 4 ||| Download
def Manual : NetPermissionFlags := 1 <<< 1

end NetPermissionFlags

def hasPermission (flags check : NetPermissionFlags) : Bool := flags &&& check == check && check != 0

structure PeerMisbehaviorData where
  misbehaviorScore : Int := 0
  shouldDiscourage : Bool := false
  numUnconnectingHeadersMsgs : Int := 0
  unconnectingPenalized : Bool := false
  permissions : NetPermissionFlags := NetPermissionFlags.None
  address : String := ""
  invalidHeaderHashes : List String := []

def DISCOURAGEMENT_THRESHOLD : Int := 100

def MAX_UNCONNECTING_HEADERS : Int := 10

namespace MisbehaviorPenalty

def INVALID_POW : Int := 100
def OVERSIZED_MESSAGE : Int := 20
def NON_CONTINUOUS_HEADERS : Int := 20
def INVALID_HEADER : Int := 100
def TOO_MANY_UNCONNECTING : Int := 100
def TOO_MANY_ORPHANS : Int := 100

end MisbehaviorPenalty

namespace PeerMisbehaviorData

def noBan (d : PeerMisbehaviorData) : Bool := hasPermission d.permissions NetPermissionFlags.NoBan

/-- `Misbehaving` on the data of one peer. The flag is set on the step that crosses the
threshold only. -/
def misbehaving (d : PeerMisbehaviorData) (penalty : Int) : PeerMisbehaviorData :=
  let score := d.misbehaviorScore + penalty
  { d with
    misbehaviorScore := score
    shouldDiscourage := d.shouldDiscourage ||
      (decide (DISCOURAGEMENT_THRESHOLD ≤ score) && decide (d.misbehaviorScore < DISCOURAGEMENT_THRESHOLD) &&
        !d.noBan) }

/-- `IncrementUnconnectingHeaders` on the data of one peer. -/
def incrementUnconnecting (d : PeerMisbehaviorData) : PeerMisbehaviorData :=
  if d.unconnectingPenalized then d
  else
    let d := { d with numUnconnectingHeadersMsgs := d.numUnconnectingHeadersMsgs + 1 }
    if MAX_UNCONNECTING_HEADERS ≤ d.numUnconnectingHeadersMsgs then
      misbehaving { d with unconnectingPenalized := true } MisbehaviorPenalty.TOO_MANY_UNCONNECTING
    else d

def resetUnconnecting (d : PeerMisbehaviorData) : PeerMisbehaviorData := { d with numUnconnectingHeadersMsgs := 0 }

def noteInvalidHeaderHash (d : PeerMisbehaviorData) (hash : Uint256) : PeerMisbehaviorData :=
  { d with invalidHeaderHashes := d.invalidHeaderHashes.insert hash.getHex }

end PeerMisbehaviorData

/-- `PeerTrackingData`; `createdAt` is in steady-clock nanoseconds. -/
structure PeerTrackingData where
  peer : PeerPtr
  createdAt : Int
  misbehavior : PeerMisbehaviorData := {}
  blocksForInvRelay : List Uint256 := []
  lastAnnouncedBlock : Uint256 := 0
  lastAnnounceTimeS : Int := 0

/-- `PeerTrackingData` with its misbehaviour data changed. -/
def PeerTrackingData.mapMisbehavior (f : PeerMisbehaviorData → PeerMisbehaviorData) (d : PeerTrackingData) :
    PeerTrackingData :=
  { d with misbehavior := f d.misbehavior }

/-! ## Peer ids -/

/-- `static_cast<uint64_t>` of an `int`. -/
def toUint64 (id : Int) : BitVec 64 := BitVec.ofInt 64 id

/-- `static_cast<int>` of a `uint64_t`. -/
def ofUint64 (v : BitVec 64) : Int := (v.setWidth 32).toInt

def NO_SYNC_PEER : BitVec 64 := BitVec.allOnes 64

/-- The range of `int`. -/
def IsInt32 (n : Int) : Prop := -2 ^ 31 ≤ n ∧ n < 2 ^ 31

theorem isInt32_toInt32 (n : Int) : IsInt32 (toInt32 n) := by
  have h1 := BitVec.le_toInt (BitVec.ofInt 32 n)
  have h2 := BitVec.toInt_lt (x := BitVec.ofInt 32 n)
  exact ⟨by simpa [toInt32] using h1, by simpa [toInt32] using h2⟩

theorem toInt_toUint64 {id : Int} (h : IsInt32 id) : (toUint64 id).toInt = id := by
  unfold toUint64
  obtain ⟨h1, h2⟩ := h
  rw [BitVec.toInt_ofInt, Int.bmod_eq_of_le] <;> norm_num <;> omega

theorem toUint64_inj {id id' : Int} (h : IsInt32 id) (h' : IsInt32 id') (heq : toUint64 id = toUint64 id') :
    id = id' := by
  rw [← toInt_toUint64 h, ← toInt_toUint64 h', heq]

theorem toUint64_eq_noSyncPeer {id : Int} (h : IsInt32 id) : toUint64 id = NO_SYNC_PEER ↔ id = -1 := by
  have h1 : NO_SYNC_PEER = toUint64 (-1) := by decide
  rw [h1]
  exact ⟨fun heq => toUint64_inj h (by norm_num [IsInt32]) heq, fun heq => by rw [heq]⟩

theorem ofUint64_toUint64 {id : Int} (h : IsInt32 id) : ofUint64 (toUint64 id) = id := by
  unfold ofUint64 toUint64
  obtain ⟨h1, h2⟩ := h
  have heq : (BitVec.ofInt 64 id).setWidth 32 = BitVec.ofInt 32 id := by
    apply BitVec.eq_of_toNat_eq
    simp only [BitVec.toNat_setWidth, BitVec.toNat_ofInt]
    omega
  rw [heq, BitVec.toInt_ofInt, Int.bmod_eq_of_le] <;> norm_num <;> omega

end UnicityPow
