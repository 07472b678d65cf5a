import UnicityPow.HeaderSync
import UnicityPow.Run

/-!
# The life of a connection in the peer manager

New peer objects, bulk disconnection, and the calls on the peer manager as the steps of one
state machine. All calls of a run normalize addresses the same way.
-/

namespace UnicityPow

/-! ## New peers -/

namespace Peer

/-- `Peer::Peer`: the state depends on whether there is a connection and whether it is open. -/
def create (connection : Option (String × BitVec 16)) (isOpen isInbound : Bool) (targetAddress : String)
    (targetPort : BitVec 16) (connectionType : ConnectionType) : Peer :=
  { isInbound, connectionType, connection, targetAddress, targetPort
    state := if connection.isNone then .DISCONNECTED else if isOpen then .CONNECTED else .CONNECTING }

def createInbound (connection : Option (String × BitVec 16)) (isOpen : Bool) : Peer :=
  create connection isOpen true (connection.elim "" Prod.fst) (connection.elim 0 Prod.snd) .INBOUND

def createOutbound (connection : Option (String × BitVec 16)) (isOpen : Bool) (targetAddress : String)
    (targetPort : BitVec 16) (connectionType : ConnectionType) : Peer :=
  create connection isOpen false targetAddress targetPort connectionType

/-- `start` of a peer that may still be started: the time of its connection. -/
def start (env : NetEnv) (p : Peer) : Peer := { p with connectedTime := steadySeconds env.steadyTime }

end Peer

/-- `ValidateAndNormalizeIP`, from the parser that prints an address again in its canonical
form. -/
def validateAndNormalizeIP (parse : String → Option String) (address : String) : Option String :=
  if address = "" then none else parse address

/-- The environment of a call with the normalization that all calls share. -/
def NetEnv.normalizing (parse : String → Option String) (env : NetEnv) : NetEnv :=
  { env with validateAndNormalizeIP := UnicityPow.validateAndNormalizeIP parse }

def PeerEvent.connectedId : PeerEvent → Option Int
  | .connected peerId _ _ _ => some peerId
  | _ => none

namespace NetworkManager

/-- The ids given out so far, which the notifications of new peers carry. -/
def idsGivenOut (s : NetworkManager) : List Int := s.peerEvents.filterMap PeerEvent.connectedId

/-! ## Bulk disconnection -/

/-- The notification that `disconnect_all` publishes for one peer. -/
def notifyShutdown (s : NetworkManager) (kv : Int × PeerTrackingData) : NetworkManager :=
  match s.peerOf kv.2 with
  | none => s
  | some peer => s.notifyPeerDisconnected kv.1 (.disconnected kv.1 peer.address peer.port "shutdown" false)

def disconnectAll (s : NetworkManager) : NetworkManager :=
  let peersToDisconnect := s.peerStates.toList
  let s := { s with stoppingAll := true }
  let s := if s.shuttingDown then s else peersToDisconnect.foldl notifyShutdown s
  let s := { s with peerStates := ∅ }
  let s := peersToDisconnect.foldl (fun s kv => s.disconnectPeer kv.2.peer) s
  { s with stoppingAll := false }

end NetworkManager

/-! ## Runs -/

/-- A call that admits nobody: removals, and what happens to the objects meanwhile. -/
inductive ManageOp
  | removePeer (env : NetEnv) (peerId : Int)
  | evictInboundPeer (env : NetEnv)
  | processPeriodic (env : NetEnv)
  | disconnectAll
  | shutdown
  | start (env : NetEnv) (p : PeerPtr)
  | handleVerack (p : PeerPtr)
  | handlePong (p : PeerPtr) (pingTimeMs : Int)
  | disconnect (p : PeerPtr)
  | misbehaving (peerId penalty : Int)

/-- `add_peer` of a new inbound peer, of a new outbound, manual or feeler peer, or another
call. -/
inductive LifecycleOp
  | addInbound (env : NetEnv) (connection : Option (String × BitVec 16)) (isOpen : Bool)
      (permissions : NetPermissionFlags) (address : String)
  | addOutbound (env : NetEnv) (connection : Option (String × BitVec 16)) (isOpen : Bool) (targetAddress : String)
      (targetPort : BitVec 16) (connectionType : ConnectionType) (permissions : NetPermissionFlags)
      (address : String)
  | manage (op : ManageOp)

namespace NetworkManager

section
variable (parse : String → Option String) (config : PeerConfig) (s : NetworkManager)

def manage : ManageOp → NetworkManager
  | .removePeer env peerId => s.removePeer (env.normalizing parse) peerId
  | .evictInboundPeer env => (s.evictInboundPeer (env.normalizing parse)).1
  | .processPeriodic env => s.processPeriodic (env.normalizing parse)
  | .disconnectAll => s.disconnectAll
  | .shutdown => { s with shuttingDown := true }
  | .start env p => s.modifyPeer p (Peer.start env)
  | .handleVerack p => s.modifyPeer p Peer.handleVerack
  | .handlePong p pingTimeMs => s.modifyPeer p (fun peer => { peer with pingTimeMs })
  | .disconnect p => s.disconnectPeer p
  | .misbehaving peerId penalty => s.misbehaving peerId penalty

def lifecycleStep : LifecycleOp → NetworkManager
  | .addInbound env connection isOpen permissions address =>
    (s.addPeer config (env.normalizing parse) (.createInbound connection isOpen) permissions address).1
  | .addOutbound env connection isOpen targetAddress targetPort connectionType permissions address =>
    (s.addPeer config (env.normalizing parse)
      (.createOutbound connection isOpen targetAddress targetPort connectionType) permissions address).1
  | .manage op => s.manage parse op

end

end NetworkManager

end UnicityPow
