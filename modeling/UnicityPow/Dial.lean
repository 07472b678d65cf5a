import UnicityPow.BanManager
import UnicityPow.Lifecycle
import UnicityPow.Message

/-!
# Dials

The three ways to a new connection: `ConnectTo`, `AttemptFeelerConnection` and
`HandleInboundConnection`. A dial waits for the callback of the transport, which posts its
outcome to the event loop; the peer is admitted when that runs.
-/

namespace UnicityPow

inductive ConnectionResult
  | Success | NotRunning | AddressBanned | AddressDiscouraged | AlreadyConnected | NoSlotsAvailable
  | TransportFailed | PeerCreationFailed | ConnectionManagerFailed
deriving DecidableEq

structure AddressKey where
  ip : BitVec 128
  port : BitVec 16
deriving DecidableEq

def makeKey (a : NetworkAddress) : AddressKey := ⟨a.ip, a.port⟩

/-- What the callback of one `connect` of the transport has captured. -/
structure Dial where
  addr : NetworkAddress
  address : String
  permissions : NetPermissionFlags
  isFeeler : Bool
deriving DecidableEq

/-- The environment of a call with the ban list of a ban manager. -/
def NetEnv.banning (env : NetEnv) (b : BanManager) : NetEnv :=
  { env with isBanned := b.isBanned env.validateAndNormalizeIP env.time }

namespace NetworkManager

/-! ## Checks before a connection -/

section
variable (config : PeerConfig) (env : NetEnv) (s : NetworkManager)

/-- A match under the id -1 reads as none. -/
def findPeerByAddress (address : String) (port : BitVec 16) : Int :=
  match env.validateAndNormalizeIP address with
  | none => -1
  | some needle =>
    let isMatch := fun p : Peer =>
      env.validateAndNormalizeIP p.address == some needle && (port == 0 || p.port == port)
    (((s.entriesWhere isMatch).map Prod.fst).find? (· != -1)).getD (-1)

def needsMoreOutbound : Bool := decide (s.outboundCount < config.targetOutboundPeers)

def canAcceptInboundFrom (address : String) : Bool :=
  decide (s.inboundCount < config.maxInboundPeers) && s.admitsIp env address

/-- The checks of `ConnectTo` up to its own dials. -/
def checkOutbound (address : String) (port : BitVec 16) : ConnectionResult :=
  if env.isBanned address then .AddressBanned
  else if s.isDiscouraged env address then .AddressDiscouraged
  else if s.findPeerByAddress env address port != -1 then .AlreadyConnected
  else if !s.needsMoreOutbound config then .NoSlotsAvailable
  else .Success

/-- The checks of `HandleInboundConnection`, which closes a connection that fails one. -/
def checkInbound (remoteAddress : String) : Bool :=
  !env.isBanned remoteAddress && !s.isDiscouraged env remoteAddress &&
    s.canAcceptInboundFrom config env remoteAddress

def haveFeeler : Bool := !(s.entriesWhere Peer.isFeeler).isEmpty

/-- `add_peer`, and `start` of an admitted peer. A negative id reads as a refusal, after which
the new object is disconnected, wherever it is. -/
def addAndStart (peer : Peer) (permissions : NetPermissionFlags) (address : String) : NetworkManager :=
  let r := s.addPeer config env peer permissions address
  if r.2 < 0 then r.1.disconnectPeer s.peers.length
  else
    match r.1.peerStates[r.2]? with
    | none => r.1
    | some d => r.1.modifyPeer d.peer (Peer.start env)

def handleInboundConnection (isRunning : Bool) (connection : Option (String × BitVec 16)) (isOpen : Bool)
    (permissions : NetPermissionFlags) : NetworkManager :=
  match connection with
  | none => s
  | some remote =>
    if !isRunning then s
    else if !s.checkInbound config env remote.1 then s
    else s.addAndStart config env (.createInbound connection isOpen) permissions ""

end

end NetworkManager

/-! ## Dials in progress -/

/-- The managers with the dials that the transport works on and those whose outcome is
posted. -/
structure DialManager extends NetworkManager where
  pendingOutbound : List AddressKey := []
  connecting : List Dial := []
  posted : List (Dial × Bool) := []

/-- `connects` says whether the transport has begun to connect. -/
inductive DialOp
  | connectTo (env : NetEnv) (addr : NetworkAddress) (permissions : NetPermissionFlags) (connects : Bool)
  | attemptFeelerConnection (env : NetEnv) (isRunning : Bool) (addr : Option NetworkAddress) (connects : Bool)
  | callback (i : Nat) (success : Bool)
  | complete (env : NetEnv) (i : Nat) (isOpen : Bool)
  | handleInboundConnection (env : NetEnv) (isRunning : Bool) (connection : Option (String × BitVec 16))
      (isOpen : Bool) (permissions : NetPermissionFlags)
  | manage (op : ManageOp)

namespace DialManager

section
variable (networkAddressToString : BitVec 128 → Option String) (parse : String → Option String)
variable (config : PeerConfig) (env : NetEnv) (s : DialManager)

def connectTo (addr : NetworkAddress) (permissions : NetPermissionFlags) (connects : Bool) :
    DialManager × ConnectionResult :=
  match networkAddressToString addr.ip with
  | none => (s, .TransportFailed)
  | some address =>
    match s.checkOutbound config env address addr.port with
    | .Success =>
      if makeKey addr ∈ s.pendingOutbound then (s, .AlreadyConnected)
      -- a transport that does not begin has its key erased again
      else if !connects then (s, .TransportFailed)
      else
        ({ s with
            pendingOutbound := makeKey addr :: s.pendingOutbound
            connecting := s.connecting ++ [⟨addr, address, permissions, false⟩] }, .Success)
    | refusal => (s, refusal)

def attemptFeelerConnection (isRunning : Bool) (addr : Option NetworkAddress) (connects : Bool) : DialManager :=
  if !isRunning then s
  else if s.haveFeeler then s
  else
    match addr with
    | none => s
    | some addr =>
      match networkAddressToString addr.ip with
      | none => s
      | some address =>
        if !connects then s
        else { s with connecting := s.connecting ++ [⟨addr, address, NetPermissionFlags.None, true⟩] }

/-- The callback of the transport: it clears the pending key and posts the outcome. -/
def callback (i : Nat) (success : Bool) : DialManager :=
  match s.connecting[i]? with
  | none => s
  | some dial =>
    { s with
      pendingOutbound :=
        if dial.isFeeler then s.pendingOutbound else s.pendingOutbound.filter (· != makeKey dial.addr)
      connecting := s.connecting.eraseIdx i
      posted := s.posted ++ [(dial, success)] }

def connectionType (dial : Dial) : ConnectionType :=
  if dial.isFeeler then .FEELER
  else if hasPermission dial.permissions NetPermissionFlags.Manual then .MANUAL
  else .OUTBOUND

/-- The peer of a dial. A connected transport shows the address that was dialed. -/
def dialedPeer (dial : Dial) (isOpen : Bool) : Peer :=
  .createOutbound (some (dial.address, dial.addr.port)) isOpen dial.address dial.addr.port (connectionType dial)

/-- The posted outcome. A feeler is added without permissions and address. -/
def complete (i : Nat) (isOpen : Bool) : DialManager :=
  match s.posted[i]? with
  | none => s
  | some (dial, success) =>
    let s := { s with posted := s.posted.eraseIdx i }
    if !success then s
    else
      { s with
        toNetworkManager := s.addAndStart config env (dialedPeer dial isOpen)
          (if dial.isFeeler then NetPermissionFlags.None else dial.permissions)
          (if dial.isFeeler then "" else dial.address) }

/-- All calls of a run normalize addresses the same way. -/
def step : DialOp → DialManager
  | .connectTo env addr permissions connects =>
    (s.connectTo networkAddressToString config (env.normalizing parse) addr permissions connects).1
  | .attemptFeelerConnection _ isRunning addr connects =>
    s.attemptFeelerConnection networkAddressToString isRunning addr connects
  | .callback i success => s.callback i success
  | .complete env i isOpen => s.complete config (env.normalizing parse) i isOpen
  | .handleInboundConnection env isRunning connection isOpen permissions =>
    { s with
      toNetworkManager := s.toNetworkManager.handleInboundConnection config (env.normalizing parse) isRunning
        connection isOpen permissions }
  | .manage op => { s with toNetworkManager := s.toNetworkManager.manage parse op }

end

def fresh (chainstate : ChainstateManager) : DialManager := { NetworkManager.fresh chainstate with }

end DialManager

end UnicityPow
