import UnicityPow.AddrManager
import UnicityPow.Dial
import UnicityPow.PeerSession

/-!
# Discovery

The address manager at work: the node dials the addresses it selects, and the outcomes of
its dials, the notifications of the peer manager and the messages of the peers go back into
the tables. Each peer object has its event loop.
-/

namespace UnicityPow

def MAX_CONNECTION_ATTEMPTS_PER_CYCLE : Nat := 100

/-- What is the same for all calls on a node. -/
structure NodeConfig where
  networkAddressToString : BitVec 128 → Option String
  parse : String → Option String
  peers : PeerConfig := {}
  session : SessionConfig

/-- `static_cast<uint32_t>(util::GetTime())`. -/
def NetEnv.now (env : NetEnv) : BitVec 32 := BitVec.ofInt 32 env.time

/-- The dialing side of a node with its address manager. `loops` holds the event loop of each
object in the peer store, whose `peer` is the one in the store. -/
structure Node extends DialManager where
  addrManager : AddressManager := {}
  loops : List PeerLoop := []
  localNonce : BitVec 64 := 0

namespace Node

section
variable (config : NodeConfig) (env : NetEnv) (s : Node)

/-! ## The address manager -/

def attempt (addr : NetworkAddress) : Node := { s with addrManager := s.addrManager.attempt env.now addr true }

def good (addr : NetworkAddress) : Node := { s with addrManager := s.addrManager.good env.now addr }

def failed (addr : NetworkAddress) : Node := { s with addrManager := s.addrManager.failed env.now addr }

/-- The subscriptions to the notifications of the peer manager. The entry of a peer is gone when
its removal is notified, and still there when `disconnect_all` notifies. -/
def onPeerEvent : PeerEvent → Node
  | .connected _ address port connectionType =>
    if connectionType = "outbound" then
      { s with
        addrManager := (s.addrManager.add env.now (config.session.networkAddressFromString address port) 0).1 }
    else s
  | .disconnected _ address port reason markAddrGood =>
    if reason = "shutdown" && markAddrGood && port != 0 && address != "" then
      s.good env (config.session.networkAddressFromString address port)
    else s

/-! ## Peers and their event loops -/

/-- The event loop of a new object, whose handler is set. -/
def newLoop (peer : Peer) : PeerLoop where
  session := { peer, localNonce := s.localNonce,
               localStartHeight := BitVec.ofInt 32 (s.chainstate.activeChain.length - 1),
               messageHandler := true, lastUnknownReset := env.steadyTime, log := [.state peer.state] }

/-- A call on the managers: new objects get a loop, and its notifications are seen to. -/
def after (d : DialManager) : Node :=
  let s' : Node := { s with
    toDialManager := d
    loops := s.loops ++ (d.peers.drop s.loops.length).map (s.newLoop env) }
  (d.peerEvents.drop s.peerEvents.length).foldl (fun s e => s.onPeerEvent config env e) s'

def loopAt (p : PeerPtr) : Option PeerLoop :=
  match s.loops[p]?, s.peers[p]? with
  | some l, some peer => some { l with session := { l.session with peer } }
  | _, _ => none

def setLoop (p : PeerPtr) (l : PeerLoop) : Node :=
  { s with peers := s.peers.set p l.session.peer, loops := s.loops.set p l }

def runLoop (p : PeerPtr) (op : PeerOp) : Node :=
  match s.loopAt p with
  | none => s
  | some l => s.setLoop p (l.step config.session op)

/-! ## Dials -/

def connectTo (addr : NetworkAddress) (permissions : NetPermissionFlags) (connects : Bool) :
    Node × ConnectionResult :=
  let r := s.toDialManager.connectTo config.networkAddressToString config.peers env addr permissions connects
  let s' := { s with toDialManager := r.1 }
  -- only a transport that does not begin to connect counts as an attempt that failed
  if r.2 = .TransportFailed ∧ (config.networkAddressToString addr.ip).isSome then
    ((s'.attempt env addr).failed env addr, r.2)
  else (s', r.2)

/-- The rounds of `AttemptOutboundConnections`, by the addresses selected so far. An error in the
selection ends them. -/
def attemptRounds (draws : Nat → AddressManager.SelectDraws) (connects : Nat → Bool) :
    Nat → Nat → List AddressKey → Node → Node
  | 0, _, _, s => s
  | rounds + 1, i, selected, s =>
    if !s.needsMoreOutbound config.peers then s
    else
      match s.addrManager.select (draws i) with
      | .error _ | .ok none => s
      | .ok (some addr) =>
        if makeKey addr ∈ selected then attemptRounds draws connects rounds (i + 1) selected s
        else
          match config.networkAddressToString addr.ip with
          | none => attemptRounds draws connects rounds (i + 1) selected (s.failed env addr)
          | some ip =>
            if s.findPeerByAddress env ip addr.port != -1 then
              attemptRounds draws connects rounds (i + 1) selected s
            else
              let r := (s.attempt env addr).connectTo config env addr NetPermissionFlags.None (connects i)
              attemptRounds draws connects rounds (i + 1) (makeKey addr :: selected)
                (if r.2 = .AddressBanned ∨ r.2 = .AddressDiscouraged then r.1.failed env addr else r.1)

def attemptOutboundConnections (isRunning : Bool) (draws : Nat → AddressManager.SelectDraws)
    (connects : Nat → Bool) : Node :=
  if isRunning then attemptRounds config env draws connects MAX_CONNECTION_ATTEMPTS_PER_CYCLE 0 [] s else s

def attemptFeelerConnection (isRunning : Bool) (index : Nat → Nat) (connects : Bool) : Node :=
  if !isRunning then s
  else if s.haveFeeler then s
  else
    match s.addrManager.selectNewForFeeler env.now index with
    | .error _ | .ok none => s
    | .ok (some addr) =>
      let s' := { s with
        toDialManager := s.toDialManager.attemptFeelerConnection config.networkAddressToString isRunning
          (some addr) connects }
      if (config.networkAddressToString addr.ip).isSome && !connects then s'.attempt env addr else s'

/-- `add_peer` of the peer of a dial, and its answer. -/
def addDialed (dial : Dial) (isOpen : Bool) : NetworkManager × Int :=
  s.addPeer config.peers env (DialManager.dialedPeer dial isOpen)
    (if dial.isFeeler then NetPermissionFlags.None else dial.permissions) (if dial.isFeeler then "" else dial.address)

/-- The posted outcome of a dial. A feeler that was admitted is good at once. -/
def complete (i : Nat) (isOpen : Bool) (wire : Wire) : Node :=
  match s.posted[i]? with
  | none => s
  | some (dial, success) =>
    let s' := s.after config env (s.toDialManager.complete config.peers env i isOpen)
    if !success then
      if dial.isFeeler then s'.attempt env dial.addr else (s'.attempt env dial.addr).failed env dial.addr
    else if (s.addDialed config env dial isOpen).2 < 0 then s'.attempt env dial.addr
    else
      (if dial.isFeeler then s'.good env dial.addr else s').runLoop config s.peers.length
        (.start env.steadyTime env.time isOpen wire)

def handleInboundConnection (isRunning : Bool) (connection : Option (String × BitVec 16)) (isOpen : Bool)
    (permissions : NetPermissionFlags) (wire : Wire) : Node :=
  let s' := s.after config env { s.toDialManager with
    toNetworkManager := s.toNetworkManager.handleInboundConnection config.peers env isRunning connection isOpen
      permissions }
  if isRunning && connection.any (fun remote => s.checkInbound config.peers env remote.1) &&
      decide (0 ≤ (s.addPeer config.peers env (.createInbound connection isOpen) permissions "").2) then
    s'.runLoop config s.peers.length (.start env.steadyTime env.time isOpen wire)
  else s'

/-! ## Messages -/

/-- `HandleVerack`. The GETADDR that it sends is a `send` of the session. -/
def handleVerack (p : PeerPtr) : Node :=
  match s.peers[p]? with
  | none => s
  | some peer =>
    if !peer.isConnected || !peer.successfullyConnected then s
    else if !peer.isInbound && !peer.isFeeler then
      s.good env (config.session.networkAddressFromString peer.address peer.port)
    else s

/-- The addresses that the rate limit lets through, in the order of the shuffle. -/
def takeAddresses (accepted : List Nat) (addresses : List TimestampedAddress) : Node :=
  { s with
    addrManager := (s.addrManager.addMultiple
      ((accepted.filterMap (fun j => (addresses.take MAX_ADDR_SIZE)[j]?)).map (fun a => (env.now, a)))).1 }

def handleAddr (p : PeerPtr) (accepted : List Nat) (addresses : List TimestampedAddress) : Node :=
  match s.peers[p]? with
  | none => s
  | some peer =>
    if !peer.successfullyConnected then s
    else if MAX_ADDR_SIZE < addresses.length then
      let reported := s.reportOversizedMessage peer.id
      if reported.shouldDisconnect peer.id then
        s.after config env { s.toDialManager with toNetworkManager := reported.removePeer env peer.id }
      else { s with toNetworkManager := reported }.takeAddresses env accepted addresses
    else s.takeAddresses env accepted addresses

/-- The handlers that reach the address manager. -/
def handleMessage (p : PeerPtr) (accepted : List Nat) : Message → Node
  | .verack => s.handleVerack config env p
  | .addr addresses => s.handleAddr config env p accepted addresses
  | _ => s

end

/-- What a handler does to the peer itself comes as events of its own. -/
def withoutActions : PeerOp → PeerOp
  | .round env => .round { env with actions := [] }
  | op => op

/-- The messages that one event has passed to the handler. -/
def delivered (before after : PeerLoop) : List Message :=
  (after.session.log.drop before.session.log.length).filterMap (fun
    | .delivered _ m => some m
    | _ => none)

/-- An event of one peer, with the messages that it hands to the node. -/
def peerEvent (config : NodeConfig) (env : NetEnv) (s : Node) (isRunning : Bool) (p : PeerPtr) (op : PeerOp)
    (accepted : List Nat) : Node :=
  match s.loopAt p with
  | none => s
  | some l =>
    let l' := l.step config.session (withoutActions op)
    let s' := s.setLoop p l'
    if isRunning then (delivered l l').foldl (fun s m => s.handleMessage config env p accepted m) s' else s'

end Node

/-! ## Runs -/

/-- The calls on the peer manager that no event loop makes. -/
def ManageOp.isOfManager : ManageOp → Bool
  | .start _ _ | .handleVerack _ | .handlePong _ _ => false
  | _ => true

inductive NodeOp
  | attemptOutboundConnections (env : NetEnv) (isRunning : Bool) (draws : Nat → AddressManager.SelectDraws)
      (connects : Nat → Bool)
  | connectTo (env : NetEnv) (addr : NetworkAddress) (permissions : NetPermissionFlags) (connects : Bool)
  | attemptFeelerConnection (env : NetEnv) (isRunning : Bool) (index : Nat → Nat) (connects : Bool)
  | callback (i : Nat) (success : Bool)
  | complete (env : NetEnv) (i : Nat) (isOpen : Bool) (wire : Wire)
  | handleInboundConnection (env : NetEnv) (isRunning : Bool) (connection : Option (String × BitVec 16))
      (isOpen : Bool) (permissions : NetPermissionFlags) (wire : Wire)
  | peerEvent (env : NetEnv) (isRunning : Bool) (p : PeerPtr) (op : PeerOp) (accepted : List Nat)
  | manage (env : NetEnv) (op : ManageOp)
  | add (env : NetEnv) (addr : NetworkAddress) (timestamp : BitVec 32)
  | cleanupStale (env : NetEnv)

namespace Node

/-- All calls of a run normalize addresses the same way. -/
def step (config : NodeConfig) (s : Node) : NodeOp → Node
  | .attemptOutboundConnections env isRunning draws connects =>
    s.attemptOutboundConnections config (env.normalizing config.parse) isRunning draws connects
  | .connectTo env addr permissions connects =>
    (s.connectTo config (env.normalizing config.parse) addr permissions connects).1
  | .attemptFeelerConnection env isRunning index connects =>
    s.attemptFeelerConnection config (env.normalizing config.parse) isRunning index connects
  | .callback i success => { s with toDialManager := s.toDialManager.callback i success }
  | .complete env i isOpen wire => s.complete config (env.normalizing config.parse) i isOpen wire
  | .handleInboundConnection env isRunning connection isOpen permissions wire =>
    s.handleInboundConnection config (env.normalizing config.parse) isRunning connection isOpen permissions wire
  | .peerEvent env isRunning p op accepted =>
    s.peerEvent config (env.normalizing config.parse) isRunning p op accepted
  | .manage env op =>
    if op.isOfManager then
      s.after config (env.normalizing config.parse) { s.toDialManager with
        toNetworkManager := s.toNetworkManager.manage config.parse op }
    else s
  | .add env addr timestamp => { s with addrManager := (s.addrManager.add env.now addr timestamp).1 }
  | .cleanupStale env => { s with addrManager := s.addrManager.cleanupStale env.now }

def fresh (chainstate : ChainstateManager) (localNonce : BitVec 64) : Node :=
  { DialManager.fresh chainstate with localNonce }

end Node

end UnicityPow
