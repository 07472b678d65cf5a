import UnicityPow.Frame
import UnicityPow.Lifecycle

/-!
# Sessions

One `Peer` on its event loop: the handshake, the loop over its buffer, timers, and the
disconnections that are posted while that loop goes on.
-/

namespace UnicityPow

open Framing

/-! ## Constants -/

def MIN_PROTOCOL_VERSION : Int := 1

def NODE_NETWORK : BitVec 64 := 1

def PING_TIMEOUT_SEC : Int := 20 * 60

def INACTIVITY_TIMEOUT_SEC : Int := 20 * 60

/-! ## What happens in a session -/

/-- Why a session is to end, as `process_received_data` and `process_message` decide it. -/
inductive Violation
  | framing | beforeVersion | unknownCommands | malformed | obsoleteVersion | selfConnection
deriving DecidableEq

/-- What a session did, with the number of the message that it was at. -/
inductive SessionEvent
  /-- Written to `state_`. -/
  | state (state : PeerConnectionState)
  /-- Handed to `send_message`. -/
  | handed (m : Message)
  /-- Passed to `handle_version`. -/
  | version (n : Nat) (m : VersionMessage)
  /-- The VERSION that `handle_version` took, and the state that it found. -/
  | accepted (state : PeerConnectionState) (m : VersionMessage)
  /-- Passed to `handle_verack`. -/
  | verack (n : Nat)
  /-- Passed to `message_handler_`. -/
  | delivered (n : Nat) (m : Message)
  | violation (n : Nat) (reason : Violation)
  | timeData (address : NetworkAddress) (timeOffset : Int)
deriving DecidableEq

/-- What is the same for all peers of a node. -/
structure SessionConfig where
  networkMagic : BitVec 32
  computeChecksum : List UInt8 → BitVec 32
  networkAddressFromString : String → BitVec 16 → NetworkAddress
  userAgent : List UInt8 := []

/-- `Peer` but for its receive buffer. Times are steady-clock nanoseconds, but those of the
last traffic are seconds. -/
structure PeerSession where
  peer : Peer
  localNonce : BitVec 64
  localStartHeight : BitVec 32 := 0
  started : Bool := false
  /-- The transport has the callbacks. -/
  callbacks : Bool := false
  messageHandler : Bool := false
  messagesReceived : Nat := 0
  peerVersion : BitVec 32 := 0
  peerServices : BitVec 64 := 0
  peerStartHeight : BitVec 32 := 0
  peerUserAgent : List UInt8 := []
  peerNonce : BitVec 64 := 0
  lastPingNonce : BitVec 64 := 0
  pingSentTime : Int := 0
  lastSend : Int := 0
  lastRecv : Int := 0
  unknownCommandCount : Int := 0
  lastUnknownReset : Int := 0
  postedDisconnects : Nat := 0
  log : List SessionEvent := []

/-- What the transport answers while one message is sent. -/
structure Wire where
  isOpen : Bool := true
  send : Bool := true

/-- The messages that are sent from outside the handshake. -/
def Message.IsOrdinary (m : Message) : Prop := m.command ≠ "version" ∧ m.command ≠ "verack"

instance (m : Message) : Decidable m.IsOrdinary := inferInstanceAs (Decidable (_ ∧ _))

abbrev OrdinaryMessage := { m : Message // m.IsOrdinary }

/-- What a message handler does to the peer it is called for. -/
inductive HandlerAction
  | disconnect
  | send (m : OrdinaryMessage) (wire : Wire)

/-- What one message reads of the world: the steady clock in nanoseconds, the wall clock in
seconds, the transport, and the handler. -/
structure MessageEnv where
  steadyTime : Int := 0
  time : Int := 0
  versionWire : Wire := {}
  verackWire : Wire := {}
  pongWire : Wire := {}
  actions : List HandlerAction := []

namespace PeerSession

section
variable (s : PeerSession)

def record (e : SessionEvent) : PeerSession := { s with log := s.log ++ [e] }

def setState (state : PeerConnectionState) : PeerSession :=
  { s with peer := { s.peer with state } }.record (.state state)

/-! ## Disconnection -/

def postDisconnect : PeerSession := { s with postedDisconnects := s.postedDisconnects + 1 }

/-- A posted disconnection for a violation. -/
def violate (reason : Violation) : PeerSession := (s.record (.violation s.messagesReceived reason)).postDisconnect

/-- The connection, if it is still there, is released and its callbacks are cleared. -/
def releaseConnection : PeerSession :=
  { s with callbacks := s.callbacks && s.peer.connection.isNone, peer := { s.peer with connection := none } }

def doDisconnect : PeerSession :=
  if s.peer.isConnected then (s.setState .DISCONNECTING).releaseConnection.setState .DISCONNECTED else s

def onTransportDisconnect : PeerSession :=
  if s.peer.state ≠ .DISCONNECTED then s.releaseConnection.setState .DISCONNECTED else s

/-- The posted tasks run one by one. -/
def runPosted : PeerSession :=
  if s.postedDisconnects = 0 then s
  else { s with postedDisconnects := s.postedDisconnects - 1 }.doDisconnect

/-! ## Sending -/

def sendMessage (steadyTime : Int) (wire : Wire) (m : Message) : PeerSession :=
  let s := s.record (.handed m)
  if !s.peer.isConnected then s
  else if s.peer.connection.isNone || !wire.isOpen then s.postDisconnect
  else if wire.send then { s with lastSend := steadySeconds steadyTime }
  else s.postDisconnect

/-- The message of `send_version`. -/
def versionMessage (config : SessionConfig) (time : Int) : VersionMessage where
  version := PROTOCOL_VERSION
  services := NODE_NETWORK
  timestamp := BitVec.ofInt 64 time
  addrRecv := s.peer.connection.elim {} fun remote => config.networkAddressFromString remote.1 remote.2
  addrFrom := {}
  nonce := s.localNonce
  userAgent := config.userAgent
  startHeight := s.localStartHeight

/-- The state is set whatever became of the message. -/
def sendVersion (config : SessionConfig) (steadyTime time : Int) (wire : Wire) : PeerSession :=
  (s.sendMessage steadyTime wire (.version (s.versionMessage config time))).setState .VERSION_SENT

/-! ## Start -/

/-- The times of a connection, and its callbacks. -/
def register (steadyTime : Int) : PeerSession :=
  let now := steadySeconds steadyTime
  { s with peer := { s.peer with connectedTime := now }, lastSend := now, lastRecv := now, callbacks := true }

def start (config : SessionConfig) (steadyTime time : Int) (isOpen : Bool) (wire : Wire) : PeerSession :=
  if s.started then s
  else
    let s := { s with started := true }
    if s.peer.state ≠ .CONNECTING ∧ s.peer.state ≠ .CONNECTED then s
    else if s.peer.state = .CONNECTING ∧ !(s.peer.connection.isSome && isOpen) then s
    else
      let s := if s.peer.state = .CONNECTING then s.setState .CONNECTED else s
      let s := s.register steadyTime
      if s.peer.isInbound then s else s.sendVersion config steadyTime time wire

/-! ## Messages -/

/-- The fields that are taken over from a VERSION. -/
def takeVersion (m : VersionMessage) : PeerSession :=
  { s with
    peerVersion := m.version
    peerServices := m.services
    peerStartHeight := m.startHeight
    peerUserAgent := m.userAgent
    peerNonce := m.nonce }

/-- The offset of a peer's clock, with negative timestamps read as zero. -/
def timeOffset (m : VersionMessage) (time : Int) : Int := max m.timestamp.toInt 0 - time

def handleVersion (config : SessionConfig) (env : MessageEnv) (m : VersionMessage) : PeerSession :=
  let s := s.record (.version s.messagesReceived m)
  if s.peerVersion ≠ 0 then s
  else if m.version.toInt < MIN_PROTOCOL_VERSION then s.violate .obsoleteVersion
  else
    let s := (s.record (.accepted s.peer.state m)).takeVersion m
    if s.peer.isInbound && s.peerNonce == s.localNonce then s.violate .selfConnection
    else
      -- only outbound peers give a sample of the time
      let s := if !s.peer.isInbound then
          s.record (.timeData (config.networkAddressFromString s.peer.address s.peer.port) (timeOffset m env.time))
        else s
      let s := if s.peer.isInbound && s.peer.state == .CONNECTED then
          s.sendVersion config env.steadyTime env.time env.versionWire
        else s
      s.sendMessage env.steadyTime env.verackWire .verack

def completeHandshake : PeerSession :=
  let s := s.setState .READY
  { s with peer := { s.peer with successfullyConnected := true } }

def handleVerack : PeerSession :=
  let s := s.record (.verack s.messagesReceived)
  if s.peer.successfullyConnected then s
  else if s.peer.isFeeler then s.completeHandshake.postDisconnect
  else s.completeHandshake

def handlePong (steadyTime : Int) (nonce : BitVec 64) : PeerSession :=
  if nonce = s.lastPingNonce then
    { s with
      peer := { s.peer with pingTimeMs := (steadyTime - s.pingSentTime).tdiv 1000000 }
      lastPingNonce := 0 }
  else s

def act (steadyTime : Int) : HandlerAction → PeerSession
  | .disconnect => s.doDisconnect
  | .send m wire => s.sendMessage steadyTime wire m.1

/-- The message handler, where there is one. -/
def deliver (env : MessageEnv) (m : Message) : PeerSession :=
  if s.messageHandler then
    env.actions.foldl (fun s a => s.act env.steadyTime a) (s.record (.delivered s.messagesReceived m))
  else s

end

/-- `create_message` finds a class for the command. -/
def createMessage (command : String) : Bool :=
  command ∈ ["version", "verack", "ping", "pong", "addr", "getaddr", "inv", "getheaders", "headers"]

section
variable (s : PeerSession)

/-- A message of no known command, counted within 60 seconds. -/
def unknownCommand (steadyTime : Int) : PeerSession :=
  let s := if 60 < steadySeconds (steadyTime - s.lastUnknownReset) then
      { s with unknownCommandCount := 0, lastUnknownReset := steadyTime }
    else s
  let s := { s with unknownCommandCount := toInt32 (s.unknownCommandCount + 1) }
  if 20 < s.unknownCommandCount then s.violate .unknownCommands else s

/-- What is done with a message that was read. -/
def handle (config : SessionConfig) (env : MessageEnv) : Message → PeerSession
  | .version m => (s.handleVersion config env m).deliver env (.version m)
  | .verack => s.handleVerack.deliver env .verack
  | .ping nonce => s.sendMessage env.steadyTime env.pongWire (.pong nonce)
  | .pong nonce => s.handlePong env.steadyTime nonce
  | m => s.deliver env m

/-- One more message. -/
def count : PeerSession := { s with messagesReceived := s.messagesReceived + 1 }

def processMessage (config : SessionConfig) (env : MessageEnv) (x : MessageHeader × List UInt8) : PeerSession :=
  let s := s.count
  let command := x.1.getCommand
  if s.peerVersion = 0 ∧ command ≠ "version" then s.violate .beforeVersion
  else if !createMessage command then s.unknownCommand env.steadyTime
  else
    match Message.deserialize command x.2 with
    | none => s.violate .malformed
    | some m => s.handle config env m

/-! ## Timers -/

def sendPing (steadyTime : Int) (wire : Wire) (nonce : BitVec 64) : PeerSession :=
  { s with lastPingNonce := nonce, pingSentTime := steadyTime }.sendMessage steadyTime wire (.ping nonce)

def pingTimer (steadyTime : Int) (wire : Wire) (nonce : BitVec 64) : PeerSession :=
  if !s.peer.isConnected then s
  else if s.lastPingNonce ≠ 0 then
    if PING_TIMEOUT_SEC < steadySeconds (steadyTime - s.pingSentTime) then s.doDisconnect else s
  else s.sendPing steadyTime wire nonce

def handshakeTimer : PeerSession :=
  if !s.peer.isConnected then s else if s.peer.state ≠ .READY then s.doDisconnect else s

def inactivityTimer (steadyTime : Int) : PeerSession :=
  if !s.peer.isConnected then s
  else if INACTIVITY_TIMEOUT_SEC < steadySeconds steadyTime - max s.lastSend s.lastRecv then s.doDisconnect
  else s

end

end PeerSession

/-! ## The event loop -/

/-- A peer: its session and its receive buffer, and whether `process_received_data` is on. -/
structure PeerLoop where
  session : PeerSession
  buffer : RecvBuffer := .empty
  processing : Bool := false

/-- `create_inbound` or `create_outbound`. -/
inductive Creation
  | inbound (connection : Option (String × BitVec 16)) (isOpen : Bool)
  | outbound (connection : Option (String × BitVec 16)) (isOpen : Bool) (targetAddress : String)
      (targetPort : BitVec 16) (connectionType : ConnectionType)

def Creation.peer : Creation → Peer
  | inbound connection isOpen => .createInbound connection isOpen
  | outbound connection isOpen targetAddress targetPort connectionType =>
    .createOutbound connection isOpen targetAddress targetPort connectionType

/-- An event on the event loop, or one round of `process_received_data`. Timers may run out
at any time. -/
inductive PeerOp
  | setMessageHandler
  | start (steadyTime time : Int) (isOpen : Bool) (wire : Wire)
  | receive (steadyTime : Int) (data : List UInt8)
  | round (env : MessageEnv)
  | runPosted
  | disconnect
  | transportDisconnect
  | pingTimer (steadyTime : Int) (wire : Wire) (nonce : BitVec 64)
  | handshakeTimer
  | inactivityTimer (steadyTime : Int)
  | send (steadyTime : Int) (wire : Wire) (m : OrdinaryMessage)

namespace PeerLoop

section
variable (config : SessionConfig) (l : PeerLoop)

/-- `on_transport_receive`, up to its loop. -/
def receive (steadyTime : Int) (data : List UInt8) : PeerLoop :=
  match l.buffer.accept data with
  | none => { l with session := l.session.postDisconnect }
  | some buffer => ⟨{ l.session with lastRecv := steadySeconds steadyTime }, buffer, true⟩

/-- One round of the loop: a frame that is not whole or is bad ends it. -/
def round (env : MessageEnv) : PeerLoop :=
  match h : readFrame config.networkMagic config.computeChecksum l.buffer.unread with
  | .more => { l with processing := false }
  | .bad => { l with session := l.session.violate .framing, processing := false }
  | .item x n =>
    { l with session := l.session.processMessage config env x, buffer := l.buffer.advance n (readFrame_size h).2 }

/-- An event on a session whose loop is not on. -/
def onSession : PeerOp → PeerSession
  | .setMessageHandler => { l.session with messageHandler := true }
  | .start steadyTime time isOpen wire => l.session.start config steadyTime time isOpen wire
  | .runPosted => l.session.runPosted
  | .disconnect => l.session.doDisconnect
  | .transportDisconnect => if l.session.started then l.session.onTransportDisconnect else l.session
  | .pingTimer steadyTime wire nonce => l.session.pingTimer steadyTime wire nonce
  | .handshakeTimer => l.session.handshakeTimer
  | .inactivityTimer steadyTime => l.session.inactivityTimer steadyTime
  | .send steadyTime wire m => l.session.sendMessage steadyTime wire m.1
  | _ => l.session

/-- Nothing else runs while the loop is on. -/
def step : PeerOp → PeerLoop
  | .round env => if l.processing then l.round config env else l
  | .receive steadyTime data => if !l.processing && l.session.callbacks then l.receive steadyTime data else l
  | op => if l.processing then l else { l with session := l.onSession config op }

def run (ops : List PeerOp) : PeerLoop := ops.foldl (step config) l

end

/-- A new peer with its nonce. -/
def create (creation : Creation) (localNonce : BitVec 64) (localStartHeight : BitVec 32) (steadyTime : Int) :
    PeerLoop where
  session := { peer := creation.peer, localNonce, localStartHeight, lastUnknownReset := steadyTime,
               log := [.state creation.peer.state] }

end PeerLoop

end UnicityPow
