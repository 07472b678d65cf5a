import UnicityPow.Peer

/-!
# The peer lifecycle manager

Admission, removal and eviction of peers, their misbehaviour scores, and the sync slot of
the header sync manager, which `remove_peer` releases through its notification.
-/

namespace UnicityPow

/-! ## Parameters and environment -/

/-- `PeerLifecycleManager::Config`. -/
structure PeerConfig where
  maxOutboundPeers : Nat := 8
  maxInboundPeers : Nat := 125
  targetOutboundPeers : Nat := 8

def MAX_INBOUND_PER_IP : Nat := 2

def FEELER_MAX_LIFETIME_SEC : Int := 120

def DISCOURAGE_DURATION_SEC : Int := 24 * 60 * 60

def MAX_DISCOURAGED : Nat := 10000

/-- What one call reads of the world: `time` is in seconds, `steadyTime` in nanoseconds.
`canSend` says whether the transport of a connected peer takes a message. -/
structure NetEnv extends Env where
  steadyTime : Int := 0
  validateAndNormalizeIP : String → Option String := some
  isBanned : String → Bool := fun _ => false
  canSend : PeerPtr → Bool := fun _ => true

/-- `duration_cast<seconds>`. -/
def steadySeconds (ns : Int) : Int := ns.tdiv 1000000000

def kMicrosPerSecond : Int := 1000000

def NetEnv.nowUs (env : NetEnv) : Int := env.time * kMicrosPerSecond

/-! ## State -/

structure GetHeadersMessage where
  version : BitVec 32
  blockLocatorHashes : List Uint256
  hashStop : Uint256
deriving DecidableEq

inductive PeerEvent
  | connected (peerId : Int) (address : String) (port : BitVec 16) (connectionType : String)
  | disconnected (peerId : Int) (address : String) (port : BitVec 16) (reason : String) (markAddrGood : Bool)
deriving DecidableEq

/-- The peer store, the peer map with its counter, and the ban manager's discouraged table. -/
structure PeerLifecycleManager where
  peers : List Peer := []
  peerStates : Std.ExtTreeMap Int PeerTrackingData compare := ∅
  nextPeerId : Int := 1
  shuttingDown : Bool := false
  stoppingAll : Bool := false
  discouraged : Std.ExtTreeMap String Int compare := ∅
  peerEvents : List PeerEvent := []

/-- `SyncState` and the size of the last batch. -/
structure HeaderSyncManager where
  syncPeerId : BitVec 64 := NO_SYNC_PEER
  syncStartTimeUs : Int := 0
  lastHeadersReceivedUs : Int := 0
  lastBatchSize : Nat := 0

/-- The managers of one node with the requests sent so far. -/
structure NetworkManager extends PeerLifecycleManager, HeaderSyncManager where
  chainstate : ChainstateManager
  sent : List (PeerPtr × GetHeadersMessage) := []

namespace NetworkManager

/-! ## Peers and their entries -/

/-- The object behind an entry. -/
def peerOf (s : NetworkManager) (d : PeerTrackingData) : Option Peer := s.peers[d.peer]?

/-- The entries whose peer meets a condition, by id. -/
def entriesWhere (s : NetworkManager) (f : Peer → Bool) : List (Int × PeerTrackingData) :=
  s.peerStates.toList.filter (fun kv => (s.peerOf kv.2).any f)

/-- `get_outbound_peers`. The map is kept in the order of the ids, which the source sorts by. -/
def getOutboundPeers (s : NetworkManager) : List PeerPtr :=
  (s.entriesWhere (fun p => !p.isInbound)).map (fun kv => kv.2.peer)

def modifyPeer (s : NetworkManager) (p : PeerPtr) (f : Peer → Peer) : NetworkManager :=
  { s with peers := s.peers.modify p f }

def modifyMisbehavior (s : NetworkManager) (peerId : Int) (f : PeerMisbehaviorData → PeerMisbehaviorData) :
    NetworkManager :=
  { s with peerStates := s.peerStates.modify peerId (·.mapMisbehavior f) }

def setSyncStarted (s : NetworkManager) (p : PeerPtr) (started : Bool) : NetworkManager :=
  s.modifyPeer p (fun peer => { peer with syncStarted := started })

def disconnectPeer (s : NetworkManager) (p : PeerPtr) : NetworkManager := s.modifyPeer p Peer.disconnect

/-! ## The sync slot -/

def hasSyncPeer (s : NetworkManager) : Bool := s.syncPeerId != NO_SYNC_PEER

def setSyncPeer (env : NetEnv) (s : NetworkManager) (peerId : BitVec 64) : NetworkManager :=
  { s with syncPeerId := peerId, syncStartTimeUs := env.nowUs, lastHeadersReceivedUs := env.nowUs }

def clearSyncPeer (s : NetworkManager) : NetworkManager :=
  { s with syncPeerId := NO_SYNC_PEER, syncStartTimeUs := 0 }

def onPeerDisconnected (s : NetworkManager) (peerId : BitVec 64) : NetworkManager :=
  if s.syncPeerId = peerId then
    let s := s.clearSyncPeer
    s.getOutboundPeers.foldl (fun s p => s.setSyncStarted p false) s
  else s

/-! ## Discouraged addresses -/

/-- The entry that expires first. -/
def earliestExpiry : List (String × Int) → Option String
  | [] => none
  | kv :: l => some (l.foldl (fun best kv => if kv.2 < best.2 then kv else best) kv).1

def discourage (env : NetEnv) (s : NetworkManager) (address : String) : NetworkManager :=
  match env.validateAndNormalizeIP address with
  | none => s
  | some normalized =>
    let d := s.discouraged
    let d := if MAX_DISCOURAGED ≤ d.size then d.filter (fun _ expiry => decide (env.time < expiry)) else d
    let d := if MAX_DISCOURAGED ≤ d.size then
        (earliestExpiry d.toList).elim d (fun victim => d.erase victim) else d
    { s with discouraged := d.insert normalized (env.time + DISCOURAGE_DURATION_SEC) }

def isDiscouraged (env : NetEnv) (s : NetworkManager) (address : String) : Bool :=
  match (env.validateAndNormalizeIP address).bind (fun normalized => s.discouraged[normalized]?) with
  | none => false
  | some expiry => decide (env.time < expiry)

/-! ## Removal -/

def disconnectReason (d : PeerMisbehaviorData) : String :=
  if d.shouldDiscourage then "misbehavior (score: " ++ toString d.misbehaviorScore ++ ")" else "disconnected"

def markAddrGood (peer : Peer) (d : PeerMisbehaviorData) : Bool :=
  peer.successfullyConnected && d.misbehaviorScore == 0 && !peer.isInbound && !peer.isFeeler &&
    peer.targetPort != 0 && peer.targetAddress != ""

/-- `NotifyPeerDisconnected`, which the header sync manager subscribes to. -/
def notifyPeerDisconnected (s : NetworkManager) (peerId : Int) (e : PeerEvent) : NetworkManager :=
  { s with peerEvents := s.peerEvents ++ [e] }.onPeerDisconnected (toUint64 peerId)

/-- The address of a misbehaving peer. -/
def discourageMisbehaving (env : NetEnv) (s : NetworkManager) (d : PeerMisbehaviorData) : NetworkManager :=
  if d.shouldDiscourage then (env.validateAndNormalizeIP d.address).elim s (s.discourage env) else s

def removePeer (env : NetEnv) (s : NetworkManager) (peerId : Int) : NetworkManager :=
  match s.peerStates[peerId]? with
  | none => s
  | some d =>
    match s.peerOf d with
    | none => s
    | some peer =>
      let s := s.discourageMisbehaving env d.misbehavior
      let s := { s with peerStates := s.peerStates.erase peerId }
      let s := if s.shuttingDown then s
        else s.notifyPeerDisconnected peerId
          (.disconnected peerId peer.address peer.port (disconnectReason d.misbehavior)
            (markAddrGood peer d.misbehavior))
      s.disconnectPeer d.peer

/-! ## Eviction -/

structure EvictionCandidate where
  peerId : Int
  connectedTime : Int
  pingTimeMs : Int

/-- Inbound peers without `NoBan` that have been connected for ten seconds. -/
def evictionCandidates (env : NetEnv) (s : NetworkManager) : List EvictionCandidate :=
  s.peerStates.toList.filterMap (fun kv =>
    (s.peerOf kv.2).bind (fun peer =>
      if !peer.isInbound || kv.2.misbehavior.noBan ||
          decide (steadySeconds env.steadyTime - peer.connectedTime < 10) then none
      else some ⟨kv.1, peer.connectedTime, peer.pingTimeMs⟩))

def mapPing (p : Int) : Int := if p < 0 then (2 ^ 63 - 1) / 2 else p

/-- `worst_peer_id`, `oldest_connected` and `worst_score`. -/
structure EvictionBest where
  worstPeerId : Int := -1
  oldestConnected : Int := 2 ^ 63 - 1
  worstScore : Int := -2 ^ 63

def EvictionBest.consider (b : EvictionBest) (c : EvictionCandidate) : EvictionBest :=
  let cand := mapPing c.pingTimeMs
  if b.worstScore < cand then ⟨c.peerId, c.connectedTime, cand⟩
  else if cand = b.worstScore then
    if c.connectedTime < b.oldestConnected then { b with worstPeerId := c.peerId, oldestConnected := c.connectedTime }
    else if c.connectedTime = b.oldestConnected ∧ c.peerId < b.worstPeerId then { b with worstPeerId := c.peerId }
    else b
  else b

def evictInboundPeer (env : NetEnv) (s : NetworkManager) : NetworkManager × Bool :=
  match s.evictionCandidates env with
  | [] => (s, false)
  | candidates =>
    let best := candidates.foldl EvictionBest.consider {}
    if 0 ≤ best.worstPeerId then (s.removePeer env best.worstPeerId, true) else (s, false)

/-! ## Admission -/

def inboundCount (s : NetworkManager) : Nat := (s.entriesWhere Peer.isInbound).length

/-- Outbound peers that are neither feelers nor manual. -/
def outboundCount (s : NetworkManager) : Nat :=
  (s.entriesWhere (fun p => !p.isInbound && !p.isFeeler && !p.isManual)).length

def sameIpInbound (env : NetEnv) (s : NetworkManager) (address : String) : Nat :=
  (s.entriesWhere (fun p => p.isInbound && env.validateAndNormalizeIP p.address == some address)).length

/-- The ban checks of a peer without `NoBan`. -/
def refusedAddress (env : NetEnv) (s : NetworkManager) (address : String) : Bool :=
  match env.validateAndNormalizeIP address with
  | none => true
  | some normalized => env.isBanned normalized || s.isDiscouraged env normalized

/-- The room for one more inbound peer, made by an eviction if need be. -/
def makeRoom (config : PeerConfig) (env : NetEnv) (s : NetworkManager) : NetworkManager × Bool :=
  if s.inboundCount < config.maxInboundPeers then (s, true)
  else
    match s.evictInboundPeer env with
    | (s, false) => (s, false)
    | (s, true) => (s, decide (s.inboundCount < config.maxInboundPeers))

/-- The per-IP limit of inbound peers. -/
def admitsIp (env : NetEnv) (s : NetworkManager) (address : String) : Bool :=
  match env.validateAndNormalizeIP address with
  | none => false
  | some normalized => decide (s.sameIpInbound env normalized < MAX_INBOUND_PER_IP)

/-- A new entry under the next id. -/
def insertPeer (env : NetEnv) (s : NetworkManager) (peer : Peer) (permissions : NetPermissionFlags)
    (address : String) : NetworkManager :=
  let peerId := s.nextPeerId
  { s with
    peers := s.peers ++ [{ peer with id := peerId }]
    nextPeerId := toInt32 (peerId + 1)
    peerStates := s.peerStates.insert peerId
      { peer := s.peers.length, createdAt := env.steadyTime, misbehavior := { permissions, address } }
    peerEvents := s.peerEvents ++ [.connected peerId address peer.port
      (if peer.isInbound then "inbound" else if peer.isFeeler then "feeler" else "outbound")] }

/-- `add_peer` of a new object. -/
def addPeer (config : PeerConfig) (env : NetEnv) (s : NetworkManager) (peer : Peer)
    (permissions : NetPermissionFlags) (address : String) : NetworkManager × Int :=
  let peerAddress := if address = "" then peer.address else address
  if s.stoppingAll then (s, -1)
  else if !hasPermission permissions NetPermissionFlags.NoBan && s.refusedAddress env peerAddress then (s, -1)
  else if !peer.isInbound && !peer.isFeeler && !peer.isManual && decide (config.maxOutboundPeers ≤ s.outboundCount)
    then (s, -1)
  else if !peer.isInbound then (s.insertPeer env peer permissions peerAddress, s.nextPeerId)
  else
    match s.makeRoom config env with
    | (s, false) => (s, -1)
    | (s, true) =>
      if !s.admitsIp env peer.address then (s, -1)
      else (s.insertPeer env peer permissions peerAddress, s.nextPeerId)

/-! ## Misbehaviour -/

def misbehaving (s : NetworkManager) (peerId penalty : Int) : NetworkManager :=
  s.modifyMisbehavior peerId (·.misbehaving penalty)

def reportInvalidPoW (s : NetworkManager) (peerId : Int) : NetworkManager :=
  s.misbehaving peerId MisbehaviorPenalty.INVALID_POW

def reportOversizedMessage (s : NetworkManager) (peerId : Int) : NetworkManager :=
  s.misbehaving peerId MisbehaviorPenalty.OVERSIZED_MESSAGE

def reportNonContinuousHeaders (s : NetworkManager) (peerId : Int) : NetworkManager :=
  s.misbehaving peerId MisbehaviorPenalty.NON_CONTINUOUS_HEADERS

def reportInvalidHeader (s : NetworkManager) (peerId : Int) : NetworkManager :=
  s.misbehaving peerId MisbehaviorPenalty.INVALID_HEADER

def reportTooManyOrphans (s : NetworkManager) (peerId : Int) : NetworkManager :=
  s.misbehaving peerId MisbehaviorPenalty.TOO_MANY_ORPHANS

def incrementUnconnectingHeaders (s : NetworkManager) (peerId : Int) : NetworkManager :=
  s.modifyMisbehavior peerId PeerMisbehaviorData.incrementUnconnecting

def resetUnconnectingHeaders (s : NetworkManager) (peerId : Int) : NetworkManager :=
  s.modifyMisbehavior peerId PeerMisbehaviorData.resetUnconnecting

def noteInvalidHeaderHash (s : NetworkManager) (peerId : Int) (hash : Uint256) : NetworkManager :=
  s.modifyMisbehavior peerId (·.noteInvalidHeaderHash hash)

def hasInvalidHeaderHash (s : NetworkManager) (peerId : Int) (hash : Uint256) : Bool :=
  s.peerStates[peerId]?.any (fun d => d.misbehavior.invalidHeaderHashes.contains hash.getHex)

def shouldDisconnect (s : NetworkManager) (peerId : Int) : Bool :=
  s.peerStates[peerId]?.any (fun d => !d.misbehavior.noBan && d.misbehavior.shouldDiscourage)

/-- `if (ShouldDisconnect(peer_id)) remove_peer(peer_id)`. -/
def removeIfMisbehaving (env : NetEnv) (s : NetworkManager) (peerId : Int) : NetworkManager :=
  if s.shouldDisconnect peerId then s.removePeer env peerId else s

/-! ## Periodic maintenance -/

/-- What `process_periodic` removes. -/
def shouldSweep (env : NetEnv) (s : NetworkManager) (d : PeerTrackingData) : Bool :=
  (s.peerOf d).any (fun peer =>
    !peer.isConnected ||
    (peer.isFeeler && decide (FEELER_MAX_LIFETIME_SEC ≤ steadySeconds (env.steadyTime - d.createdAt))) ||
    (d.misbehavior.shouldDiscourage && !d.misbehavior.noBan))

def processPeriodic (env : NetEnv) (s : NetworkManager) : NetworkManager :=
  ((s.peerStates.toList.filter (fun kv => s.shouldSweep env kv.2)).map Prod.fst).foldl (removePeer env) s

end NetworkManager

end UnicityPow
