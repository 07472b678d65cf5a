import UnicityPow.PeerManager
import UnicityPow.HeaderBatch
import UnicityPow.Runs

/-!
# Header synchronisation

The handlers of the header sync and block relay managers, and the network layer as one
state machine: messages of any peer object, timers, and admission and removal of peers.
-/

namespace UnicityPow

def PROTOCOL_VERSION : BitVec 32 := 1

def kHeadersSyncTimeoutUs : Int := 120 * kMicrosPerSecond

def kMaxUnsolicitedAnnouncement : Nat := 2

def MSG_BLOCK : BitVec 32 := 2

structure InventoryVector where
  type : BitVec 32
  hash : Uint256
deriving DecidableEq

namespace NetworkManager

section
variable (getHash : CBlockHeader → Uint256) (params : ConsensusParams)

/-! ## Calls on the chainstate -/

def isInitialBlockDownload (env : NetEnv) (s : NetworkManager) : NetworkManager × Bool :=
  let r := s.chainstate.isInitialBlockDownload params env.toEnv
  ({ s with chainstate := r.1 }, r.2)

/-! ## Requests -/

/-- `RequestHeadersFromPeer`. A message to a peer that is gone is dropped. -/
def requestHeadersFromPeer (env : NetEnv) (s : NetworkManager) (p : PeerPtr) : NetworkManager :=
  let msg := ⟨PROTOCOL_VERSION, s.chainstate.getLocatorFromPrev, 0⟩
  if s.peers[p]?.any (fun peer => peer.isConnected && peer.connection.isSome) && env.canSend p then
    { s with sent := s.sent ++ [(p, msg)] }
  else s

/-- The first peer that `CheckInitialSync` can select. -/
def syncCandidate (s : NetworkManager) : Option (PeerPtr × Peer) :=
  s.getOutboundPeers.findSome? (fun p => s.peers[p]?.bind (fun peer =>
    if !peer.syncStarted && !peer.isFeeler && peer.successfullyConnected then some (p, peer) else none))

def checkInitialSync (env : NetEnv) (s : NetworkManager) : NetworkManager :=
  if s.hasSyncPeer then s
  else
    match s.syncCandidate with
    | none => s
    | some (p, peer) => ((s.setSyncPeer env (toUint64 peer.id)).setSyncStarted p true).requestHeadersFromPeer env p

/-- The stall of `ProcessTimers`. -/
def isStalled (env : NetEnv) (s : NetworkManager) : Bool :=
  s.hasSyncPeer && decide (0 < s.lastHeadersReceivedUs) &&
    decide (kHeadersSyncTimeoutUs < env.nowUs - s.lastHeadersReceivedUs)

def processTimers (env : NetEnv) (s : NetworkManager) : NetworkManager :=
  if s.isStalled env then s.removePeer env (ofUint64 s.syncPeerId) else s

/-! ## Announcements -/

/-- The loop of `HandleInvMessage`; the answer is `should_request_headers`. -/
def processInventory (env : NetEnv) (p : PeerPtr) (peer : Peer) :
    List InventoryVector → NetworkManager → NetworkManager × Bool
  | [], s => (s, false)
  | inv :: rest, s =>
    if inv.type ≠ MSG_BLOCK ∨ inv.hash ∈ s.chainstate.blockIndex then processInventory env p peer rest s
    else
      match s.isInitialBlockDownload params env with
      | (s, false) => (s, true)
      | (s, true) =>
        if s.hasSyncPeer then
          if s.syncPeerId = toUint64 peer.id then (s, true) else processInventory env p peer rest s
        else if !peer.isInbound then ((s.setSyncPeer env (toUint64 peer.id)).setSyncStarted p true, true)
        else processInventory env p peer rest s

def handleInvMessage (env : NetEnv) (s : NetworkManager) (p : PeerPtr) (peer : Peer)
    (inventory : List InventoryVector) : NetworkManager :=
  match processInventory params env p peer inventory s with
  | (s, false) => s
  | (s, true) => (s.isInitialBlockDownload params env).1.requestHeadersFromPeer env p

/-! ## Headers -/

/-- The gate of the initial download on batches from other peers than the sync peer. -/
def gatesBatch (s : NetworkManager) (peerId : Int) (headers : List CBlockHeader) : Bool :=
  decide (kMaxUnsolicitedAnnouncement < headers.length) &&
    (s.syncPeerId == NO_SYNC_PEER || toUint64 peerId != s.syncPeerId)

/-- `skip_dos_checks`: the last header is on the active chain. -/
def skipDosChecks (s : NetworkManager) (headers : List CBlockHeader) : Bool :=
  headers.getLast?.any (fun header =>
    decide (getHash header ∈ s.chainstate.blockIndex) && s.chainstate.isOnActiveChain (getHash header))

/-- The end of a batch that earned a penalty. -/
def dropBatch (env : NetEnv) (s : NetworkManager) (peerId : Int) : NetworkManager :=
  (s.removeIfMisbehaving env peerId).clearSyncPeer

/-- The low-work check: the parent is known and the batch does not reach the threshold. -/
def isLowWork (s : NetworkManager) (headers : List CBlockHeader) (first : CBlockHeader) : Bool :=
  s.chainstate.blockIndex[first.hashPrevBlock]?.any (fun chainStart =>
    decide (chainStart.nChainWork + calculateHeadersWork headers <
      getAntiDoSWorkThreshold params s.chainstate.tipIndex))

/-- The reasons for which a header is called invalid. -/
def invalidHeaderReasons : List String :=
  ["high-hash", "bad-diffbits", "time-too-old", "time-too-new", "bad-version", "bad-prevblk", "bad-genesis",
    "genesis-via-accept"]

/-- The penalty for a header known to be invalid, once for each hash and peer. -/
def penaliseHeader (env : NetEnv) (s : NetworkManager) (peerId : Int) (hash : Uint256) : NetworkManager × Bool :=
  if s.hasInvalidHeaderHash peerId hash then (s, true)
  else (((s.reportInvalidHeader peerId).noteInvalidHeaderHash peerId hash).dropBatch env peerId, false)

/-- A header that `AcceptBlockHeader` refused; the answer says whether the batch goes on. -/
def handleRefused (env : NetEnv) (s : NetworkManager) (peerId : Int) (skipDos : Bool) (header : CBlockHeader)
    (reason : String) : NetworkManager × Bool :=
  let hash := getHash header
  if reason = "prev-blk-not-found" then
    match s.chainstate.addOrphanHeader getHash params env.toEnv header peerId with
    | (chain, true) => ({ s with chainstate := chain }, true)
    | (chain, false) =>
      ((({ s with chainstate := chain } : NetworkManager).reportTooManyOrphans peerId).dropBatch env peerId, false)
  else if reason = "duplicate" then
    if skipDos then (s, true)
    else if s.chainstate.blockIndex.isValid hash then (s, true)
    else s.penaliseHeader env peerId hash
  else if reason ∈ invalidHeaderReasons then s.penaliseHeader env peerId hash
  else (s.clearSyncPeer, false)

/-- One round of the accept loop. -/
def acceptHeader (env : NetEnv) (s : NetworkManager) (peerId : Int) (skipDos : Bool) (header : CBlockHeader) :
    NetworkManager × Bool :=
  match s.chainstate.acceptBlockHeader getHash params env.toEnv header true with
  | (chain, .ok pindex) => ({ s with chainstate := chain.tryAddCandidate pindex }, true)
  | (chain, .error state) =>
    handleRefused getHash params env { s with chainstate := chain } peerId skipDos header state.rejectReason

/-- The accept loop. -/
def acceptHeaders (env : NetEnv) (peerId : Int) (skipDos : Bool) :
    List CBlockHeader → NetworkManager → NetworkManager × Bool
  | [], s => (s, true)
  | header :: rest, s =>
    match s.acceptHeader getHash params env peerId skipDos header with
    | (s, false) => (s, false)
    | (s, true) => acceptHeaders env peerId skipDos rest s

/-- What follows the accept loop: activation and the next request. -/
def finishBatch (env : NetEnv) (s : NetworkManager) (p : PeerPtr) : NetworkManager × Bool :=
  match ChainstateManager.activateBestChain params s.chainstate none with
  | (chain, false, _) => (({ s with chainstate := chain } : NetworkManager).clearSyncPeer, false)
  | (chain, true, _) =>
    let s := (({ s with chainstate := chain } : NetworkManager).isInitialBlockDownload params env).1
    (if s.lastBatchSize = MAX_HEADERS_SIZE then s.requestHeadersFromPeer env p else s, true)

/-- `HandleHeadersMessage` from the accept loop on. -/
def acceptBatch (env : NetEnv) (s : NetworkManager) (p : PeerPtr) (peerId : Int) (skipDos : Bool)
    (headers : List CBlockHeader) : NetworkManager × Bool :=
  match acceptHeaders getHash params env peerId skipDos headers { s with lastBatchSize := headers.length } with
  | (s, false) => (s, false)
  | (s, true) => s.finishBatch params env p

/-- `HandleHeadersMessage` on a batch of acceptable size. -/
def processBatch (env : NetEnv) (s : NetworkManager) (p : PeerPtr) (peerId : Int) (skipDos : Bool)
    (first : CBlockHeader) (headers : List CBlockHeader) : NetworkManager × Bool :=
  let prevExists := decide (first.hashPrevBlock ∈ s.chainstate.blockIndex)
  let s := if prevExists then s else (s.incrementUnconnectingHeaders peerId).removeIfMisbehaving env peerId
  if !s.chainstate.checkHeadersPoW env.toEnv headers then ((s.reportInvalidPoW peerId).dropBatch env peerId, false)
  else if !checkHeadersAreContinuous getHash headers then
    ((s.reportNonContinuousHeaders peerId).dropBatch env peerId, false)
  else
    let s := if prevExists then s.resetUnconnectingHeaders peerId else s
    if !skipDos && s.isLowWork params headers first then
      (if headers.length = MAX_HEADERS_SIZE then s.requestHeadersFromPeer env p else s, true)
    else s.acceptBatch getHash params env p peerId skipDos headers

/-- `HandleHeadersMessage` behind the gate of the initial download. -/
def processHeaders (env : NetEnv) (s : NetworkManager) (p : PeerPtr) (peerId : Int) (headers : List CBlockHeader) :
    NetworkManager × Bool :=
  let skipDos := s.skipDosChecks getHash headers
  let s := { s with lastHeadersReceivedUs := env.nowUs }
  match headers with
  | [] => (s, true)
  | first :: _ =>
    if MAX_HEADERS_SIZE < headers.length then ((s.reportOversizedMessage peerId).dropBatch env peerId, false)
    else s.processBatch getHash params env p peerId skipDos first headers

def handleHeadersMessage (env : NetEnv) (s : NetworkManager) (p : PeerPtr) (peer : Peer)
    (headers : List CBlockHeader) : NetworkManager × Bool :=
  match s.isInitialBlockDownload params env with
  | (s, true) =>
    if s.gatesBatch peer.id headers then (s, true) else s.processHeaders getHash params env p peer.id headers
  | (s, false) => s.processHeaders getHash params env p peer.id headers

/-! ## Serving headers -/

def getPeerPermissions (s : NetworkManager) (peerId : Int) : NetPermissionFlags :=
  s.peerStates[peerId]?.elim NetPermissionFlags.None (fun d => d.misbehavior.permissions)

/-- The tip is missing or has less than the minimum work. -/
def lacksWork (s : NetworkManager) : Bool :=
  !s.chainstate.tipIndex.any (fun tip => decide (uintToArith256 params.nMinimumChainWork ≤ tip.nChainWork))

/-- The first hash of a locator that is on the active chain. -/
def findForkPoint (s : NetworkManager) (locator : List Uint256) : Option BlockPtr :=
  locator.find? (fun hash => decide (hash ∈ s.chainstate.blockIndex) && s.chainstate.isOnActiveChain hash)

/-- The loop that collects headers, `room` of them at most. -/
def collectHeaders (s : NetworkManager) (hashStop : Uint256) : Nat → Option BlockPtr → List CBlockHeader
  | 0, _ => []
  | _ + 1, none => []
  | room + 1, some pindex =>
    s.chainstate.headerOf pindex ::
      if hashStop ≠ 0 ∧ pindex = hashStop then []
      else if s.chainstate.getTip = some pindex then []
      else
        collectHeaders s hashStop room
          (s.chainstate.getBlockAtHeight (s.chainstate.blockIndex.nHeight pindex + 1))

/-- `HandleGetHeadersMessage`: the headers of the answer, which is sent in every case. -/
def handleGetHeadersMessage (s : NetworkManager) (peerId : Int) (msg : GetHeadersMessage) : List CBlockHeader :=
  if s.lacksWork params && !hasPermission (s.getPeerPermissions peerId) NetPermissionFlags.Download then []
  else
    match s.findForkPoint msg.blockLocatorHashes with
    | none => []
    | some forkPoint =>
      s.collectHeaders msg.hashStop MAX_HEADERS_SIZE
        (s.chainstate.getBlockAtHeight (s.chainstate.blockIndex.nHeight forkPoint + 1))

end

end NetworkManager

/-! ## Runs -/

/-- A call into the network layer. A message is one of any object ever added, so also one
that was still buffered when its peer was removed. -/
inductive NetOp
  | addPeer (env : NetEnv) (peer : Peer) (permissions : NetPermissionFlags) (address : String)
  | removePeer (env : NetEnv) (peerId : Int)
  | processPeriodic (env : NetEnv)
  | checkInitialSync (env : NetEnv)
  | processTimers (env : NetEnv)
  | handleInv (env : NetEnv) (p : PeerPtr) (inventory : List InventoryVector)
  | handleHeaders (env : NetEnv) (p : PeerPtr) (headers : List CBlockHeader)
  | handleVerack (p : PeerPtr)
  | start (env : NetEnv) (p : PeerPtr)
  | handlePong (p : PeerPtr) (pingTimeMs : Int)
  | disconnect (p : PeerPtr)
  | chain (op : ChainOp)

namespace NetworkManager

def fresh (chainstate : ChainstateManager) : NetworkManager := { chainstate }

/-- The dispatcher's handler of a message: a peer that has not finished the handshake is
disconnected instead. -/
def dispatch (s : NetworkManager) (p : PeerPtr) (handler : Peer → NetworkManager) : NetworkManager :=
  match s.peers[p]? with
  | none => s
  | some peer => if peer.successfullyConnected then handler peer else s.disconnectPeer p

def step (getHash : CBlockHeader → Uint256) (params : ConsensusParams) (config : PeerConfig) (s : NetworkManager) :
    NetOp → NetworkManager
  | .addPeer env peer permissions address => (s.addPeer config env peer permissions address).1
  | .removePeer env peerId => s.removePeer env peerId
  | .processPeriodic env => s.processPeriodic env
  | .checkInitialSync env => s.checkInitialSync env
  | .processTimers env => s.processTimers env
  | .handleInv env p inventory => s.dispatch p (fun peer => s.handleInvMessage params env p peer inventory)
  | .handleHeaders env p headers =>
    s.dispatch p (fun peer => (s.handleHeadersMessage getHash params env p peer headers).1)
  | .handleVerack p => s.modifyPeer p Peer.handleVerack
  | .start env p => s.modifyPeer p (fun peer => { peer with connectedTime := steadySeconds env.steadyTime })
  | .handlePong p pingTimeMs => s.modifyPeer p (fun peer => { peer with pingTimeMs })
  | .disconnect p => s.disconnectPeer p
  | .chain op => { s with chainstate := s.chainstate.step getHash params op }

end NetworkManager

end UnicityPow
