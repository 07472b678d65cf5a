import UnicityPow.HeaderSync

/-!
# Penalties

What the HEADERS messages of a peer do to its misbehaviour data, as a list of events, and the
network layer with an account of these events for each connection.
-/

namespace UnicityPow

/-! ## Events -/

/-- What `HandleHeadersMessage` reports of a peer. A header that it calls invalid is charged and
noted at once. -/
inductive PenaltyEvent
  | unconnecting | connecting | oversizedMessage | invalidPoW | nonContinuousHeaders | tooManyOrphans
  | invalidHeader (hash : Uint256)
deriving DecidableEq

namespace PenaltyEvent

def apply (d : PeerMisbehaviorData) : PenaltyEvent → PeerMisbehaviorData
  | unconnecting => d.incrementUnconnecting
  | connecting => d.resetUnconnecting
  | oversizedMessage => d.misbehaving MisbehaviorPenalty.OVERSIZED_MESSAGE
  | invalidPoW => d.misbehaving MisbehaviorPenalty.INVALID_POW
  | nonContinuousHeaders => d.misbehaving MisbehaviorPenalty.NON_CONTINUOUS_HEADERS
  | tooManyOrphans => d.misbehaving MisbehaviorPenalty.TOO_MANY_ORPHANS
  | invalidHeader hash => (d.misbehaving MisbehaviorPenalty.INVALID_HEADER).noteInvalidHeaderHash hash

end PenaltyEvent

namespace NetworkManager

section
variable (getHash : CBlockHeader → Uint256) (params : ConsensusParams)

/-! ## The events of one message -/

/-- The events of `penalise_header`. -/
def penaliseEvents (s : NetworkManager) (peerId : Int) (hash : Uint256) : List PenaltyEvent :=
  if s.hasInvalidHeaderHash peerId hash then [] else [.invalidHeader hash]

/-- The events of `handleRefused`. -/
def refusedEvents (env : NetEnv) (s : NetworkManager) (peerId : Int) (skipDos : Bool) (header : CBlockHeader)
    (reason : String) : List PenaltyEvent :=
  let hash := getHash header
  if reason = "prev-blk-not-found" then
    if (s.chainstate.addOrphanHeader getHash params env.toEnv header peerId).2 then [] else [.tooManyOrphans]
  else if reason = "duplicate" then
    if skipDos || s.chainstate.blockIndex.isValid hash then [] else s.penaliseEvents peerId hash
  else if reason ∈ invalidHeaderReasons then s.penaliseEvents peerId hash
  else []

/-- The events of one round of the accept loop. -/
def headerEvents (env : NetEnv) (s : NetworkManager) (peerId : Int) (skipDos : Bool) (header : CBlockHeader) :
    List PenaltyEvent :=
  match s.chainstate.acceptBlockHeader getHash params env.toEnv header true with
  | (_, .ok _) => []
  | (chain, .error state) =>
    refusedEvents getHash params env { s with chainstate := chain } peerId skipDos header state.rejectReason

/-- The events of the accept loop. -/
def acceptEvents (env : NetEnv) (peerId : Int) (skipDos : Bool) :
    List CBlockHeader → NetworkManager → List PenaltyEvent
  | [], _ => []
  | header :: rest, s =>
    s.headerEvents getHash params env peerId skipDos header ++
      match s.acceptHeader getHash params env peerId skipDos header with
      | (_, false) => []
      | (s, true) => acceptEvents env peerId skipDos rest s

/-- The events behind the count of a missing parent, of a peer that is still registered. -/
def checkedEvents (env : NetEnv) (s : NetworkManager) (peerId : Int) (skipDos prevExists : Bool)
    (first : CBlockHeader) (headers : List CBlockHeader) : List PenaltyEvent :=
  if !s.chainstate.checkHeadersPoW env.toEnv headers then [.invalidPoW]
  else if !checkHeadersAreContinuous getHash headers then [.nonContinuousHeaders]
  else
    (if prevExists then [.connecting] else []) ++
      let s := if prevExists then s.resetUnconnectingHeaders peerId else s
      if !skipDos && s.isLowWork params headers first then []
      else acceptEvents getHash params env peerId skipDos headers { s with lastBatchSize := headers.length }

/-- The events of `processBatch`. A peer that the count of a missing parent removes has no more. -/
def batchEvents (env : NetEnv) (s : NetworkManager) (peerId : Int) (skipDos : Bool) (first : CBlockHeader)
    (headers : List CBlockHeader) : List PenaltyEvent :=
  if first.hashPrevBlock ∈ s.chainstate.blockIndex then
    s.checkedEvents getHash params env peerId skipDos true first headers
  else
    let s := (s.incrementUnconnectingHeaders peerId).removeIfMisbehaving env peerId
    .unconnecting ::
      if peerId ∈ s.peerStates then s.checkedEvents getHash params env peerId skipDos false first headers else []

/-- The events of a message behind the gate of the initial download. -/
def processEvents (env : NetEnv) (s : NetworkManager) (peerId : Int) (headers : List CBlockHeader) :
    List PenaltyEvent :=
  let skipDos := s.skipDosChecks getHash headers
  let s := { s with lastHeadersReceivedUs := env.nowUs }
  match headers with
  | [] => []
  | first :: _ =>
    if peerId ∉ s.peerStates then []
    else if MAX_HEADERS_SIZE < headers.length then [.oversizedMessage]
    else s.batchEvents getHash params env peerId skipDos first headers

/-- The events of `HandleHeadersMessage`: none of a message that the gate drops. -/
def headersEvents (env : NetEnv) (s : NetworkManager) (peerId : Int) (headers : List CBlockHeader) :
    List PenaltyEvent :=
  match s.isInitialBlockDownload params env with
  | (s, true) => if s.gatesBatch peerId headers then [] else s.processEvents getHash params env peerId headers
  | (s, false) => s.processEvents getHash params env peerId headers

end

end NetworkManager

/-! ## Accounts -/

/-- The events of one connection, the oldest first. -/
structure PenaltyAccount where
  permissions : NetPermissionFlags := NetPermissionFlags.None
  address : String := ""
  events : List PenaltyEvent := []

/-- The data of a new entry after some events. -/
def PenaltyAccount.dataAfter (a : PenaltyAccount) (events : List PenaltyEvent) : PeerMisbehaviorData :=
  events.foldl PenaltyEvent.apply { permissions := a.permissions, address := a.address }

def PenaltyAccount.record (a : PenaltyAccount) (events : List PenaltyEvent) : PenaltyAccount :=
  { a with events := a.events ++ events }

/-- A call on the network layer, or the report of an ADDR message that is too long. -/
inductive AuditedOp
  | net (op : NetOp)
  | reportOversizedMessage (peerId : Int)

/-- The network layer with the account of the last connection of each id. -/
structure AuditedManager extends NetworkManager where
  accounts : Int → PenaltyAccount := fun _ => {}

namespace AuditedManager

def fresh (chainstate : ChainstateManager) : AuditedManager := { toNetworkManager := .fresh chainstate }

/-- The accounts with more events on one of them. -/
def recordEvents (s : AuditedManager) (peerId : Int) (events : List PenaltyEvent) : Int → PenaltyAccount :=
  Function.update s.accounts peerId ((s.accounts peerId).record events)

section
variable (getHash : CBlockHeader → Uint256) (params : ConsensusParams) (config : PeerConfig)

/-- The accounts after a call: a new entry opens one, and a message that reaches the handler is
recorded. -/
def audit (s : AuditedManager) : NetOp → Int → PenaltyAccount
  | .addPeer env peer permissions address =>
    if s.peers.length < (s.addPeer config env peer permissions address).1.peers.length then
      Function.update s.accounts s.nextPeerId
        { permissions, address := if address = "" then peer.address else address }
    else s.accounts
  | .handleHeaders env p headers =>
    match s.peers[p]? with
    | none => s.accounts
    | some peer =>
      if peer.successfullyConnected then
        s.recordEvents peer.id (s.headersEvents getHash params env peer.id headers)
      else s.accounts
  | _ => s.accounts

def step (s : AuditedManager) : AuditedOp → AuditedManager
  | .net op =>
    { toNetworkManager := s.toNetworkManager.step getHash params config op
      accounts := s.audit getHash params config op }
  | .reportOversizedMessage peerId =>
    { toNetworkManager := s.toNetworkManager.reportOversizedMessage peerId
      accounts := if peerId ∈ s.peerStates then s.recordEvents peerId [.oversizedMessage] else s.accounts }

end

end AuditedManager

end UnicityPow
