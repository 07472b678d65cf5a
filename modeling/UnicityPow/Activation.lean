import UnicityPow.Chainstate

/-!
# The chainstate manager: moving the tip

`ActivateBestChain`, `ProcessNewBlockHeader` and `InvalidateBlock`.
-/

namespace UnicityPow

inductive Notification
  | blockConnected (header : CBlockHeader) (pindex : BlockPtr)
  | blockDisconnected (header : CBlockHeader) (pindex : BlockPtr)
  | chainTip (pindex : BlockPtr) (height : Int)
  | suspiciousReorg (depth maxDepth : Int)
  | networkExpired (height expirationHeight : Int)
deriving DecidableEq

inductive ActivateResult
  | OK | CONSENSUS_INVALID | POLICY_REFUSED | SYSTEM_ERROR
deriving DecidableEq

/-! ## Connecting and disconnecting one block -/

namespace BlockManager

def headerOf (s : BlockManager) (p : BlockPtr) : CBlockHeader :=
  s.blockIndex[p]?.elim {} CBlockIndex.getBlockHeader

/-- `ConnectTip`, which fails on a null pointer only. -/
def connectTip (s : BlockManager) (pindexNew : BlockPtr) : BlockManager × Notification :=
  (s.setActiveTip pindexNew, .blockConnected (s.headerOf pindexNew) pindexNew)

/-- `DisconnectTip`; `none` is its failure on an empty chain or on genesis. -/
def disconnectTip (s : BlockManager) : Option (BlockManager × Notification) :=
  match s.getTip with
  | none => none
  | some pindexDelete => match s.blockIndex.pprev pindexDelete with
    | none => none
    | some q => some (s.setActiveTip q, .blockDisconnected (s.headerOf pindexDelete) pindexDelete)

/-- `while (pindexWalk && pindexWalk != pindexFork)`: the flag is `false` when a
disconnection failed. -/
def disconnectTo (pindexFork : BlockPtr) : Nat → BlockManager → List Notification →
    BlockManager × List Notification × Bool
  | 0, s, events => (s, events, true)
  | fuel + 1, s, events =>
    match s.getTip with
    | none => (s, events, true)
    | some walk =>
      if walk = pindexFork then (s, events, true)
      else match s.disconnectTip with
        | none => (s, events, false)
        | some (s, e) => disconnectTo pindexFork fuel s (events ++ [e])

/-- The blocks above the fork on the way to `walk`, lowest first. -/
def connectBlocks (m : BlockMap) (pindexFork : Option BlockPtr) : Nat → Option BlockPtr → List BlockPtr →
    List BlockPtr
  | 0, _, acc => acc
  | _ + 1, none, acc => acc
  | fuel + 1, some walk, acc =>
    if some walk = pindexFork then acc else connectBlocks m pindexFork fuel (m.pprev walk) (walk :: acc)

/-- The loop over `connect_blocks`. `ConnectTip` succeeds on each of them, so the
rollback of the source is never entered. -/
def connectAll (s : BlockManager) (events : List Notification) (blocks : List BlockPtr) :
    BlockManager × List Notification :=
  blocks.foldl (fun r p => let (s, e) := r.1.connectTip p; (s, r.2 ++ [e])) (s, events)

end BlockManager

namespace ChainstateManager

section
variable (params : ConsensusParams)

/-! ## Activation -/

def reorgDepth (m : BlockMap) (oldTip fork : BlockPtr) : Int := m.nHeight oldTip - m.nHeight fork

/-- The policy guard on the depth of a reorganisation. -/
def suspiciousReorg (m : BlockMap) (oldTip fork : BlockPtr) : Bool :=
  decide (0 < params.nSuspiciousReorgDepth) &&
    decide (params.nSuspiciousReorgDepth ≤ reorgDepth m oldTip fork)

/-- What `ActivateBestChainStep` leaves: the state, its result, the queued events and
those dispatched at once. -/
structure StepOutcome where
  state : ChainstateManager
  result : ActivateResult
  events : List Notification := []
  immediate : List Notification := []

/-- The part of the step after the guard: disconnect to the fork, connect to the candidate,
prune. -/
def switchTip (s : ChainstateManager) (pindexFork : Option BlockPtr) (pindexMostWork : BlockPtr) : StepOutcome :=
  let (bm, localEvents, ok) := match pindexFork with
    | some f => s.toBlockManager.disconnectTo f s.activeChain.length []
    | none => (s.toBlockManager, [], true)
  if !ok then { state := { s with toBlockManager := bm }, result := .SYSTEM_ERROR }
  else
    let blocks := BlockManager.connectBlocks bm.blockIndex pindexFork
      ((bm.blockIndex.nHeight pindexMostWork).toNat + 1) (some pindexMostWork) []
    let (bm, localEvents) := bm.connectAll localEvents blocks
    let height := bm.blockIndex.nHeight pindexMostWork
    { state := { s with
        toBlockManager := bm
        toChainSelector := s.toChainSelector.pruneBlockIndexCandidates bm }
      result := .OK
      events := localEvents ++ [.chainTip pindexMostWork height]
      immediate := if 0 < params.nNetworkExpirationInterval ∧ height = params.nNetworkExpirationInterval
        then [.networkExpired height params.nNetworkExpirationInterval] else [] }

def activateBestChainStep (s : ChainstateManager) (pindexMostWork : BlockPtr) : StepOutcome :=
  match s.getTip with
  | none => switchTip params s none pindexMostWork
  | some pindexOldTip =>
    if pindexOldTip = pindexMostWork then { state := s, result := .OK }
    else if s.blockIndex.nChainWork pindexMostWork ≤ s.blockIndex.nChainWork pindexOldTip then
      { state := s, result := .OK }
    else match s.blockIndex.lastCommonAncestor (some pindexOldTip) (some pindexMostWork) with
      | none => { state := s, result := .CONSENSUS_INVALID }
      | some pindexFork =>
        if suspiciousReorg params s.blockIndex pindexOldTip pindexFork then
          { state := s, result := .POLICY_REFUSED
            immediate := [.suspiciousReorg (reorgDepth s.blockIndex pindexOldTip pindexFork)
              (params.nSuspiciousReorgDepth - 1)] }
        else switchTip params s (some pindexFork) pindexMostWork

def dropCandidate (s : ChainstateManager) (p : BlockPtr) : ChainstateManager :=
  { s with toChainSelector := s.removeCandidate s.blockIndex p }

/-- The `CONSENSUS_INVALID` branch of the loop. -/
def failCandidate (s : ChainstateManager) (p : BlockPtr) : ChainstateManager :=
  let m := s.blockIndex.modify p (fun b => { b with status := b.status.markFailed })
  dropCandidate { s with blockIndex := m, failedBlocks := s.failedBlocks.insert p } p

/-- The candidate of a round: the one given, else the first of the set. -/
def resolveCandidate (s : ChainstateManager) (pindexMostWork : Option BlockPtr) :
    ChainstateManager × Option BlockPtr :=
  match pindexMostWork with
  | some p => (s, some p)
  | none =>
    let (sel, p) := s.toChainSelector.findMostWorkChain s.blockIndex
    ({ s with toChainSelector := sel }, p)

/-- Refusal to activate beyond the expiration height. -/
def pastExpiration (m : BlockMap) (p : BlockPtr) : Bool :=
  decide (0 < params.nNetworkExpirationInterval) && decide (params.nNetworkExpirationInterval < m.nHeight p)

/-- The loop of `ActivateBestChain`. Every round that continues has taken its candidate
out of the set. -/
def activateLoop : Nat → ChainstateManager → Option BlockPtr → List Notification →
    ChainstateManager × Bool × List Notification
  | 0, s, _, sent => (s, false, sent)
  | fuel + 1, s, pindexMostWork, sent =>
    match s.resolveCandidate pindexMostWork with
    | (s, none) => (s, true, sent)
    | (s, some p) =>
      if s.getTip = some p then (s, true, sent)
      else if pastExpiration params s.blockIndex p then
        (s, false, sent ++ [.networkExpired (s.blockIndex.nHeight p) params.nNetworkExpirationInterval])
      else
        let r := activateBestChainStep params s p
        match r.result with
        | .OK => (r.state, true, sent ++ r.immediate ++ r.events)
        | .POLICY_REFUSED => activateLoop fuel (r.state.dropCandidate p) none (sent ++ r.immediate)
        | .CONSENSUS_INVALID => activateLoop fuel (r.state.failCandidate p) none (sent ++ r.immediate)
        | .SYSTEM_ERROR => (r.state, false, sent ++ r.immediate)

/-- `ActivateBestChain`: the state, its answer and the notifications sent. -/
def activateBestChain (s : ChainstateManager) (pindexMostWork : Option BlockPtr) :
    ChainstateManager × Bool × List Notification :=
  activateLoop params (s.candidates.length + 2) s pindexMostWork []

def tryAddCandidate (s : ChainstateManager) (p : BlockPtr) : ChainstateManager :=
  { s with toChainSelector := s.toChainSelector.tryAddBlockIndexCandidate s.blockIndex p }

def processNewBlockHeader (getHash : CBlockHeader → Uint256) (env : Env) (s : ChainstateManager)
    (header : CBlockHeader) (minPowChecked : Bool) : ChainstateManager × Bool × List Notification :=
  match s.acceptBlockHeader getHash params env header minPowChecked with
  | (s, .error _) => (s, false, [])
  | (s, .ok pindex) => activateBestChain params (s.tryAddCandidate pindex) none

end

/-! ## Invalidation -/

def addUnchecked (s : ChainstateManager) (p : BlockPtr) : ChainstateManager :=
  { s with toChainSelector := s.addCandidateUnchecked s.blockIndex p }

/-- `candidate_blocks_by_work`: the valid blocks off the active chain with at least the
work of `pprev`. Only the set they end up in is ordered. -/
def competingForks (s : ChainstateManager) (pindex : BlockPtr) : List BlockPtr :=
  match s.blockIndex.pprev pindex with
  | none => []
  | some q => s.blockIndex.keys.filter (fun p =>
      !s.activeChain.contains s.blockIndex p && decide (s.blockIndex.nChainWork q ≤ s.blockIndex.nChainWork p) &&
        s.blockIndex.isValid p)

/-- What the disconnect loop of `InvalidateBlock` carries. -/
structure Disconnection where
  state : ChainstateManager
  forks : List BlockPtr
  events : List Notification := []

/-- At least the work of the block the chain is cut back to. -/
def viable (m : BlockMap) (newTip p : BlockPtr) : Bool := decide (m.nChainWork newTip ≤ m.nChainWork p)

/-- One round: the tip leaves the chain and the candidates, its parent and the forks with
at least the parent's work enter them. -/
def disconnectRound (d : Disconnection) (tip : BlockPtr) (bm : BlockManager) (e : Notification) : Disconnection :=
  let s := dropCandidate { d.state with toBlockManager := bm } tip
  match s.blockIndex.pprev tip with
  | none => { state := s, forks := d.forks, events := d.events ++ [e] }
  | some q =>
    { state := (d.forks.filter (viable s.blockIndex q)).foldl addUnchecked (s.addUnchecked q)
      forks := d.forks.filter (fun p => !viable s.blockIndex q p)
      events := d.events ++ [e] }

def disconnectLoop (pindex : BlockPtr) : Nat → Disconnection → Disconnection × Bool
  | 0, d => (d, true)
  | fuel + 1, d =>
    match d.state.getTip with
    | none => (d, true)
    | some tip =>
      if !d.state.activeChain.contains d.state.blockIndex pindex then (d, true)
      else match d.state.toBlockManager.disconnectTip with
        | none => (d, false)
        | some (bm, e) => disconnectLoop pindex fuel (disconnectRound d tip bm e)

def descendsFrom (m : BlockMap) (pindex p : BlockPtr) : Bool :=
  p != pindex && m.getAncestor p (m.nHeight pindex) == some pindex

/-- Step 3: the block itself fails validation, every descendant fails through it. -/
def markInvalid (s : ChainstateManager) (pindex : BlockPtr) : ChainstateManager :=
  let m := s.blockIndex
  let descendants := m.keys.filter (descendsFrom m pindex)
  let marked := m.map (fun p b =>
    if p = pindex then { b with status := b.status.markFailed }
    else if descendsFrom m pindex p then { b with status := b.status.markAncestorFailed }
    else b)
  let s := { s with
    blockIndex := marked
    failedBlocks := descendants.foldl (fun l p => l.insert p) (s.failedBlocks.insert pindex) }
  descendants.foldl dropCandidate (s.dropCandidate pindex)

/-- The final cleanup: every valid leaf with at least the work of the tip is a candidate. -/
def addValidLeaves (s : ChainstateManager) : ChainstateManager :=
  match s.getTip with
  | none => s
  | some tip => (s.blockIndex.keys.filter (fun p =>
      s.blockIndex.isValid p && decide (s.blockIndex.nChainWork tip ≤ s.blockIndex.nChainWork p) &&
        !s.blockIndex.hasChildren p)).foldl addUnchecked s

/-- `InvalidateBlock`: the state, its answer and the notifications sent. -/
def invalidateBlock (s : ChainstateManager) (hash : Uint256) : ChainstateManager × Bool × List Notification :=
  match s.blockIndex[hash]? with
  | none => (s, false, [])
  | some b =>
    if b.nHeight = 0 then (s, false, [])
    else
      let (d, ok) := disconnectLoop hash (s.activeChain.length + 1) { state := s, forks := s.competingForks hash }
      if !ok then (d.state, false, [])
      else if d.state.activeChain.contains d.state.blockIndex hash then (d.state, false, [])
      else ((d.state.markInvalid hash).addValidLeaves, true, d.events)

/-! ## Setup -/

/-- `ChainstateManager::Initialize`. -/
def setup (getHash : CBlockHeader → Uint256) (s : ChainstateManager) (genesisHeader : CBlockHeader) :
    ChainstateManager × Bool :=
  match s.toBlockManager.initializeWith getHash genesisHeader with
  | (bm, false) => ({ s with toBlockManager := bm }, false)
  | (bm, true) =>
    let s := { s with toBlockManager := bm }
    match s.getTip with
    | none => (s, true)
    | some genesis =>
      let m := s.blockIndex.modify genesis (fun b =>
        { b with status := b.status.raiseValidity ValidationLevel.TREE })
      let s := addUnchecked { s with blockIndex := m } genesis
      ({ s with bestHeader := some genesis }, true)

end ChainstateManager

end UnicityPow
