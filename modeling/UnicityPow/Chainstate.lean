import UnicityPow.ChainSelector

/-!
# The chainstate manager: accepting headers

`AcceptBlockHeader` with the orphan pool. What the checks of a header depend on beyond
the index (clocks, proof of work, difficulty and time rules) comes from `Env`, one for
each call.
-/

namespace UnicityPow

/-! ## Parameters and environment -/

structure ConsensusParams where
  hashGenesisBlock : Uint256
  nMinimumChainWork : Uint256 := 0
  nSuspiciousReorgDepth : Int := 100
  nNetworkExpirationInterval : Int := 0
  nOrphanHeaderExpireTime : Int := 600
  nAntiDosWorkBufferBlocks : Int := 6

def MAX_ORPHAN_HEADERS : Nat := 1000
def MAX_ORPHAN_HEADERS_PER_PEER : Nat := 50

inductive POWVerifyMode
  | FULL | COMMITMENT_ONLY | MINING
deriving DecidableEq

inductive ValidationResult
  | VALID | INVALID | ERROR
deriving DecidableEq

structure ValidationState where
  result : ValidationResult := .VALID
  rejectReason : String := ""
  debugMessage : String := ""
deriving DecidableEq

def ValidationState.invalid (reason message : String) : ValidationState := ⟨.INVALID, reason, message⟩

def ValidationState.error (reason : String) : ValidationState := ⟨.ERROR, reason, ""⟩

/-- `contextualCheckBlockHeader` is given the headers on the path from `pindexPrev` back
to genesis and the adjusted time; `none` is acceptance. -/
structure Env where
  time : Int := 0
  timeOffset : Int := 0
  checkProofOfWork : CBlockHeader → POWVerifyMode → Bool := fun _ _ => true
  contextualCheckBlockHeader : CBlockHeader → List CBlockHeader → Int → Option ValidationState :=
    fun _ _ _ => none

def Env.adjustedTime (env : Env) : Int := env.time + env.timeOffset

structure OrphanHeader where
  header : CBlockHeader
  nTimeReceived : Int
  peerId : Int

structure ChainstateManager extends BlockManager, ChainSelector where
  orphanHeaders : Std.ExtTreeMap Uint256 OrphanHeader compare := ∅
  peerOrphanCount : Std.ExtTreeMap Int Int compare := ∅
  failedBlocks : List BlockPtr := []
  cachedFinishedIbd : Bool := false
  testSkipPowChecks : Bool := false

namespace ChainstateManager

section
variable (getHash : CBlockHeader → Uint256) (params : ConsensusParams)

/-! ## Initial block download -/

/-- `IsInitialBlockDownload` without its latch. -/
def finishedIbd (env : Env) (s : ChainstateManager) : Bool :=
  match s.getTip.bind (fun p => s.blockIndex[p]?) with
  | none => false
  | some tip =>
    !(tip.nHeight == 0) && !decide ((tip.nTime.toNat : Int) < env.time - 12 * 3600) &&
      !decide (tip.nChainWork < uintToArith256 params.nMinimumChainWork)

/-- `IsInitialBlockDownload`, which latches to `false`. -/
def isInitialBlockDownload (env : Env) (s : ChainstateManager) : ChainstateManager × Bool :=
  if s.cachedFinishedIbd then (s, false)
  else if s.finishedIbd params env then ({ s with cachedFinishedIbd := true }, false)
  else (s, true)

/-! ## Header checks -/

def checkProofOfWork (env : Env) (s : ChainstateManager) (header : CBlockHeader) (mode : POWVerifyMode) : Bool :=
  s.testSkipPowChecks || env.checkProofOfWork header mode

def checkBlockHeaderWrapper (env : Env) (s : ChainstateManager) (header : CBlockHeader) : Bool :=
  s.testSkipPowChecks || env.checkProofOfWork header .FULL

def contextualCheck (env : Env) (m : BlockMap) (header : CBlockHeader) (pindexPrev : BlockPtr) :
    Option ValidationState :=
  env.contextualCheckBlockHeader header (m.ancestry (m.size + 1) (some pindexPrev)) env.adjustedTime

/-- `while (invalid_walk != failedit)`. -/
def markPath (failedit : BlockPtr) : Nat → BlockMap → BlockPtr → BlockMap
  | 0, m, _ => m
  | fuel + 1, m, walk =>
    if walk = failedit then m
    else
      let m' := m.modify walk (fun b => { b with status := b.status.markAncestorFailed })
      match m.pprev walk with
      | some q => markPath failedit fuel m' q
      | none => m'

/-- The failed block that `pindexPrev` descends from, searched only below a parent that is
not valid to `TREE`. -/
def failedAncestor (s : ChainstateManager) (pindexPrev : BlockPtr) : Option BlockPtr :=
  if s.blockIndex.isValid pindexPrev then none
  else s.failedBlocks.find? (fun f =>
    s.blockIndex.getAncestor pindexPrev (s.blockIndex.nHeight f) == some f)

inductive HeaderStep
  | known (pindex : BlockPtr)
  | inserted (pindex : BlockPtr)
  | refused (state : ValidationState)
deriving DecidableEq

/-- The tail of step 10: reception time, validity, best header and the download latch. -/
def registerHeader (env : Env) (s : ChainstateManager) (pindex : BlockPtr) : ChainstateManager :=
  let m := s.blockIndex.modify pindex (fun b =>
    { b with nTimeReceived := env.time, status := b.status.raiseValidity ValidationLevel.TREE })
  let s := { s with blockIndex := m }
  let s := { s with toChainSelector := s.updateBestHeader m pindex }
  (s.isInitialBlockDownload params env).1

/-- `AcceptBlockHeader` up to its last statement, the resolution of orphans. -/
def acceptOne (env : Env) (s : ChainstateManager) (header : CBlockHeader) (minPowChecked : Bool) :
    ChainstateManager × HeaderStep :=
  let hash := getHash header
  match s.blockIndex[hash]? with
  | some b =>
    if b.isFailed then (s, .refused (.invalid "duplicate" "known invalid header re-announced"))
    else (s, .known hash)
  | none =>
    if !s.checkProofOfWork env header .COMMITMENT_ONLY then
      (s, .refused (.invalid "high-hash" "proof of work commitment failed"))
    else if header.hashPrevBlock = 0 then
      if hash ≠ params.hashGenesisBlock then
        (s, .refused (.invalid "bad-genesis" "genesis block hash mismatch"))
      else (s, .refused (.invalid "genesis-via-accept" "genesis block must be added via Initialize()"))
    else match s.blockIndex[header.hashPrevBlock]? with
      | none => (s, .refused (.invalid "prev-blk-not-found" "parent block not found"))
      | some prev =>
        if prev.isFailed then (s, .refused (.invalid "bad-prevblk" "previous block is invalid"))
        else match s.failedAncestor header.hashPrevBlock with
          | some failedit =>
            ({ s with blockIndex := markPath failedit (s.blockIndex.size + 1) s.blockIndex header.hashPrevBlock },
              .refused (.invalid "bad-prevblk" "previous block descends from invalid block"))
          | none => match contextualCheck env s.blockIndex header header.hashPrevBlock with
            | some state => (s, .refused state)
            | none =>
              if !s.checkBlockHeaderWrapper env header then
                (s, .refused (.invalid "high-hash" "proof of work failed"))
              else if !minPowChecked then
                (s, .refused (.invalid "too-little-chainwork" "missing anti-DoS work validation"))
              else match s.addToBlockIndex getHash header with
                | (bm, none) =>
                  ({ s with toBlockManager := bm }, .refused (.error "failed to add block to index"))
                | (bm, some pindex) =>
                  (registerHeader params env { s with toBlockManager := bm } pindex, .inserted pindex)

/-! ## The orphan pool -/

def decrementPeerCount (s : ChainstateManager) (peerId : Int) : ChainstateManager :=
  match s.peerOrphanCount[peerId]? with
  | none => s
  | some n =>
    if n - 1 = 0 then { s with peerOrphanCount := s.peerOrphanCount.erase peerId }
    else { s with peerOrphanCount := s.peerOrphanCount.insert peerId (n - 1) }

def dropOrphan (s : ChainstateManager) (hash : Uint256) (orphan : OrphanHeader) : ChainstateManager :=
  decrementPeerCount { s with orphanHeaders := s.orphanHeaders.erase hash } orphan.peerId

def orphansOf (s : ChainstateManager) (parentHash : Uint256) : List Uint256 :=
  (s.orphanHeaders.toList.filter (fun kv => kv.2.header.hashPrevBlock == parentHash)).map Prod.fst

/-- `ProcessOrphanHeaders` and the `AcceptBlockHeader` calls it makes. Each pooled header
leaves the pool before it is accepted, so the size of the pool bounds the depth. -/
def processOrphanHeaders (env : Env) : Nat → ChainstateManager → Uint256 → ChainstateManager
  | 0, s, _ => s
  | fuel + 1, s, parentHash =>
    (s.orphansOf parentHash).foldl (fun s hash =>
      match s.orphanHeaders[hash]? with
      | none => s
      | some orphan =>
        match (s.dropOrphan hash orphan).acceptOne getHash params env orphan.header true with
        | (s, .inserted pindex) => processOrphanHeaders env fuel s pindex
        | (s, _) => s) s

def acceptBlockHeader (env : Env) (s : ChainstateManager) (header : CBlockHeader) (minPowChecked : Bool) :
    ChainstateManager × Except ValidationState BlockPtr :=
  match s.acceptOne getHash params env header minPowChecked with
  | (s, .refused state) => (s, .error state)
  | (s, .known pindex) => (s, .ok pindex)
  | (s, .inserted pindex) =>
    (processOrphanHeaders getHash params env s.orphanHeaders.size s pindex, .ok pindex)

/-- The first pooled orphan received before all the others. -/
def oldestOrphan : List (Uint256 × OrphanHeader) → Option (Uint256 × OrphanHeader)
  | [] => none
  | kv :: l => some (l.foldl (fun oldest kv =>
      if kv.2.nTimeReceived < oldest.2.nTimeReceived then kv else oldest) kv)

/-- `EvictOrphanHeaders`: expired orphans first, else the oldest one of a full pool. -/
def evictOrphanHeaders (env : Env) (s : ChainstateManager) : ChainstateManager × Nat :=
  let expired := s.orphanHeaders.toList.filter
    (fun kv => decide (params.nOrphanHeaderExpireTime < env.time - kv.2.nTimeReceived))
  let s := expired.foldl (fun s kv => s.dropOrphan kv.1 kv.2) s
  if expired.length = 0 ∧ MAX_ORPHAN_HEADERS ≤ s.orphanHeaders.size then
    match oldestOrphan s.orphanHeaders.toList with
    | none => (s, 0)
    | some kv => (s.dropOrphan kv.1 kv.2, 1)
  else (s, expired.length)

/-- `AddOrphanHeader`. Reading the peer's counter creates it. -/
def addOrphanHeader (env : Env) (s : ChainstateManager) (header : CBlockHeader) (peerId : Int) :
    ChainstateManager × Bool :=
  let hash := getHash header
  if hash ∈ s.orphanHeaders then (s, true)
  else
    let s := { s with peerOrphanCount := s.peerOrphanCount.insertIfNew peerId 0 }
    if (MAX_ORPHAN_HEADERS_PER_PEER : Int) ≤ s.peerOrphanCount[peerId]?.getD 0 then (s, false)
    else
      let (s, evicted) :=
        if MAX_ORPHAN_HEADERS ≤ s.orphanHeaders.size then s.evictOrphanHeaders params env else (s, 1)
      if evicted = 0 then (s, false)
      else
        ({ s with
            orphanHeaders := s.orphanHeaders.insert hash ⟨header, env.time, peerId⟩
            peerOrphanCount := s.peerOrphanCount.insert peerId (s.peerOrphanCount[peerId]?.getD 0 + 1) },
          true)

end

end ChainstateManager

end UnicityPow
