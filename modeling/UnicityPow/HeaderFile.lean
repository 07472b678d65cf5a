import UnicityPow.Activation

/-!
# The header file

`Save` writes the index as one JSON document and `Load` reads such a document back. A
JSON value stands for what the JSON library returns for it; a floating point number is
the integer it truncates to.
-/

namespace UnicityPow

inductive Json
  | null
  | boolean (b : Bool)
  | number (n : Int)
  | string (s : String)
  | array (l : List Json)
  | object (fields : List (String × Json))

namespace Json

/-- `find`; every value but an object has no fields. -/
def field (j : Json) (key : String) : Option Json :=
  match j with
  | object fields => fields.lookup key
  | _ => none

def isObject : Json → Bool
  | object _ => true
  | _ => false

end Json

/-- What `std::ifstream` and the parser find. -/
inductive HeaderFile
  | missing
  | malformed
  | doc (root : Json)

/-- How reading a file stops: an early `return false`, or an exception. -/
inductive LoadStop
  | refused | threw
deriving DecidableEq

namespace Json

/-! ## Typed reads -/

/-- `get<int>()` and its relatives; a `boolean` converts, any other value throws. -/
def getInt : Json → Except LoadStop Int
  | number n => .ok n
  | boolean b => .ok (if b then 1 else 0)
  | _ => .error .threw

def getString : Json → Except LoadStop String
  | string s => .ok s
  | _ => .error .threw

/-- `operator[]` on a field that the caller has checked to be there. -/
def read (j : Json) (key : String) : Json := (j.field key).getD null

/-- `value(key, default)`, which throws on anything but an object. -/
def valueInt (j : Json) (key : String) (default : Int) : Except LoadStop Int :=
  if !j.isObject then .error .threw else (j.field key).elim (.ok default) getInt

def valueString (j : Json) (key : String) (default : String) : Except LoadStop String :=
  if !j.isObject then .error .threw else (j.field key).elim (.ok default) getString

end Json

/-- Conversion to `int`. -/
def toInt32 (n : Int) : Int := (BitVec.ofInt 32 n).toInt

/-! ## Saving -/

def saveRecord (m : BlockMap) (p : BlockPtr) : Json :=
  let b := m[p]?.getD {}
  .object [
    ("hash", .string (Uint256.getHex p)),
    ("version", .number b.nVersion.toInt),
    ("miner_address", .string (Uint160.getHex b.minerAddress)),
    ("time", .number b.nTime.toNat),
    ("bits", .number b.nBits.toNat),
    ("nonce", .number b.nNonce.toNat),
    ("hash_randomx", .string (Uint256.getHex b.hashRandomX)),
    ("height", .number b.nHeight),
    ("chainwork", .string (ArithUint256.getHex b.nChainWork)),
    ("status", .object [
      ("validation", .number b.status.validation.toNat),
      ("failure", .number b.status.failure.toNat)]),
    ("prev_hash", .string (Uint256.getHex (b.pprev.getD 0)))]

def BlockManager.save (s : BlockManager) : HeaderFile :=
  .doc (.object [
    ("version", .number 1),
    ("block_count", .number s.blockIndex.size),
    ("tip_hash", .string (s.getTip.elim "" Uint256.getHex)),
    ("genesis_hash", .string (Uint256.getHex s.genesisHash)),
    ("blocks", .array (s.blockIndex.byHeight.map (saveRecord s.blockIndex)))])

/-! ## Reading one record -/

def requiredFields : List String :=
  ["hash", "prev_hash", "version", "miner_address", "time", "bits", "nonce", "hash_randomx", "height",
    "chainwork", "status"]

def hasRequiredFields (j : Json) : Bool :=
  requiredFields.all (fun f => (j.field f).isSome) && (j.read "status").isObject &&
    ((j.read "status").field "validation").isSome && ((j.read "status").field "failure").isSome

/-- The stored hash and the header of a record. -/
def parseHeader (j : Json) : Except LoadStop (Uint256 × CBlockHeader) := do
  let hash ← (j.read "hash").getString
  let prevHash ← (j.read "prev_hash").getString
  let version ← (j.read "version").getInt
  let minerAddress ← (j.read "miner_address").getString
  let time ← (j.read "time").getInt
  let bits ← (j.read "bits").getInt
  let nonce ← (j.read "nonce").getInt
  let hashRandomX ← (j.read "hash_randomx").getString
  return (Uint256.setHex hash,
    { nVersion := BitVec.ofInt 32 version
      hashPrevBlock := Uint256.setHex prevHash
      minerAddress := Uint160.setHex minerAddress
      nTime := BitVec.ofInt 32 time
      nBits := BitVec.ofInt 32 bits
      nNonce := BitVec.ofInt 32 nonce
      hashRandomX := Uint256.setHex hashRandomX })

/-- A record up to the check of its hash. The message about a wrong hash reads the height,
which throws unless it is a number. -/
def readHeader (getHash : CBlockHeader → Uint256) (j : Json) : Except LoadStop CBlockHeader :=
  if !hasRequiredFields j then .error .refused
  else do
    let (hash, header) ← parseHeader j
    if getHash header ≠ hash then
      let _ ← (j.read "height").getInt
      .error .refused
    else return header

def readStatus (j : Json) : Except LoadStop BlockStatus := do
  let validation ← ((j.read "status").read "validation").getInt
  let failure ← ((j.read "status").read "failure").getInt
  return { validation := BitVec.ofInt 8 validation, failure := BitVec.ofInt 8 failure }

def readMetadata (j : Json) : Except LoadStop (Int × ArithUint256) := do
  let height ← (j.read "height").getInt
  let chainwork ← (j.read "chainwork").getString
  return (toInt32 height, ArithUint256.setHex chainwork)

/-! ## The passes of `BlockManager::Load` -/

/-- First pass: one entry a record, and its parent's hash beside it. A duplicate has
already overwritten the status when it is refused. -/
def firstPass (getHash : CBlockHeader → Uint256) :
    List Json → BlockMap × Std.ExtTreeMap Uint256 Uint256 compare →
      (BlockMap × Std.ExtTreeMap Uint256 Uint256 compare) × Option LoadStop
  | [], acc => (acc, none)
  | j :: js, (m, prevs) =>
    match readHeader getHash j with
    | .error stop => ((m, prevs), some stop)
    | .ok header => match readStatus j with
      | .error stop => ((m, prevs), some stop)
      | .ok status =>
        if getHash header ∈ m then
          ((m.modify (getHash header) (fun b => { b with status := status }), prevs), some .refused)
        else match readMetadata j with
          | .error stop => ((m, prevs), some stop)
          | .ok (height, chainwork) =>
            let b := { CBlockIndex.ofHeader header with
              status := status, nHeight := height, nChainWork := chainwork }
            firstPass getHash js (m.insert (getHash header) b, prevs.insert (getHash header) header.hashPrevBlock)

/-- Second pass: the flag is `false` when a parent is missing. -/
def connectParents : List (Uint256 × Uint256) → BlockMap → BlockMap × Bool
  | [], m => (m, true)
  | (hash, prevHash) :: rest, m =>
    if prevHash = 0 then connectParents rest (m.modify hash (fun b => { b with pprev := none }))
    else if prevHash ∈ m then connectParents rest (m.modify hash (fun b => { b with pprev := some prevHash }))
    else (m.modify hash (fun b => { b with pprev := none }), false)

/-- Exactly one entry has no parent, and it is the expected genesis. -/
def genesisUnique (m : BlockMap) (expectedGenesisHash : Uint256) : Bool :=
  m.keys.filter (fun p => m.pprev p == none) == [expectedGenesisHash]

def setTimeMax (m : BlockMap) (b : CBlockIndex) : CBlockIndex :=
  match b.pprev with
  | some q => { b with nTimeMax := max (m.nTimeMax q) b.getBlockTime }
  | none => { b with nTimeMax := b.getBlockTime }

def heightFits (m : BlockMap) (b : CBlockIndex) : Bool :=
  0 ≤ b.nHeight && (match b.pprev with
    | some q => m.nHeight q + 1 == b.nHeight
    | none => b.nHeight == 0)

/-- Third pass, in height order. -/
def thirdPass : List BlockPtr → BlockMap → BlockMap × Bool
  | [], m => (m, true)
  | p :: rest, m => match m[p]? with
    | none => thirdPass rest m
    | some b =>
      if !heightFits m b then (m, false)
      else thirdPass rest (m.insert p (m.buildSkip (setTimeMax m b)))

namespace BlockManager

section
variable (getHash : CBlockHeader → Uint256)

/-- The saved tip and everything after it. -/
def loadTip (s : BlockManager) (tipHashStr : String) : BlockManager × Option LoadStop :=
  if tipHashStr = "" then (s, some .refused)
  else match s.blockIndex[Uint256.setHex tipHashStr]? with
    | none => (s, some .refused)
    | some b =>
      if b.isFailed then (s, some .refused)
      else
        let s := s.setActiveTip (Uint256.setHex tipHashStr)
        if verifyChainContinuity s.blockIndex (Uint256.setHex tipHashStr) s.genesisHash then
          ({ s with initialized := true }, none)
        else (s, some .refused)

/-- From the records of the file to the loaded manager. -/
def loadBlocks (s : BlockManager) (expectedGenesisHash : Uint256) (tipHashStr : String) (blocks : List Json) :
    BlockManager × Option LoadStop :=
  match firstPass getHash blocks (∅, ∅) with
  | ((m, _), some stop) => ({ s with blockIndex := m }, some stop)
  | ((m, prevs), none) => match connectParents prevs.toList m with
    | (m, false) => ({ s with blockIndex := m }, some .refused)
    | (m, true) =>
      if !genesisUnique m expectedGenesisHash then ({ s with blockIndex := m }, some .refused)
      else match thirdPass m.byHeight m with
        | (m, false) => ({ s with blockIndex := m }, some .refused)
        | (m, true) =>
          loadTip { s with blockIndex := m, genesisHash := expectedGenesisHash } tipHashStr

/-- The fields read before the state is cleared. -/
def readPreamble (root : Json) : Except LoadStop (Int × String × String) := do
  let version ← root.valueInt "version" 0
  if toInt32 version ≠ 1 then .error .refused
  else
    let _ ← root.valueInt "block_count" 0
    let genesisHashStr ← root.valueString "genesis_hash" ""
    let tipHashStr ← root.valueString "tip_hash" ""
    return (version, genesisHashStr, tipHashStr)

/-- `BlockManager::Load` inside its `try`. -/
def loadDoc (s : BlockManager) (root : Json) (expectedGenesisHash : Uint256) : BlockManager × Option LoadStop :=
  match readPreamble root with
  | .error stop => (s, some stop)
  | .ok (_, genesisHashStr, tipHashStr) =>
    if Uint256.setHex genesisHashStr ≠ expectedGenesisHash then (s, some .refused)
    else
      let s := { s with blockIndex := ∅, activeChain := [] }
      match root.field "blocks" with
      | some (.array blocks) => loadBlocks getHash s expectedGenesisHash tipHashStr blocks
      | _ => (s, some .refused)

/-- `BlockManager::Load`: an exception empties the manager, an early return does not. -/
def load (s : BlockManager) (file : HeaderFile) (expectedGenesisHash : Uint256) : BlockManager × Bool :=
  let r := match file with
    | .missing => (s, some LoadStop.refused)
    | .malformed => (s, some LoadStop.threw)
    | .doc root => s.loadDoc getHash root expectedGenesisHash
  match r with
  | (s, none) => (s, true)
  | (s, some .refused) => (s, false)
  | (s, some .threw) => ({ s with blockIndex := ∅, activeChain := [], initialized := false }, false)

end

end BlockManager

/-! ## `ChainstateManager::Load` -/

namespace ChainstateManager

section
variable (getHash : CBlockHeader → Uint256) (params : ConsensusParams)

/-- Whether a loaded entry passes its commitment and contextual checks again. -/
def revalidates (env : Env) (m : BlockMap) (b : CBlockIndex) : Bool :=
  match b.pprev with
  | none => true
  | some q => env.checkProofOfWork b.getBlockHeader .COMMITMENT_ONLY &&
      (contextualCheck env m b.getBlockHeader q).isNone

/-- One entry of the re-validation loop: work, time and skip pointer are recomputed, the
status is raised or set to failed. -/
def revalidateEntry (env : Env) (m : BlockMap) (b : CBlockIndex) : CBlockIndex :=
  let b := { b with nChainWork := match b.pprev with
    | some q => m.nChainWork q + getBlockProof b.nBits
    | none => getBlockProof b.nBits }
  let b := m.buildSkip (setTimeMax m b)
  if revalidates env m b then { b with status := b.status.raiseValidity ValidationLevel.TREE }
  else { b with status := { b.status with failure := FailureState.VALIDATION_FAILED } }

def revalidate (env : Env) (s : ChainstateManager) (p : BlockPtr) : ChainstateManager :=
  match s.blockIndex[p]? with
  | none => s
  | some b =>
    { s with
      blockIndex := s.blockIndex.insert p (revalidateEntry env s.blockIndex b)
      failedBlocks := if revalidates env s.blockIndex b then s.failedBlocks else s.failedBlocks.insert p }

def addLoadedLeaf (s : ChainstateManager) (p : BlockPtr) : ChainstateManager :=
  if !s.blockIndex.hasChildren p && s.blockIndex.isValid p then
    let s := s.addUnchecked p
    { s with toChainSelector := s.updateBestHeader s.blockIndex p }
  else s

/-- The candidates of a loaded index: its valid leaves, in map order. -/
def rebuildCandidates (s : ChainstateManager) : ChainstateManager :=
  s.blockIndex.keys.foldl addLoadedLeaf { s with candidates := [], bestHeader := none }

/-- The last block of `Load`: the best candidate replaces the saved tip. -/
def selectTip (s : ChainstateManager) : ChainstateManager :=
  match s.resolveCandidate none with
  | (s', none) => s'
  | (s', some best) =>
    if s.getTip = some best then s' else { s' with toBlockManager := s'.setActiveTip best }

def load (env : Env) (s : ChainstateManager) (file : HeaderFile) : ChainstateManager × Bool :=
  match s.toBlockManager.load getHash file params.hashGenesisBlock with
  | (bm, false) => ({ s with toBlockManager := bm }, false)
  | (bm, true) =>
    let s := { s with toBlockManager := bm }
    ((s.blockIndex.byHeight.foldl (revalidate env) s).rebuildCandidates.selectTip, true)

def save (s : ChainstateManager) : HeaderFile := s.toBlockManager.save

end

end ChainstateManager

end UnicityPow
