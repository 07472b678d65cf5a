import UnicityPow.HeaderFile
import UnicityPow.Run

/-!
# Operations and runs

The public operations of the chainstate manager as the steps of one state machine. A
claim about runs says which operations it admits, and which it admits in which states.
-/

namespace UnicityPow

/-- A call on the chainstate manager, with what it reads of the world. -/
inductive ChainOp
  | setup (genesisHeader : CBlockHeader)
  | acceptBlockHeader (env : Env) (header : CBlockHeader) (minPowChecked : Bool)
  | tryAddBlockIndexCandidate (pindex : BlockPtr)
  | acceptAndTryAdd (env : Env) (header : CBlockHeader) (minPowChecked : Bool)
  | processNewBlockHeader (env : Env) (header : CBlockHeader) (minPowChecked : Bool)
  | activateBestChain (pindexMostWork : Option BlockPtr)
  | invalidateBlock (hash : Uint256)
  | addOrphanHeader (env : Env) (header : CBlockHeader) (peerId : Int)
  | evictOrphanHeaders (env : Env)
  | load (env : Env) (file : HeaderFile)
  | restart (env : Env)

namespace ChainstateManager

/-- A new manager; the flag is the test hook that skips proof-of-work checks. -/
def fresh (skipPow : Bool) : ChainstateManager := { testSkipPowChecks := skipPow }

/-- `Save` to a file and `Load` of it into a new manager. -/
def restart (getHash : CBlockHeader → Uint256) (params : ConsensusParams) (env : Env) (s : ChainstateManager) :
    ChainstateManager × Bool :=
  (fresh s.testSkipPowChecks).load getHash params env s.save

/-- `AcceptBlockHeader`, and `TryAddBlockIndexCandidate` on the block it answers with. -/
def acceptAndTryAdd (getHash : CBlockHeader → Uint256) (params : ConsensusParams) (env : Env)
    (s : ChainstateManager) (header : CBlockHeader) (minPowChecked : Bool) : ChainstateManager :=
  match s.acceptBlockHeader getHash params env header minPowChecked with
  | (s, .error _) => s
  | (s, .ok pindex) => s.tryAddCandidate pindex

/-- What a call leaves that may fail; a failure is no step. -/
def ifSucceeds (s : ChainstateManager) (r : ChainstateManager × Bool) : ChainstateManager :=
  if r.2 then r.1 else s

theorem ifSucceeds_induct {P : ChainstateManager → Prop} {s : ChainstateManager} {r : ChainstateManager × Bool}
    (hs : P s) (hr : ∀ s', r = (s', true) → P s') : P (s.ifSucceeds r) := by
  obtain ⟨s', ok⟩ := r
  cases ok with
  | false => exact hs
  | true => exact hr s' rfl

/-- A pointer passed in points into the index. -/
def step (getHash : CBlockHeader → Uint256) (params : ConsensusParams) (s : ChainstateManager) :
    ChainOp → ChainstateManager
  | .setup genesisHeader => s.ifSucceeds (s.setup getHash genesisHeader)
  | .acceptBlockHeader env header minPow => (s.acceptBlockHeader getHash params env header minPow).1
  | .tryAddBlockIndexCandidate p => if p ∈ s.blockIndex then s.tryAddCandidate p else s
  | .acceptAndTryAdd env header minPow => s.acceptAndTryAdd getHash params env header minPow
  | .processNewBlockHeader env header minPow => (processNewBlockHeader params getHash env s header minPow).1
  | .activateBestChain none => (activateBestChain params s none).1
  | .activateBestChain (some p) => if p ∈ s.blockIndex then (activateBestChain params s (some p)).1 else s
  | .invalidateBlock hash => (s.invalidateBlock hash).1
  | .addOrphanHeader env header peerId => (s.addOrphanHeader getHash params env header peerId).1
  | .evictOrphanHeaders env => (s.evictOrphanHeaders params env).1
  | .load env file => s.ifSucceeds (s.load getHash params env file)
  | .restart env => s.ifSucceeds (s.restart getHash params env)

section
variable (getHash : CBlockHeader → Uint256) (params : ConsensusParams) (s : ChainstateManager) (env : Env)

@[simp] theorem step_acceptBlockHeader (header : CBlockHeader) (minPow : Bool) :
    step getHash params s (.acceptBlockHeader env header minPow) =
      (s.acceptBlockHeader getHash params env header minPow).1 := rfl

@[simp] theorem step_tryAddBlockIndexCandidate (p : BlockPtr) :
    step getHash params s (.tryAddBlockIndexCandidate p) = if p ∈ s.blockIndex then s.tryAddCandidate p else s :=
  rfl

@[simp] theorem step_acceptAndTryAdd (header : CBlockHeader) (minPow : Bool) :
    step getHash params s (.acceptAndTryAdd env header minPow) =
      s.acceptAndTryAdd getHash params env header minPow := rfl

@[simp] theorem step_processNewBlockHeader (header : CBlockHeader) (minPow : Bool) :
    step getHash params s (.processNewBlockHeader env header minPow) =
      (processNewBlockHeader params getHash env s header minPow).1 := rfl

@[simp] theorem step_activateBestChain_none :
    step getHash params s (.activateBestChain none) = (activateBestChain params s none).1 := rfl

@[simp] theorem step_activateBestChain_some (p : BlockPtr) :
    step getHash params s (.activateBestChain (some p)) =
      if p ∈ s.blockIndex then (activateBestChain params s (some p)).1 else s := rfl

@[simp] theorem step_invalidateBlock (hash : Uint256) :
    step getHash params s (.invalidateBlock hash) = (s.invalidateBlock hash).1 := rfl

@[simp] theorem step_addOrphanHeader (header : CBlockHeader) (peerId : Int) :
    step getHash params s (.addOrphanHeader env header peerId) =
      (s.addOrphanHeader getHash params env header peerId).1 := rfl

@[simp] theorem step_evictOrphanHeaders :
    step getHash params s (.evictOrphanHeaders env) = (s.evictOrphanHeaders params env).1 := rfl

@[simp] theorem step_setup (genesisHeader : CBlockHeader) :
    step getHash params s (.setup genesisHeader) = s.ifSucceeds (s.setup getHash genesisHeader) := rfl

@[simp] theorem step_load (file : HeaderFile) :
    step getHash params s (.load env file) = s.ifSucceeds (s.load getHash params env file) := rfl

@[simp] theorem step_restart :
    step getHash params s (.restart env) = s.ifSucceeds (s.restart getHash params env) := rfl

end

/-- The operations of a manager between its start and a restart. -/
def IsRuntimeOp : ChainOp → Prop
  | .setup _ => False
  | .load _ _ => False
  | .restart _ => False
  | _ => True

/-- No valid block of the index has more work than the tip. -/
def TipIsBest (s : ChainstateManager) : Prop :=
  ∃ tip, s.getTip = some tip ∧
    ∀ p, s.blockIndex.isValid p = true → s.blockIndex.nChainWork p ≤ s.blockIndex.nChainWork tip

end ChainstateManager

/-! ## A small chain to compute with -/

/-- A hash whose values are easy to read: the nonce. -/
def nonceHash (header : CBlockHeader) : Uint256 := header.nNonce.setWidth 256

/-- A header of least difficulty below the header with nonce `prev`. -/
def nonceHeader (prev nonce : Nat) : CBlockHeader :=
  { hashPrevBlock := BitVec.ofNat 256 prev, nTime := BitVec.ofNat 32 nonce, nBits := 0x207fffff#32,
    nNonce := BitVec.ofNat 32 nonce, hashRandomX := 1 }

def nonceParams : ConsensusParams := { hashGenesisBlock := 1, nSuspiciousReorgDepth := 0 }

def nonceStart : ChainstateManager := ((ChainstateManager.fresh false).setup nonceHash (nonceHeader 0 1)).1

/-- The hash whose printed form is its nonce: a short string names the first byte printed. -/
def shortHash (header : CBlockHeader) : Uint256 := header.nNonce.setWidth 256 <<< 248

def short (n : Nat) : Uint256 := BitVec.ofNat 256 n <<< 248

def shortParams : ConsensusParams := { hashGenesisBlock := short 1, nSuspiciousReorgDepth := 0 }

/-- A record of a header of least difficulty, its hashes given by one digit. -/
def shortRecord (prev nonce height failure : Nat) : Json :=
  .object [
    ("hash", .string (Nat.repr nonce)),
    ("version", .number 0),
    ("miner_address", .string ""),
    ("time", .number nonce),
    ("bits", .number 0x207fffff),
    ("nonce", .number nonce),
    ("hash_randomx", .string ""),
    ("height", .number height),
    ("chainwork", .string ""),
    ("status", .object [("validation", .number 2), ("failure", .number failure)]),
    ("prev_hash", .string (Nat.repr prev))]

def shortFile (tip : Nat) (blocks : List Json) : HeaderFile :=
  .doc (.object [
    ("version", .number 1),
    ("block_count", .number blocks.length),
    ("tip_hash", .string (Nat.repr tip)),
    ("genesis_hash", .string "1"),
    ("blocks", .array blocks)])

end UnicityPow
