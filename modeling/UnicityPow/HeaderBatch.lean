import UnicityPow.HeaderFile

/-!
# Header batches and locators

The checks a batch of headers gets before any of it is accepted, the work it claims, and
the block locator of a request.
-/

namespace UnicityPow

def MAX_HEADERS_SIZE : Nat := 2000

/-! ## Batches -/

def checkHeadersAreContinuous (getHash : CBlockHeader → Uint256) : List CBlockHeader → Bool
  | a :: b :: rest => b.hashPrevBlock == getHash a && checkHeadersAreContinuous getHash (b :: rest)
  | _ => true

/-- The work of a header in `CalculateHeadersWork`; a target that is no target counts for nothing. -/
def headerWork (header : CBlockHeader) : ArithUint256 :=
  let bnTarget := setCompact header.nBits
  if bnTarget.negative || bnTarget.overflow || bnTarget.value == 0 then 0
  else ~~~bnTarget.value / (bnTarget.value + 1) + 1

def calculateHeadersWork (headers : List CBlockHeader) : ArithUint256 := (headers.map headerWork).sum

/-- `GetAntiDoSWorkThreshold`. The number of buffer blocks is converted to `uint32_t`. -/
def getAntiDoSWorkThreshold (params : ConsensusParams) (tip : Option CBlockIndex) : ArithUint256 :=
  let nearTipWork := match tip with
    | none => 0
    | some b =>
      let buffer := getBlockProof b.nBits * (BitVec.ofInt 32 params.nAntiDosWorkBufferBlocks).setWidth 256
      b.nChainWork - (if b.nChainWork < buffer then b.nChainWork else buffer)
  let minChainWork := uintToArith256 params.nMinimumChainWork
  if nearTipWork < minChainWork then minChainWork else nearTipWork

/-! ## Locators -/

/-- The loop of `LocatorEntries`: the step doubles once ten hashes are collected. -/
def locatorWalk (m : BlockMap) : Nat → Option BlockPtr → Int → List Uint256 → List Uint256
  | 0, _, _, acc => acc
  | _ + 1, none, _, acc => acc
  | fuel + 1, some p, step, acc =>
    let acc := acc ++ [p]
    if m.nHeight p = 0 then acc
    else
      let height := max (m.nHeight p - step) 0
      locatorWalk m fuel (m.getAncestor p height) (if 10 < acc.length then toInt32 (step * 2) else step) acc

def locatorEntries (m : BlockMap) (index : Option BlockPtr) : List Uint256 :=
  locatorWalk m ((index.elim 0 m.nHeight).toNat + 1) index 1 []

namespace ChainstateManager

def tipIndex (s : ChainstateManager) : Option CBlockIndex := s.getTip.bind (fun p => s.blockIndex[p]?)

def isOnActiveChain (s : ChainstateManager) (p : BlockPtr) : Bool := s.activeChain.contains s.blockIndex p

def getBlockAtHeight (s : ChainstateManager) (height : Int) : Option BlockPtr :=
  if height < 0 ∨ s.activeChain.height < height then none else s.activeChain.entry height

/-- `GetLocator`; no block means the tip. -/
def getLocator (s : ChainstateManager) (p : Option BlockPtr) : List Uint256 :=
  locatorEntries s.blockIndex (p.orElse (fun _ => s.getTip))

/-- `GetLocatorFromPrev`: from the parent of the tip, so that the answer is never empty. -/
def getLocatorFromPrev (s : ChainstateManager) : List Uint256 :=
  s.getLocator (s.getTip.bind s.blockIndex.pprev)

def checkHeadersPoW (env : Env) (s : ChainstateManager) (headers : List CBlockHeader) : Bool :=
  headers.all (fun header => s.checkProofOfWork env header .COMMITMENT_ONLY)

end ChainstateManager

end UnicityPow
