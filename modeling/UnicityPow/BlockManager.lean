import UnicityPow.Chain

/-!
# The block manager

The block index with its active chain: insertion of one header, and the setup from
the genesis header.
-/

namespace UnicityPow

structure BlockManager where
  blockIndex : BlockMap := ∅
  activeChain : CChain := []
  genesisHash : Uint256 := 0
  initialized : Bool := false

/-! ## Chain continuity -/

/-- The walk of `VerifyChainContinuity`: the last block reached and the steps made, or
`none` when the next step would exceed the limit. -/
def walkToRoot (m : BlockMap) : Nat → BlockPtr → Nat → Option (BlockPtr × Nat)
  | fuel, walk, blocksWalked =>
    match m.pprev walk with
    | none => some (walk, blocksWalked)
    | some q => match fuel with
      | 0 => none
      | fuel + 1 => walkToRoot m fuel q (blocksWalked + 1)

def verifyChainContinuity (m : BlockMap) (pindex : BlockPtr) (expectedGenesisHash : Uint256) : Bool :=
  match walkToRoot m 1000000 pindex 0 with
  | none => false
  | some (walk, blocksWalked) =>
    walk == expectedGenesisHash && m.nHeight walk == 0 && m.nHeight pindex == blocksWalked

namespace BlockManager

def getTip (s : BlockManager) : Option BlockPtr := s.activeChain.tip

def setActiveTip (s : BlockManager) (p : BlockPtr) : BlockManager :=
  { s with activeChain := s.activeChain.setTip s.blockIndex p }

section
variable (getHash : CBlockHeader → Uint256)

/-- The entry a header gets, its parent already looked up. -/
def newIndex (m : BlockMap) (header : CBlockHeader) (prev : Option BlockPtr) : CBlockIndex :=
  let b := { CBlockIndex.ofHeader header with pprev := prev }
  match prev with
  | some q =>
    m.buildSkip { b with
      nHeight := m.nHeight q + 1
      nChainWork := m.nChainWork q + getBlockProof header.nBits
      nTimeMax := max (m.nTimeMax q) b.getBlockTime }
  | none =>
    m.buildSkip { b with
      nHeight := 0
      nChainWork := getBlockProof header.nBits
      nTimeMax := b.getBlockTime }

/-- `AddToBlockIndex`. The entry is in the map before the parent is looked up, and is
taken out again when the parent is missing. -/
def addToBlockIndex (s : BlockManager) (header : CBlockHeader) : BlockManager × Option BlockPtr :=
  let hash := getHash header
  if hash ∈ s.blockIndex then (s, some hash)
  else
    let m := s.blockIndex.insert hash (CBlockIndex.ofHeader header)
    if header.hashPrevBlock ∈ m then
      ({ s with blockIndex := m.insert hash (newIndex m header (some header.hashPrevBlock)) }, some hash)
    else if header.hashPrevBlock ≠ 0 then ({ s with blockIndex := m.erase hash }, none)
    else ({ s with blockIndex := m.insert hash (newIndex m header none) }, some hash)

/-- `BlockManager::Initialize`. -/
def initializeWith (s : BlockManager) (genesis : CBlockHeader) : BlockManager × Bool :=
  if s.initialized then (s, false)
  else
    match addToBlockIndex getHash s genesis with
    | (s, none) => (s, false)
    | (s, some pindex) =>
      let s := { s.setActiveTip pindex with genesisHash := getHash genesis }
      if verifyChainContinuity s.blockIndex pindex s.genesisHash then ({ s with initialized := true }, true)
      else (s, false)

end

end BlockManager

end UnicityPow
