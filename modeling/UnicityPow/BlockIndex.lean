import UnicityPow.Uint

/-!
# Block headers and the block index

A `CBlockIndex *` is the key of the map entry it points to, which is what
`phashBlock` stores: `BlockMap` is `std::map<uint256, CBlockIndex>` and a pointer is
followed by a lookup. A null pointer is `none`.
-/

namespace UnicityPow

/-! ## Headers -/

structure CBlockHeader where
  nVersion : BitVec 32 := 0
  hashPrevBlock : Uint256 := 0
  minerAddress : Uint160 := 0
  nTime : BitVec 32 := 0
  nBits : BitVec 32 := 0
  nNonce : BitVec 32 := 0
  hashRandomX : Uint256 := 0
deriving DecidableEq

/-! ## Status -/

/-- An enumeration over `uint8_t`; a file can hold values beyond the named ones. -/
abbrev ValidationLevel := BitVec 8

namespace ValidationLevel

def UNKNOWN : ValidationLevel := 0
def HEADER : ValidationLevel := 1
def TREE : ValidationLevel := 2

end ValidationLevel

abbrev FailureState := BitVec 8

namespace FailureState

def NOT_FAILED : FailureState := 0
def VALIDATION_FAILED : FailureState := 1
def ANCESTOR_FAILED : FailureState := 2

end FailureState

structure BlockStatus where
  validation : ValidationLevel := ValidationLevel.UNKNOWN
  failure : FailureState := FailureState.NOT_FAILED
deriving DecidableEq

namespace BlockStatus

def isFailed (s : BlockStatus) : Bool := s.failure != FailureState.NOT_FAILED

def isValid (s : BlockStatus) (required : ValidationLevel) : Bool :=
  !s.isFailed && decide (required ≤ s.validation)

def raiseValidity (s : BlockStatus) (level : ValidationLevel) : BlockStatus :=
  if s.isFailed then s
  else if s.validation < level then { s with validation := level }
  else s

def markFailed (s : BlockStatus) : BlockStatus := { s with failure := FailureState.VALIDATION_FAILED }

def markAncestorFailed (s : BlockStatus) : BlockStatus :=
  { s with failure := FailureState.ANCESTOR_FAILED }

@[simp] theorem isFailed_markFailed (s : BlockStatus) : s.markFailed.isFailed = true := rfl

@[simp] theorem isFailed_markAncestorFailed (s : BlockStatus) : s.markAncestorFailed.isFailed = true := rfl

@[simp] theorem isFailed_raiseValidity (s : BlockStatus) (l : ValidationLevel) :
    (s.raiseValidity l).isFailed = s.isFailed := by
  unfold raiseValidity
  split
  · rfl
  · split <;> rfl

theorem isValid_raiseValidity (s : BlockStatus) (l : ValidationLevel) :
    (s.raiseValidity l).isValid l = !s.isFailed := by
  unfold isValid
  rw [isFailed_raiseValidity]
  unfold raiseValidity
  split
  · simp [*]
  · split
    · simp
    · rename_i h
      simp [BitVec.not_lt.mp h]

theorem not_isFailed_of_isValid {s : BlockStatus} {l : ValidationLevel} (h : s.isValid l = true) :
    s.isFailed = false := by
  simp only [isValid, Bool.and_eq_true, Bool.not_eq_true'] at h
  exact h.1

end BlockStatus

/-! ## Index entries -/

abbrev BlockPtr := Uint256

structure CBlockIndex where
  status : BlockStatus := {}
  pprev : Option BlockPtr := none
  pskip : Option BlockPtr := none
  nHeight : Int := 0
  nChainWork : ArithUint256 := 0
  nVersion : BitVec 32 := 0
  minerAddress : Uint160 := 0
  nTime : BitVec 32 := 0
  nBits : BitVec 32 := 0
  nNonce : BitVec 32 := 0
  hashRandomX : Uint256 := 0
  nTimeReceived : Int := 0
  nTimeMax : Int := 0
deriving DecidableEq

abbrev BlockMap := Std.ExtTreeMap Uint256 CBlockIndex compare

namespace CBlockIndex

/-- The constructor from a header. -/
def ofHeader (block : CBlockHeader) : CBlockIndex :=
  { nVersion := block.nVersion, minerAddress := block.minerAddress, nTime := block.nTime,
    nBits := block.nBits, nNonce := block.nNonce, hashRandomX := block.hashRandomX }

def getBlockHeader (b : CBlockIndex) : CBlockHeader :=
  { nVersion := b.nVersion, hashPrevBlock := b.pprev.getD 0, minerAddress := b.minerAddress,
    nTime := b.nTime, nBits := b.nBits, nNonce := b.nNonce, hashRandomX := b.hashRandomX }

def getBlockTime (b : CBlockIndex) : Int := b.nTime.toNat

def isValid (b : CBlockIndex) : Bool := b.status.isValid ValidationLevel.TREE

def isFailed (b : CBlockIndex) : Bool := b.status.isFailed

theorem isFailed_of_isValid {b : CBlockIndex} (h : b.isValid = true) : b.isFailed = false :=
  BlockStatus.not_isFailed_of_isValid h

end CBlockIndex

namespace BlockMap

/-! ## Reading through a pointer -/

def pprev (m : BlockMap) (p : BlockPtr) : Option BlockPtr := m[p]?.bind CBlockIndex.pprev

def nHeight (m : BlockMap) (p : BlockPtr) : Int := m[p]?.elim 0 CBlockIndex.nHeight

def nChainWork (m : BlockMap) (p : BlockPtr) : ArithUint256 := m[p]?.elim 0 CBlockIndex.nChainWork

def nTimeMax (m : BlockMap) (p : BlockPtr) : Int := m[p]?.elim 0 CBlockIndex.nTimeMax

def isFailed (m : BlockMap) (p : BlockPtr) : Bool := m[p]?.elim false CBlockIndex.isFailed

def isValid (m : BlockMap) (p : BlockPtr) : Bool := m[p]?.elim false CBlockIndex.isValid

/-- Some entry has `p` as its parent. -/
def hasChildren (m : BlockMap) (p : BlockPtr) : Bool := m.toList.any (fun kv => kv.2.pprev == some p)

/-- The entries in the order of `std::sort` by height over a walk of the map. -/
def byHeight (m : BlockMap) : List BlockPtr :=
  m.keys.insertionSort (fun a b => m.nHeight a ≤ m.nHeight b)

/-! ## The skip list -/

def invertLowestOne (n : Nat) : Nat := n &&& (n - 1)

def getSkipHeight (height : Int) : Int :=
  if height < 2 then 0
  else
    let h := height.toNat
    if h % 2 = 1 then invertLowestOne (invertLowestOne (h - 1)) + 1 else invertLowestOne h

/-- The loop of `GetAncestor`. A walk that would follow a null `pprev` ends in `none`. -/
def getAncestorWalk (m : BlockMap) (height : Int) : Nat → BlockPtr → Int → Option BlockPtr
  | 0, _, _ => none
  | fuel + 1, pindexWalk, heightWalk =>
    if height < heightWalk then
      match m[pindexWalk]? with
      | none => none
      | some b =>
        let heightSkip := getSkipHeight heightWalk
        let heightSkipPrev := getSkipHeight (heightWalk - 1)
        let useSkip := heightSkip = height ∨
          (height < heightSkip ∧ ¬ (heightSkipPrev < heightSkip - 2 ∧ height ≤ heightSkipPrev))
        let viaPrev := b.pprev.bind (fun p => getAncestorWalk m height fuel p (heightWalk - 1))
        match b.pskip with
        | some q => if useSkip then getAncestorWalk m height fuel q heightSkip else viaPrev
        | none => viaPrev
    else some pindexWalk

def getAncestor (m : BlockMap) (p : BlockPtr) (height : Int) : Option BlockPtr :=
  if m.nHeight p < height ∨ height < 0 then none
  else getAncestorWalk m height ((m.nHeight p).toNat + 1) p (m.nHeight p)

/-- What `BuildSkip` stores in the entry `b`. -/
def buildSkip (m : BlockMap) (b : CBlockIndex) : CBlockIndex :=
  match b.pprev with
  | some q => { b with pskip := m.getAncestor q (getSkipHeight b.nHeight) }
  | none => b

/-! ## Last common ancestor -/

/-- `while (pa != pb && pa && pb)`, both one step back at a time. -/
def meet (m : BlockMap) : Nat → Option BlockPtr → Option BlockPtr → Option BlockPtr
  | 0, pa, _ => pa
  | fuel + 1, some a, some b =>
    if a = b then some a else meet m fuel (m.pprev a) (m.pprev b)
  | _ + 1, pa, _ => pa

def lastCommonAncestor (m : BlockMap) (pa pb : Option BlockPtr) : Option BlockPtr :=
  match pa, pb with
  | some a, some b =>
    if m.nHeight b < m.nHeight a then
      meet m ((m.nHeight b).toNat + 1) (m.getAncestor a (m.nHeight b)) (some b)
    else if m.nHeight a < m.nHeight b then
      meet m ((m.nHeight a).toNat + 1) (some a) (m.getAncestor b (m.nHeight a))
    else meet m ((m.nHeight a).toNat + 1) (some a) (some b)
  | _, _ => none

/-! ## Ancestor headers -/

/-- The headers a contextual check reaches from `pindexPrev` by following `pprev`. -/
def ancestry (m : BlockMap) : Nat → Option BlockPtr → List CBlockHeader
  | 0, _ => []
  | _ + 1, none => []
  | fuel + 1, some p => match m[p]? with
    | none => []
    | some b => b.getBlockHeader :: ancestry m fuel b.pprev

end BlockMap

end UnicityPow
