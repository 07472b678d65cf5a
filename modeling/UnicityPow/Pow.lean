import UnicityPow.Chainstate
import UnicityPow.Compact

/-!
# Required work

`CalculateASERT` and `GetNextWorkRequired`. The target of the anchor block is scaled by a power of
two whose exponent has 16 fractional bits, in 512-bit arithmetic.
-/

namespace UnicityPow

inductive ChainType
  | MAIN | TESTNET | REGTEST
deriving DecidableEq

/-- The parameters of the difficulty rule. -/
structure PowParams where
  chainType : ChainType := .MAIN
  powLimit : Uint256
  nPowTargetSpacing : Int
  nASERTHalfLife : Int
  nASERTAnchorHeight : Int

def toInt64 (n : Int) : Int := (BitVec.ofInt 64 n).toInt

namespace BaseUint

/-- `UintToArith256`, from the value to its digits. -/
def ofArith (a : ArithUint256) : BaseUint 8 := ⟨Vector.ofFn (fun i => a.extractLsb' (32 * i) 32)⟩

/-- The constructor of `arith_uint512` from `arith_uint256`. -/
def ofUint256 (b : BaseUint 8) : BaseUint 16 := ⟨Vector.ofFn (fun i => if i.val < 8 then b.digit i else 0)⟩

def arithU512ToU256 (u512 : BaseUint 16) : BaseUint 8 := ⟨Vector.ofFn (fun i => u512.digit i)⟩

end BaseUint

/-! ## ASERT -/

/-- `exponentBase * 65536 / nHalfLife` in 128 bits, cut to 64. -/
def asertExponent (exponentBase nHalfLife : Int) : Int :=
  let divres := (exponentBase * 65536).tdiv nHalfLife
  if 2 ^ 63 - 1 < divres then 2 ^ 63 - 1
  else if divres < -2 ^ 63 then -2 ^ 63
  else divres

/-- The cubic for `65536 * 2^x` at `x = frac / 65536`. -/
def asertFactor (frac : BitVec 16) : BitVec 32 :=
  let frac := frac.setWidth 64
  (65536#64 + (195766423245049#64 * frac + 971821376#64 * frac * frac + 5127#64 * frac * frac * frac +
    1#64 <<< 47) >>> 48).setWidth 32

/-- The integer part of the exponent; an overflow that shifting back shows ends at the limit. -/
def asertShift (nextTarget512 powLimit512 : BaseUint 16) (shifts : Int) : BaseUint 16 :=
  if shifts ≤ 0 then nextTarget512.shiftRight (BitVec.ofInt 32 (-shifts)).toNat
  else
    let nextTarget512Shifted := nextTarget512.shiftLeft (BitVec.ofInt 32 shifts).toNat
    if nextTarget512Shifted.shiftRight (BitVec.ofInt 32 shifts).toNat ≠ nextTarget512 then powLimit512
    else nextTarget512Shifted

def calculateASERT (refTarget : BaseUint 8) (nPowTargetSpacing nTimeDiff nHeightDiff : Int) (powLimit : BaseUint 8)
    (nHalfLife : Int) : BaseUint 8 :=
  if refTarget.equalTo 0 ∨ 0 < refTarget.compareTo powLimit then .arithU512ToU256 (.ofUint256 powLimit)
  else if nHeightDiff < 0 then .arithU512ToU256 (.ofUint256 powLimit)
  else if nHalfLife ≤ 0 then .arithU512ToU256 (.ofUint256 powLimit)
  else
    let exponentBase := toInt64 (nTimeDiff - toInt64 (nPowTargetSpacing * toInt64 (nHeightDiff + 1)))
    let exponent := asertExponent exponentBase nHalfLife
    let factor := asertFactor (BitVec.ofInt 16 exponent)
    let powLimit512 := BaseUint.ofUint256 powLimit
    let nextTarget512 := asertShift ((BaseUint.ofUint256 refTarget).mulUint32 factor) powLimit512 (exponent >>> (16 : Nat) - 16)
    let nextTarget512 := if 0 < nextTarget512.compareTo powLimit512 then powLimit512 else nextTarget512
    let nextTarget := BaseUint.arithU512ToU256 nextTarget512
    if nextTarget.equalTo 0 then .ofUint64 1
    else if 0 < nextTarget.compareTo powLimit then powLimit
    else nextTarget

example : calculateASERT (.ofUint64 1000) 600 1800 0 (.ofUint64 4000) 1200 = .ofUint64 2000 := by decide +kernel

/-! ## The required work -/

namespace BlockMap

def nBits (m : BlockMap) (p : BlockPtr) : BitVec 32 := m[p]?.elim 0 CBlockIndex.nBits

def nTime (m : BlockMap) (p : BlockPtr) : BitVec 32 := m[p]?.elim 0 CBlockIndex.nTime

end BlockMap

namespace PowParams

def powLimit256 (params : PowParams) : BaseUint 8 := .ofArith (uintToArith256 params.powLimit)

/-- The target that follows from the anchor, in compact form. The difference of the times is one of
`uint32_t`. -/
def asertWork (params : PowParams) (anchorBits anchorTime prevTime : BitVec 32) (prevHeight : Int) :
    Option (BitVec 32) :=
  let refTarget := (BaseUint.setCompact anchorBits).value
  let nTimeDiff : Int := (prevTime - anchorTime).toNat
  let nHeightDiff := toInt32 (prevHeight - params.nASERTAnchorHeight)
  (calculateASERT refTarget params.nPowTargetSpacing nTimeDiff nHeightDiff params.powLimit256
    params.nASERTHalfLife).getCompact false

end PowParams

/-- `GetNextWorkRequired`; an assertion that fails ends in `none`. -/
def getNextWorkRequired (params : PowParams) (m : BlockMap) : Option BlockPtr → Option (BitVec 32)
  | none => params.powLimit256.getCompact false
  | some pindexPrev =>
    if params.chainType = .REGTEST then params.powLimit256.getCompact false
    else if m.nHeight pindexPrev < params.nASERTAnchorHeight then params.powLimit256.getCompact false
    else match m.getAncestor pindexPrev params.nASERTAnchorHeight with
      | none => none
      | some pindexAnchor =>
        if m.nHeight pindexAnchor ≠ params.nASERTAnchorHeight then none
        else params.asertWork (m.nBits pindexAnchor) (m.nTime pindexAnchor) (m.nTime pindexPrev) (m.nHeight pindexPrev)

end UnicityPow
