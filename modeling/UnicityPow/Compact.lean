import UnicityPow.BaseUint
import UnicityPow.HeaderBatch

/-!
# Compact targets and work, digit by digit

`arith_uint256::SetCompact` and `GetCompact`, and the two computations of the work of a header,
on arrays of digits.
-/

namespace UnicityPow

namespace BaseUint

/-- What `SetCompact` computes: the value and its two flags. -/
structure Decoded where
  value : BaseUint 8
  negative : Bool
  overflow : Bool
deriving DecidableEq

def setCompact (nCompact : BitVec 32) : Decoded :=
  let nSize := (nCompact >>> 24).toNat
  let nWord := nCompact &&& 0x007fffff#32
  let nWord := if nSize ≤ 3 then nWord >>> (8 * (3 - nSize)) else nWord
  { value := if nSize ≤ 3 then ofUint64 (nWord.setWidth 64) else (ofUint64 (nWord.setWidth 64)).shiftLeft (8 * (nSize - 3))
    negative := nWord ≠ 0 && nCompact &&& 0x00800000#32 ≠ 0
    overflow := nWord ≠ 0 && (nSize > 34 || (nWord > 0xff#32 && nSize > 33) ||
      (nWord > 0xffff#32 && nSize > 32)) }

/-- `GetCompact`; an assertion that fails ends in `none`. -/
def getCompact (x : BaseUint 8) (fNegative : Bool) : Option (BitVec 32) :=
  let nSize := (x.bits + 7) / 8
  let nCompact := if nSize ≤ 3 then (x.getLow64 <<< (8 * (3 - nSize))).setWidth 32
    else (x.shiftRight (8 * (nSize - 3))).getLow64.setWidth 32
  -- the sign bit of the mantissa is not free
  let signBit := nCompact &&& 0x00800000#32 ≠ 0
  let nSize := if signBit then nSize + 1 else nSize
  let nCompact := if signBit then nCompact >>> 8 else nCompact
  if nCompact &&& ~~~0x007fffff#32 ≠ 0 then none
  else if 256 ≤ nSize then none
  else
    some (nCompact ||| BitVec.ofNat 32 nSize <<< 24 |||
      (if fNegative ∧ nCompact &&& 0x007fffff#32 ≠ 0 then 0x00800000#32 else 0))

/-! ## Work -/

/-- `(~bnTarget / (bnTarget + 1)) + 1`. -/
def targetWork (bnTarget : BaseUint 8) : Option (BaseUint 8) :=
  (bnTarget.complement.div (bnTarget.add (ofUint64 1))).map (fun q => q.add (ofUint64 1))

def getBlockProof (nBits : BitVec 32) : Option (BaseUint 8) :=
  let bnTarget := setCompact nBits
  if bnTarget.negative || bnTarget.overflow || bnTarget.value.equalTo 0 then some (ofUint64 0)
  else if bnTarget.value = zero.complement then some (ofUint64 1)
  else targetWork bnTarget.value

/-- One round of the loop of `CalculateHeadersWork`. -/
def addHeaderWork (total_work : BaseUint 8) (header : CBlockHeader) : Option (BaseUint 8) :=
  let bnTarget := setCompact header.nBits
  if bnTarget.negative || bnTarget.overflow || bnTarget.value.equalTo 0 then some total_work
  else (targetWork bnTarget.value).map (fun block_proof => total_work.add block_proof)

def calculateHeadersWork (headers : List CBlockHeader) : Option (BaseUint 8) :=
  headers.foldlM addHeaderWork (ofUint64 0)

end BaseUint

end UnicityPow
