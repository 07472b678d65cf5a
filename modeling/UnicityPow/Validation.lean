import UnicityPow.Pow
import Mathlib.Data.List.Sort

/-!
# Contextual header checks

`ContextualCheckBlockHeader` and the median time past. The checks see of a block what they reach
from it over `pprev` and `GetAncestor`, so they are given twice: over the index, and over the list of
the headers of a block and its ancestors.
-/

namespace UnicityPow

def MEDIAN_TIME_SPAN : Nat := 11
def MAX_FUTURE_BLOCK_TIME : Int := 2 * 60 * 60

def CBlockHeader.getBlockTime (header : CBlockHeader) : Int := header.nTime.toNat

/-- `std::sort`, and the entry in the middle. -/
def medianTime (pmedian : List Int) : Int := (pmedian.insertionSort (· ≤ ·))[pmedian.length / 2]?.getD 0

/-- The loop follows `pprev` for up to `MEDIAN_TIME_SPAN` blocks. -/
def BlockMap.getMedianTimePast (m : BlockMap) (p : BlockPtr) : Int :=
  medianTime ((m.ancestry MEDIAN_TIME_SPAN (some p)).map CBlockHeader.getBlockTime)

/-! ## The checks -/

/-- The checks on the values that were looked up. -/
def checkContext (header : CBlockHeader) (expected_bits : BitVec 32) (median_time_past : Option Int)
    (adjusted_time : Int) : Except ValidationState Unit :=
  if header.nBits ≠ expected_bits then
    .error (.invalid "bad-diffbits"
      ("incorrect difficulty: expected " ++ toString expected_bits.toNat ++ ", got " ++
      toString header.nBits.toNat))
  else if median_time_past.any (fun t => decide (header.getBlockTime ≤ t)) then
    .error (.invalid "time-too-old" ("block's timestamp is too early: " ++ toString header.nTime.toNat ++ " <= " ++
      toString (median_time_past.getD 0)))
  else if adjusted_time + MAX_FUTURE_BLOCK_TIME < header.getBlockTime then
    .error (.invalid "time-too-new" ("block timestamp too far in future: " ++ toString header.nTime.toNat ++ " > " ++
      toString (adjusted_time + MAX_FUTURE_BLOCK_TIME)))
  else if header.nVersion.toInt < 1 then
    .error (.invalid "bad-version" ("block version too old: " ++ toString header.nVersion.toInt))
  else .ok ()

/-- `ContextualCheckBlockHeader`; `none` when an assertion of `GetNextWorkRequired` fails. -/
def contextualCheckBlockHeader (params : PowParams) (m : BlockMap) (header : CBlockHeader)
    (pindexPrev : Option BlockPtr) (adjusted_time : Int) : Option (Except ValidationState Unit) :=
  (getNextWorkRequired params m pindexPrev).map (fun expected_bits =>
    checkContext header expected_bits (pindexPrev.map m.getMedianTimePast) adjusted_time)

/-! ## On a list of ancestors -/

/-- `GetNextWorkRequired` below a block and its ancestors. -/
def pastWorkRequired (params : PowParams) : List CBlockHeader → Option (BitVec 32)
  | [] => params.powLimit256.getCompact false
  | prev :: past =>
    let height : Int := past.length
    if params.chainType = .REGTEST then params.powLimit256.getCompact false
    else if height < params.nASERTAnchorHeight then params.powLimit256.getCompact false
    else if params.nASERTAnchorHeight < 0 then none
    else match (prev :: past)[(height - params.nASERTAnchorHeight).toNat]? with
      | none => none
      | some anchor => params.asertWork anchor.nBits anchor.nTime prev.nTime height

def pastMedianTime (past : List CBlockHeader) : Option Int :=
  if past.isEmpty then none else some (medianTime ((past.take MEDIAN_TIME_SPAN).map CBlockHeader.getBlockTime))

/-- The check as `AcceptBlockHeader` makes it; a failed assertion lets nothing pass. -/
def contextualCheckPast (params : PowParams) (header : CBlockHeader) (past : List CBlockHeader) (adjusted_time : Int) :
    Option ValidationState :=
  match pastWorkRequired params past with
  | none => some (.error "assertion failed")
  | some expected_bits =>
    match checkContext header expected_bits (pastMedianTime past) adjusted_time with
    | .ok _ => none
    | .error state => some state

end UnicityPow
