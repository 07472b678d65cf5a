import UnicityPow.Message
import UnicityPow.OrderedSet

/-!
# Network time

The clock samples of peers, the median filter over them, and the offset it sets.
-/

namespace UnicityPow

def DEFAULT_MAX_TIME_ADJUSTMENT : Int := 70 * 60

def BITCOIN_TIMEDATA_MAX_SAMPLES : Nat := 200

/-! ## The filter -/

structure CMedianFilter where
  nSize : Nat
  vValues : List Int
  vSorted : List Int
deriving DecidableEq

namespace CMedianFilter

/-- The constructor. -/
def ofInitial (size : Nat) (initialValue : Int) : CMedianFilter := ⟨size, [initialValue], [initialValue]⟩

/-- A full filter forgets its oldest value. -/
def input (f : CMedianFilter) (value : Int) : CMedianFilter :=
  let vValues := (if f.vValues.length = f.nSize then f.vValues.tail else f.vValues) ++ [value]
  { f with vValues := vValues, vSorted := vValues.insertionSort (· ≤ ·) }

/-- The mean of the middle two, which can overflow, is for even sizes; it is never asked for. -/
def median (f : CMedianFilter) : Int :=
  let vSortedSize := f.vSorted.length
  if vSortedSize % 2 = 1 then f.vSorted[vSortedSize / 2]?.getD 0
  else (f.vSorted[vSortedSize / 2 - 1]?.getD 0 + f.vSorted[vSortedSize / 2]?.getD 0).tdiv 2

def size (f : CMedianFilter) : Nat := f.vValues.length

end CMedianFilter

/-! ## Samples -/

/-- `NetworkAddress::operator<`. -/
def addressBefore (a b : NetworkAddress) : Bool :=
  if a.ip ≠ b.ip then decide (a.ip < b.ip)
  else if a.port ≠ b.port then decide (a.port < b.port)
  else decide (a.services < b.services)

/-- The state of `timedata.cpp`. -/
structure TimeData where
  nTimeOffset : Int := 0
  gSources : List NetworkAddress := []
  gTimeOffsets : CMedianFilter := .ofInitial BITCOIN_TIMEDATA_MAX_SAMPLES 0
  gWarningEmitted : Bool := false
deriving DecidableEq

namespace TimeData

def getTimeOffset (s : TimeData) : Int := s.nTimeOffset

/-- Some sample is near ours, and not ours. -/
def fMatch (vSorted : List Int) : Bool :=
  vSorted.any fun nOffset => nOffset ≠ 0 && -5 * 60 < nOffset && nOffset < 5 * 60

/-- The offset of an odd filter; one that is too large is not followed. -/
def updateOffset (s : TimeData) : TimeData :=
  let nMedian := s.gTimeOffsets.median
  if -DEFAULT_MAX_TIME_ADJUSTMENT ≤ nMedian ∧ nMedian ≤ DEFAULT_MAX_TIME_ADJUSTMENT then
    { s with nTimeOffset := nMedian }
  else
    { s with
      nTimeOffset := 0
      gWarningEmitted := s.gWarningEmitted || !fMatch s.gTimeOffsets.vSorted }

def addTimeData (s : TimeData) (ip : NetworkAddress) (nOffsetSample : Int) : TimeData :=
  if s.gSources.length = BITCOIN_TIMEDATA_MAX_SAMPLES then s
  else if OrderedSet.contains addressBefore ip s.gSources then s
  else
    let s := { s with
      gSources := OrderedSet.insert addressBefore ip s.gSources
      gTimeOffsets := s.gTimeOffsets.input nOffsetSample }
    if 5 ≤ s.gTimeOffsets.size ∧ s.gTimeOffsets.size % 2 = 1 then s.updateOffset else s

end TimeData

end UnicityPow
