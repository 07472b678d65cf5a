import UnicityPow.BlockIndex
import UnicityPow.Search

/-!
# The active chain vector

`CChain::vChain`: entry `i` is the block at height `i` of the active chain.
-/

namespace UnicityPow

abbrev CChain := List (Option BlockPtr)

namespace CChain

def tip (v : CChain) : Option BlockPtr := v.getLast?.join

def genesis (v : CChain) : Option BlockPtr := v.head?.join

/-- `operator[]`. -/
def entry (v : CChain) (nHeight : Int) : Option BlockPtr :=
  if nHeight < 0 ∨ (v.length : Int) ≤ nHeight then none else v[nHeight.toNat]?.join

def contains (v : CChain) (m : BlockMap) (p : BlockPtr) : Bool := v.entry (m.nHeight p) == some p

def height (v : CChain) : Int := (v.length : Int) - 1

def resize (v : CChain) (n : Nat) : CChain := v.take n ++ List.replicate (n - v.length) none

/-- The loop of `SetTip`, walking back from `pindex` until an entry is already right. -/
def setTipWalk (m : BlockMap) : Nat → CChain → Option BlockPtr → CChain
  | 0, v, _ => v
  | _ + 1, v, none => v
  | fuel + 1, v, some p =>
    if m.nHeight p < 0 then v
    else
      let idx := (m.nHeight p).toNat
      let v := if v.length ≤ idx then v.resize (idx + 1) else v
      if v[idx]? = some (some p) then v else setTipWalk m fuel (v.set idx (some p)) (m.pprev p)

def setTip (v : CChain) (m : BlockMap) (p : BlockPtr) : CChain :=
  if m.nHeight p < 0 then v
  else setTipWalk m ((m.nHeight p).toNat + 1) (v.resize ((m.nHeight p).toNat + 1)) (some p)

/-- `while (pindex && !Contains(pindex))`. -/
def findForkWalk (v : CChain) (m : BlockMap) : Nat → Option BlockPtr → Option BlockPtr
  | 0, _ => none
  | _ + 1, none => none
  | fuel + 1, some p => if v.contains m p then some p else findForkWalk v m fuel (m.pprev p)

def findFork (v : CChain) (m : BlockMap) (pindex : Option BlockPtr) : Option BlockPtr :=
  match pindex with
  | none => none
  | some p =>
    findForkWalk v m ((m.nHeight p).toNat + 1) (if v.height < m.nHeight p then m.getAncestor p v.height else some p)

/-- The comparator of `FindEarliestAtLeast`. -/
def earlier (m : BlockMap) (nTime height : Int) (pBlock : Option BlockPtr) : Bool :=
  pBlock.any (fun p => decide (m.nTimeMax p < nTime ∨ m.nHeight p < height))

def findEarliestAtLeast (v : CChain) (m : BlockMap) (nTime height : Int) : Option BlockPtr :=
  let lower := Search.lowerBound (fun i => earlier m nTime height (v[i]?.join)) v.length
  if lower = v.length then none else v[lower]?.join

end CChain

end UnicityPow
