import UnicityPow.OrderedSet
import UnicityPow.BlockManager

/-!
# The candidate set

`m_candidates` is a `std::set` ordered by `CBlockIndexWorkComparator`, kept here as the
list of its elements in that order.
-/

namespace UnicityPow

/-- `CBlockIndexWorkComparator`: more work first, then the taller chain, then the
smaller hash. -/
def workBefore (m : BlockMap) (pa pb : BlockPtr) : Bool :=
  if m.nChainWork pa ≠ m.nChainWork pb then decide (m.nChainWork pb < m.nChainWork pa)
  else if m.nHeight pa ≠ m.nHeight pb then decide (m.nHeight pb < m.nHeight pa)
  else decide (pa < pb)

structure ChainSelector where
  candidates : List BlockPtr := []
  bestHeader : Option BlockPtr := none

namespace ChainSelector

def addCandidateUnchecked (s : ChainSelector) (m : BlockMap) (p : BlockPtr) : ChainSelector :=
  { s with candidates := OrderedSet.insert (workBefore m) p s.candidates }

def removeCandidate (s : ChainSelector) (m : BlockMap) (p : BlockPtr) : ChainSelector :=
  { s with candidates := OrderedSet.erase (workBefore m) p s.candidates }

def clearCandidates (s : ChainSelector) : ChainSelector := { s with candidates := [] }

/-- `FindMostWorkChain` erases the failed entries it finds at the front. -/
def findMostWorkChain (s : ChainSelector) (m : BlockMap) : ChainSelector × Option BlockPtr :=
  let rest := s.candidates.dropWhile (fun p => m.isFailed p || !m.isValid p)
  ({ s with candidates := rest }, rest.head?)

def tryAddBlockIndexCandidate (s : ChainSelector) (m : BlockMap) (p : BlockPtr) : ChainSelector :=
  if !m.isValid p then s
  else if m.hasChildren p then s
  else
    let s := match m.pprev p with
      | some q => if OrderedSet.contains (workBefore m) q s.candidates then s.removeCandidate m q else s
      | none => s
    s.addCandidateUnchecked m p

/-- `PruneBlockIndexCandidates`, its five rules in order. -/
def shouldRemove (bm : BlockManager) (pindexTip p : BlockPtr) : Bool :=
  decide (bm.blockIndex.nChainWork p < bm.blockIndex.nChainWork pindexTip) || p == pindexTip ||
    bm.activeChain.contains bm.blockIndex p || bm.blockIndex.hasChildren p ||
    (bm.blockIndex.isFailed p || !bm.blockIndex.isValid p)

def pruneBlockIndexCandidates (s : ChainSelector) (bm : BlockManager) : ChainSelector :=
  match bm.getTip with
  | none => s
  | some pindexTip => { s with candidates := s.candidates.filter (fun p => !shouldRemove bm pindexTip p) }

def updateBestHeader (s : ChainSelector) (m : BlockMap) (p : BlockPtr) : ChainSelector :=
  match s.bestHeader with
  | none => { s with bestHeader := some p }
  | some q => if m.nChainWork q < m.nChainWork p then { s with bestHeader := some p } else s

end ChainSelector

end UnicityPow
