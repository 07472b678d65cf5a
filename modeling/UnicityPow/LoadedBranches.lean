import UnicityPow.LoadedState
import UnicityPow.Runs

/-!
# Failed and best branches after `Load`

`Load` re-validates one header at a time and picks the tip among the leaves. Which files it
treats as intended is told by the failures and the leaves of the file.
-/

namespace UnicityPow

open Forest BlockMap ChainstateManager

section
variable {getHash : CBlockHeader → Uint256} {params : ConsensusParams} {env : Env} {genesis : BlockPtr}
  {file : HeaderFile} {s s' : ChainstateManager}

/-! ## Failed branches -/

/-- No block below a failed one is valid or a candidate, and no failed block is active. -/
structure ChainstateManager.NoResurrection (s : ChainstateManager) : Prop where
  valid : ∀ a p, Anc s.blockIndex.pprev a p → a ≠ p → s.blockIndex.isFailed a = true →
    s.blockIndex.isValid p = false
  candidates : ∀ a p, Anc s.blockIndex.pprev a p → a ≠ p → s.blockIndex.isFailed a = true → p ∉ s.candidates
  activeChain : ∀ p, some p ∈ s.activeChain → s.blockIndex.isFailed p = false

/-- In the file, failure passes from every record to the records below it, and the saved tip
passes its checks again if no leaf does. -/
def HeaderFile.FailureClosed (getHash : CBlockHeader → Uint256) (env : Env) (file : HeaderFile) : Prop :=
  Inherited (file.index getHash).pprev (fun p => file.fails getHash env p = true) ∧
    ((∀ p ∈ file.index getHash, (file.index getHash).hasChildren p = false → file.fails getHash env p = true) →
      file.fails getHash env file.savedTip = false)

theorem Loaded.pprev_eq (h : Loaded getHash env genesis file s) :
    s.blockIndex.pprev = (file.index getHash).pprev := h.links.pprev_eq

theorem Loaded.mem_iff (h : Loaded getHash env genesis file s) {p : BlockPtr} :
    p ∈ s.blockIndex ↔ p ∈ file.index getHash := h.links.mem_iff

theorem Loaded.isValidLeaf_iff (h : Loaded getHash env genesis file s) {p : BlockPtr} :
    IsValidLeaf s.blockIndex p ↔ p ∈ file.index getHash ∧ (file.index getHash).hasChildren p = false ∧
      file.fails getHash env p = false := by
  unfold IsValidLeaf
  rw [h.links.hasChildren_eq]
  constructor
  · rintro ⟨hleaf, hv⟩
    have hp := h.mem_iff.mp (mem_of_isValid hv)
    exact ⟨hp, hleaf, (h.isValid hp).mp hv⟩
  · rintro ⟨hp, hleaf, hf⟩
    exact ⟨hleaf, (h.isValid hp).mpr hf⟩

theorem Loaded.noValidLeaf_iff (h : Loaded getHash env genesis file s) :
    (∀ q, ¬ IsValidLeaf s.blockIndex q) ↔
      ∀ p ∈ file.index getHash, (file.index getHash).hasChildren p = false → file.fails getHash env p = true := by
  simp only [h.isValidLeaf_iff]
  constructor
  · intro hno p hp hleaf
    by_contra hf
    exact hno p ⟨hp, hleaf, by simpa using hf⟩
  · rintro hall q ⟨hq, hleaf, hf⟩
    rw [hall q hq hleaf] at hf
    cases hf

/-- A successful load resurrects nothing exactly when the file is closed under failure. -/
theorem load_resurrects_nothing (h : s.load getHash params env file = (s', true)) :
    s'.NoResurrection ↔ file.FailureClosed getHash env := by
  have L := load_loaded h
  have T := L.wf.tree.toTreeShape
  obtain ⟨tip, htm, htip, hpath⟩ := L.wf.tip_exists
  constructor
  · intro hno
    refine ⟨fun p q hq hf => ?_, fun hall => ?_⟩
    · rw [← L.pprev_eq] at hq
      rw [← L.isFailed] at hf ⊢
      have hv := hno.valid q p (.parent hq) (fun e => par_irrefl T.ranked (e ▸ hq)) hf
      by_contra hnf
      rw [(L.wf.isValid_iff (mem_of_pprev hq)).mpr (by simpa using hnf)] at hv
      cases hv
    · rcases L.tip with ⟨-, ht⟩ | ⟨best, hbest, -⟩
      · rw [← L.isFailed]
        refine hno.activeChain _ ((hpath.mem_iff T).mpr ?_)
        rw [htip] at ht
        cases ht
        exact .refl
      · exact absurd hbest (L.noValidLeaf_iff.mpr hall best)
  · rintro ⟨hclosed, hsaved⟩
    have hinh : Inherited s'.blockIndex.pprev (fun p => s'.blockIndex.isFailed p = true) := by
      intro p q hq hf
      rw [L.isFailed] at hf ⊢
      exact hclosed p q (L.pprev_eq ▸ hq) hf
    have hvalid : ∀ a p, Anc s'.blockIndex.pprev a p → s'.blockIndex.isFailed a = true →
        s'.blockIndex.isValid p = false := by
      intro a p ha hf
      by_contra hv
      have := isFailed_of_isValid (by simpa using hv)
      rw [ha.inherited (P := fun p => s'.blockIndex.isFailed p = true) hinh hf] at this
      cases this
    refine ⟨fun a p ha _ hf => hvalid a p ha hf, fun a p ha _ hf hc => ?_, fun p hp => ?_⟩
    · have := ((L.candidates p).mp hc).2
      rw [hvalid a p ha hf] at this
      cases this
    · have htf : s'.blockIndex.isFailed tip = false := by
        rcases L.tip with ⟨hnone, ht⟩ | ⟨best, hbest, -, ht⟩ <;> rw [htip] at ht <;> cases ht
        · rw [L.isFailed]
          exact hsaved (L.noValidLeaf_iff.mp hnone)
        · exact isFailed_of_isValid hbest.2
      simpa using ((hpath.mem_iff T).mp hp).not_inherited hinh (by rw [htf]; decide)

/-! ## The best branch -/

/-- The tip has the most work among the blocks that neither fail nor descend from a failed
block. -/
def ChainstateManager.TipIsBestClean (s : ChainstateManager) : Prop :=
  ∃ tip, s.getTip = some tip ∧ ∀ p ∈ s.blockIndex, (∀ a, Anc s.blockIndex.pprev a p → s.blockIndex.isFailed a = false) →
    s.blockIndex.nChainWork p ≤ s.blockIndex.nChainWork tip

/-- The proofs of a block and its ancestors, added up. -/
def BlockMap.recomputedWork (m : BlockMap) (p : BlockPtr) : ArithUint256 :=
  ((m.ancestry (m.rank p + 1) (some p)).map (fun h => getBlockProof h.nBits)).sum

theorem ancestry_of_get {m : BlockMap} {p : BlockPtr} {b : CBlockIndex} (hb : m[p]? = some b) (fuel : Nat) :
    m.ancestry (fuel + 1) (some p) = b.getBlockHeader :: m.ancestry fuel b.pprev := by
  simp only [ancestry, hb]

theorem HeaderTree.nChainWork_eq {m : BlockMap} (T : HeaderTree getHash m genesis) {p : BlockPtr} (hp : p ∈ m) :
    m.nChainWork p = m.recomputedWork p := by
  unfold BlockMap.recomputedWork
  induction hk : m.rank p generalizing p with
  | zero =>
    obtain ⟨b, hb⟩ := mem_iff.mp hp
    have hg := T.genesis_of_height hp (by have := T.rank_cast p; omega)
    subst hg
    obtain ⟨hpp, -⟩ := T.genesis_entry hb
    rw [nChainWork_of_get hb, T.work p b hb, hpp]
    rw [ancestry_of_get hb, hpp]
    simp [ancestry, CBlockIndex.getBlockHeader]
  | succ n ih =>
    obtain ⟨b, hb⟩ := mem_iff.mp hp
    obtain ⟨q, hq⟩ := T.exists_parent (p := p) (by have := T.rank_cast p; omega)
    have hqb : b.pprev = some q := by rw [← pprev_of_get hb]; exact hq
    have hr := T.ranked p q hq
    rw [nChainWork_of_get hb, T.work p b hb, hqb, Option.elim_some, ih (T.mem_parent hq) (by omega)]
    rw [ancestry_of_get hb, hqb, List.map_cons, List.sum_cons, BitVec.add_comm]
    rfl

/-- Every clean record has at most the work of an unfailed leaf, or of the saved tip when
every leaf fails. -/
def HeaderFile.LeavesCarryBest (getHash : CBlockHeader → Uint256) (env : Env) (file : HeaderFile) : Prop :=
  ∀ p ∈ file.index getHash, (∀ a, Anc (file.index getHash).pprev a p → file.fails getHash env a = false) →
    (∃ q ∈ file.index getHash, (file.index getHash).hasChildren q = false ∧ file.fails getHash env q = false ∧
      (file.index getHash).recomputedWork p ≤ (file.index getHash).recomputedWork q) ∨
    (∀ q ∈ file.index getHash, (file.index getHash).hasChildren q = false → file.fails getHash env q = true) ∧
      (file.index getHash).recomputedWork p ≤ (file.index getHash).recomputedWork file.savedTip

theorem Loaded.nChainWork_eq (h : Loaded getHash env genesis file s) {p : BlockPtr} (hp : p ∈ file.index getHash) :
    s.blockIndex.nChainWork p = (file.index getHash).recomputedWork p := by
  rw [h.wf.tree.nChainWork_eq (h.mem_iff.mpr hp)]
  unfold BlockMap.recomputedWork
  rw [h.links.rank_eq, ancestry_links h.links]

/-- A successful load selects a best clean block exactly when the leaves carry the work. -/
theorem load_selects_best (h : s.load getHash params env file = (s', true)) :
    s'.TipIsBestClean ↔ file.LeavesCarryBest getHash env := by
  have L := load_loaded h
  unfold ChainstateManager.TipIsBestClean HeaderFile.LeavesCarryBest
  have hclean : ∀ p, (∀ a, Anc s'.blockIndex.pprev a p → s'.blockIndex.isFailed a = false) ↔
      ∀ a, Anc (file.index getHash).pprev a p → file.fails getHash env a = false := by
    intro p
    rw [L.pprev_eq]
    simp only [L.isFailed]
  simp only [hclean, L.mem_iff]
  rcases L.tip with ⟨hnone, ht⟩ | ⟨best, hbest, hfirst, ht⟩
  · have hall := L.noValidLeaf_iff.mp hnone
    have htip := L.loadable.tipKnown
    constructor
    · rintro ⟨tip, ht', hbest⟩ p hp hc
      rw [ht] at ht'
      cases ht'
      exact .inr ⟨hall, by rw [← L.nChainWork_eq hp, ← L.nChainWork_eq htip]; exact hbest p hp hc⟩
    · intro hcarry
      refine ⟨_, ht, fun p hp hc => ?_⟩
      rcases hcarry p hp hc with ⟨q, hq, hleaf, hf, -⟩ | ⟨-, hw⟩
      · rw [hall q hq hleaf] at hf
        cases hf
      · rw [L.nChainWork_eq hp, L.nChainWork_eq htip]
        exact hw
  · obtain ⟨hbm, hbl, hbf⟩ := L.isValidLeaf_iff.mp hbest
    constructor
    · rintro ⟨tip, ht', htop⟩ p hp hc
      rw [ht] at ht'
      cases ht'
      exact .inl ⟨best, hbm, hbl, hbf, by rw [← L.nChainWork_eq hp, ← L.nChainWork_eq hbm]; exact htop p hp hc⟩
    · intro hcarry
      refine ⟨best, ht, fun p hp hc => ?_⟩
      rcases hcarry p hp hc with ⟨q, hq, hleaf, hf, hw⟩ | ⟨hall, -⟩
      · have hqb : s'.blockIndex.nChainWork q ≤ s'.blockIndex.nChainWork best := by
          rcases hfirst q (L.isValidLeaf_iff.mpr ⟨hq, hleaf, hf⟩) with rfl | hlt
          · exact BitVec.le_refl _
          · exact workBefore_work hlt
        rw [L.nChainWork_eq hp]
        rw [L.nChainWork_eq hq] at hqb
        exact BitVec.le_trans hw hqb
      · rw [hall best hbm hbl] at hbf
        cases hbf

end

/-! ## Files on a small chain -/

/-- Genesis, a failed block and an unfailed child of it. -/
def failedParentFile : HeaderFile :=
  shortFile 1 [shortRecord 0 1 0 0, shortRecord 1 2 1 1, shortRecord 2 3 2 0]

/-- The child of the failed block becomes the tip. -/
theorem failed_branch_resurrected :
    ¬ ∀ s', (fresh false).load shortHash shortParams {} failedParentFile = (s', true) → s'.NoResurrection := by
  intro h
  have hno := h ((fresh false).load shortHash shortParams {} failedParentFile).1 (Prod.ext rfl (by decide +kernel))
  have := hno.valid (short 2) (short 3) (.parent (by decide +kernel)) (by decide) (by decide +kernel)
  revert this
  decide +kernel

/-- A file of one valid branch. -/
def branchFile : HeaderFile := shortFile 2 [shortRecord 0 1 0 0, shortRecord 1 2 1 0]

theorem load_resurrects_nothing_short :
    ((fresh false).load shortHash shortParams {} branchFile).1.NoResurrection ↔
      branchFile.FailureClosed shortHash {} :=
  load_resurrects_nothing
    (show (fresh false).load shortHash shortParams {} branchFile = (_, true) from Prod.ext rfl (by decide +kernel))

theorem load_selects_best_short :
    ((fresh false).load shortHash shortParams {} branchFile).1.TipIsBestClean ↔
      branchFile.LeavesCarryBest shortHash {} :=
  load_selects_best
    (show (fresh false).load shortHash shortParams {} branchFile = (_, true) from Prod.ext rfl (by decide +kernel))

/-- A branch of two blocks whose last block fails, beside a single block. -/
def failedLeafFile : HeaderFile :=
  shortFile 3 [shortRecord 0 1 0 0, shortRecord 1 2 1 0, shortRecord 2 3 2 0, shortRecord 3 4 3 1, shortRecord 1 5 1 0]

/-- The saved tip is left for a leaf with less work. -/
theorem best_branch_left :
    ¬ ∀ s', (fresh false).load shortHash shortParams {} failedLeafFile = (s', true) → s'.TipIsBestClean := by
  intro h
  have hbest := h ((fresh false).load shortHash shortParams {} failedLeafFile).1 (Prod.ext rfl (by decide +kernel))
  have htip : ((fresh false).load shortHash shortParams {} failedLeafFile).1.getTip = some (short 5) := by
    decide +kernel
  have hmem : short 3 ∈ ((fresh false).load shortHash shortParams {} failedLeafFile).1.blockIndex := by decide +kernel
  have hp3 : ((fresh false).load shortHash shortParams {} failedLeafFile).1.blockIndex.pprev (short 3) =
      some (short 2) := by decide +kernel
  have hp2 : ((fresh false).load shortHash shortParams {} failedLeafFile).1.blockIndex.pprev (short 2) =
      some (short 1) := by decide +kernel
  have hp1 : ((fresh false).load shortHash shortParams {} failedLeafFile).1.blockIndex.pprev (short 1) = none := by
    decide +kernel
  have hf3 : ((fresh false).load shortHash shortParams {} failedLeafFile).1.blockIndex.isFailed (short 3) = false := by
    decide +kernel
  have hf2 : ((fresh false).load shortHash shortParams {} failedLeafFile).1.blockIndex.isFailed (short 2) = false := by
    decide +kernel
  have hf1 : ((fresh false).load shortHash shortParams {} failedLeafFile).1.blockIndex.isFailed (short 1) = false := by
    decide +kernel
  have hw3 : ((fresh false).load shortHash shortParams {} failedLeafFile).1.blockIndex.nChainWork (short 3) = 6 := by
    decide +kernel
  have hw5 : ((fresh false).load shortHash shortParams {} failedLeafFile).1.blockIndex.nChainWork (short 5) = 4 := by
    decide +kernel
  clear h
  generalize ((fresh false).load shortHash shortParams {} failedLeafFile).1 = s' at *
  obtain ⟨tip, ht, hbest⟩ := hbest
  rw [htip] at ht
  cases ht
  have hle := hbest (short 3) hmem (fun a ha => ?_)
  · rw [hw3, hw5] at hle
    exact absurd hle (by decide)
  · rw [anc_child hp3, anc_child hp2, anc_root hp1] at ha
    rcases ha with rfl | rfl | rfl
    · exact hf3
    · exact hf2
    · exact hf1

end UnicityPow
