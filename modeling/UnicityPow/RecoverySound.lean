import UnicityPow.FailureSound

/-!
# The best chain after invalidations

As long as every valid block with more work than the tip has a valid candidate with at
least its work, the next activation reaches a best block. Invalidating a block of the
active chain keeps that; invalidating a block off it need not.
-/

namespace UnicityPow

open Forest BlockMap

namespace ChainstateManager

/-- Every valid block above the tip has a valid candidate with at least its work. -/
def Covered (s : ChainstateManager) : Prop :=
  ∀ tip, s.getTip = some tip → ∀ p, s.blockIndex.isValid p = true →
    s.blockIndex.nChainWork p ≤ s.blockIndex.nChainWork tip ∨
      ∃ c ∈ s.candidates, s.blockIndex.isValid c = true ∧ s.blockIndex.nChainWork p ≤ s.blockIndex.nChainWork c

/-- The work of a new header does not pass the end of its 256 bits. -/
def WorkFits (getHash : CBlockHeader → Uint256) (s : ChainstateManager) (header : CBlockHeader) : Prop :=
  getHash header ∉ s.blockIndex → header.hashPrevBlock ∈ s.blockIndex →
    (s.blockIndex.nChainWork header.hashPrevBlock).toNat + (getBlockProof header.nBits).toNat < 2 ^ 256

/-- Off the active chain, the blocks that stay valid keep a candidate or a leaf with at
least their work when they have more than the tip. -/
def LeavesBranch (s : ChainstateManager) (hash : BlockPtr) : Prop :=
  ∀ tip, s.getTip = some tip → ∀ p, s.blockIndex.isValid p = true → ¬ Anc s.blockIndex.pprev hash p →
    s.blockIndex.nChainWork p ≤ s.blockIndex.nChainWork tip ∨
      ∃ c, s.blockIndex.isValid c = true ∧ ¬ Anc s.blockIndex.pprev hash c ∧
        s.blockIndex.nChainWork p ≤ s.blockIndex.nChainWork c ∧
          (c ∈ s.candidates ∨ s.blockIndex.hasChildren c = false)

/-- The operations of a node whose orphan pool stays empty. -/
def IsBranchOp : ChainOp → Prop
  | .processNewBlockHeader _ _ _ => True
  | .acceptAndTryAdd _ _ _ => True
  | .invalidateBlock _ => True
  | .activateBestChain given => given = none
  | _ => False

/-- No work wraps, and an invalidated block is on the active chain or leaves the best
remaining branch a candidate. -/
def KeepsBranches (getHash : CBlockHeader → Uint256) (s : ChainstateManager) (a : ChainOp) : Prop :=
  IsBranchOp a ∧ match a with
    | .processNewBlockHeader _ header _ => WorkFits getHash s header
    | .acceptAndTryAdd _ header _ => WorkFits getHash s header
    | .invalidateBlock hash => s.activeChain.contains s.blockIndex hash = true ∨ LeavesBranch s hash
    | _ => True

end ChainstateManager

structure BranchInv (getHash : CBlockHeader → Uint256) (genesis : BlockPtr) (s : ChainstateManager) : Prop where
  wf : Wf getHash genesis s
  covered : s.Covered
  workMono : ∀ p q, s.blockIndex.pprev p = some q → s.blockIndex.nChainWork q ≤ s.blockIndex.nChainWork p
  noOrphans : s.orphanHeaders = ∅

section
variable {getHash : CBlockHeader → Uint256} {params : ConsensusParams} {env : Env} {genesis : BlockPtr}
  {s : ChainstateManager}

theorem BranchInv.anc_work (h : BranchInv getHash genesis s) {a p : BlockPtr} (ha : Anc s.blockIndex.pprev a p) :
    s.blockIndex.nChainWork a ≤ s.blockIndex.nChainWork p := by
  induction ha with
  | refl => exact BitVec.le_refl _
  | step hp _ ih => exact BitVec.le_trans ih (h.workMono _ _ hp)

theorem ChainstateManager.TipIsBest.covered (h : s.TipIsBest) : s.Covered := by
  obtain ⟨tip, ht, hbest⟩ := h
  intro t ht' p hp
  rw [ht] at ht'
  cases ht'
  exact .inl (hbest p hp)

/-! ## Headers -/

variable (params env) in
theorem acceptBlockHeader_noOrphans (W : Wf getHash genesis s) (hpool : s.orphanHeaders = ∅) (header : CBlockHeader)
    (minPowChecked : Bool) :
    (∃ state, s.acceptBlockHeader getHash params env header minPowChecked = (s, .error state)) ∨
    (s.acceptBlockHeader getHash params env header minPowChecked = (s, .ok (getHash header)) ∧
      getHash header ∈ s.blockIndex) ∨
    ∃ s' b, s.acceptBlockHeader getHash params env header minPowChecked = (s', .ok (getHash header)) ∧
      Inserted getHash genesis env s header s' b := by
  unfold ChainstateManager.acceptBlockHeader
  rcases acceptOne_cases params env W header minPowChecked with
    ⟨st, h⟩ | ⟨h, hm, -⟩ | ⟨s', b, h, -, -, hins⟩
  · rw [h]
    exact .inl ⟨st, rfl⟩
  · rw [h]
    exact .inr (.inl ⟨rfl, hm⟩)
  · rw [h]
    have : s'.orphanHeaders.size = 0 := by
      rw [hins.frame]
      simp [hpool]
    refine .inr (.inr ⟨s', b, ?_, hins⟩)
    simp only [this]
    rfl

theorem BranchInv.tryAddCandidate (h : BranchInv getHash genesis s) (p : BlockPtr) :
    BranchInv getHash genesis (s.tryAddCandidate p) := by
  refine ⟨h.wf.tryAddCandidate p, ?_, h.workMono, h.noOrphans⟩
  intro tip ht x hx
  rcases h.covered tip ht x hx with hle | ⟨c, hc, hcv, hle⟩
  · exact .inl hle
  · right
    by_cases hadd : s.blockIndex.isValid p = true ∧ s.blockIndex.hasChildren p = false
    · by_cases hcp : s.blockIndex.pprev p = some c
      · refine ⟨p, ?_, hadd.1, BitVec.le_trans hle (h.workMono p c hcp)⟩
        rw [mem_tryAddCandidate, if_pos hadd]
        exact .inl rfl
      · refine ⟨c, ?_, hcv, hle⟩
        rw [mem_tryAddCandidate, if_pos hadd]
        exact .inr ⟨hc, hcp⟩
    · refine ⟨c, ?_, hcv, hle⟩
      rw [mem_tryAddCandidate, if_neg hadd]
      exact hc

theorem Inserted.workMono (h : BranchInv getHash genesis s) {header : CBlockHeader} {s' : ChainstateManager}
    {b : CBlockIndex} (hins : Inserted getHash genesis env s header s' b)
    (hfit : ChainstateManager.WorkFits getHash s header) (p q : BlockPtr) (hq : s'.blockIndex.pprev p = some q) :
    s'.blockIndex.nChainWork q ≤ s'.blockIndex.nChainWork p := by
  obtain ⟨c, hc⟩ := BlockMap.mem_iff.mp (mem_of_pprev hq)
  rw [pprev_of_get hc] at hq
  rcases hins.get_old hc with ⟨rfl, rfl⟩ | ⟨-, hc'⟩
  · rw [hins.pprev] at hq
    cases hq
    have hlt := hfit hins.isNew hins.prev_mem
    rw [hins.extends.nChainWork _ hins.prev_mem, nChainWork_of_get hins.get, hins.nChainWork, BitVec.le_def,
      BitVec.toNat_add]
    omega
  · have hqm := (h.wf.tree.parent p c q hc' hq).1
    rw [hins.extends.nChainWork q hqm, hins.extends.nChainWork p (mem_of_get hc')]
    exact h.workMono p q (by rw [pprev_of_get hc', hq])

theorem BranchInv.insert (h : BranchInv getHash genesis s) {header : CBlockHeader} {s' : ChainstateManager}
    {b : CBlockIndex} (hins : Inserted getHash genesis env s header s' b)
    (hfit : ChainstateManager.WorkFits getHash s header) :
    BranchInv getHash genesis (s'.tryAddCandidate (getHash header)) := by
  have hmono := hins.workMono h hfit
  have hcands : s'.candidates = s.candidates := by rw [hins.frame]
  refine ⟨(hins.wf h.wf).tryAddCandidate _, ?_, hmono, by rw [← h.noOrphans]; change s'.orphanHeaders = _; rw [hins.frame]⟩
  have hvalid : s'.blockIndex.isValid (getHash header) = true := by
    rw [isValid_of_get hins.get]
    exact hins.isValid
  have hmem : ∀ x, x ∈ (s'.tryAddCandidate (getHash header)).candidates ↔
      x = getHash header ∨ (x ∈ s.candidates ∧ s'.blockIndex.pprev (getHash header) ≠ some x) := by
    intro x
    rw [mem_tryAddCandidate, if_pos ⟨hvalid, hins.isLeaf h.wf⟩, hcands]
  intro tip ht p hp
  have ht' : s.getTip = some tip := by
    rw [← ht]
    change _ = s'.getTip
    rw [hins.frame]
    rfl
  change s'.blockIndex.isValid p = true at hp
  change s'.blockIndex.nChainWork p ≤ s'.blockIndex.nChainWork tip ∨ ∃ c ∈ _, s'.blockIndex.isValid c = true ∧
    s'.blockIndex.nChainWork p ≤ s'.blockIndex.nChainWork c
  by_cases hpn : p = getHash header
  · subst hpn
    exact .inr ⟨_, (hmem _).mpr (.inl rfl), hp, BitVec.le_refl _⟩
  · rw [hins.isValid_old hpn] at hp
    have hpm := mem_of_isValid hp
    rw [hins.extends.nChainWork p hpm, hins.extends.nChainWork tip (h.wf.tip_mem ht')]
    rcases h.covered tip ht' p hp with hle | ⟨c, hc, hcv, hle⟩
    · exact .inl hle
    · right
      have hcm := mem_of_isValid hcv
      by_cases hcp : s'.blockIndex.pprev (getHash header) = some c
      · refine ⟨getHash header, (hmem _).mpr (.inl rfl), hvalid, BitVec.le_trans hle ?_⟩
        rw [← hins.extends.nChainWork c hcm]
        exact hmono _ _ hcp
      · refine ⟨c, (hmem _).mpr (.inr ⟨hc, hcp⟩), ?_, ?_⟩
        · rw [hins.isValid_old (fun e => hins.isNew (e ▸ hcm))]
          exact hcv
        · rw [hins.extends.nChainWork c hcm]
          exact hle

variable (params env) in
theorem BranchInv.acceptAndTryAdd (h : BranchInv getHash genesis s) (header : CBlockHeader) (minPow : Bool)
    (hfit : ChainstateManager.WorkFits getHash s header) :
    BranchInv getHash genesis (s.acceptAndTryAdd getHash params env header minPow) := by
  unfold ChainstateManager.acceptAndTryAdd
  rcases acceptBlockHeader_noOrphans params env h.wf h.noOrphans header minPow with
    ⟨st, he⟩ | ⟨he, -⟩ | ⟨s', b, he, hins⟩
  · rw [he]; exact h
  · rw [he]; exact h.tryAddCandidate _
  · rw [he]; exact h.insert hins hfit

/-! ## Activation and invalidation -/

theorem BranchInv.tipIsBest (h : BranchInv getHash genesis s) (hpol : params.nSuspiciousReorgDepth ≤ 0)
    (hexp : params.nNetworkExpirationInterval = 0) :
    (ChainstateManager.activateBestChain params s none).1.TipIsBest :=
  activateBestChain_tipIsBest h.wf hpol hexp h.covered

theorem BranchInv.activateBestChain (h : BranchInv getHash genesis s) (hpol : params.nSuspiciousReorgDepth ≤ 0)
    (hexp : params.nNetworkExpirationInterval = 0) :
    BranchInv getHash genesis (ChainstateManager.activateBestChain params s none).1 := by
  have hspec := activateBestChain_spec params h.wf none (fun _ h => by cases h)
  refine ⟨hspec.wf h.wf, (h.tipIsBest hpol hexp).covered, ?_, ?_⟩
  · rw [hspec.frame]; exact h.workMono
  · rw [hspec.frame]; exact h.noOrphans

theorem BranchInv.processNewBlockHeader (h : BranchInv getHash genesis s) (hpol : params.nSuspiciousReorgDepth ≤ 0)
    (hexp : params.nNetworkExpirationInterval = 0) (header : CBlockHeader) (minPow : Bool)
    (hfit : ChainstateManager.WorkFits getHash s header) :
    BranchInv getHash genesis (ChainstateManager.processNewBlockHeader params getHash env s header minPow).1 := by
  have ha := h.acceptAndTryAdd params env header minPow hfit
  unfold ChainstateManager.acceptAndTryAdd at ha
  unfold ChainstateManager.processNewBlockHeader
  split
  · rename_i heq
    rw [heq] at ha
    exact ha
  · rename_i heq
    rw [heq] at ha
    exact ha.activateBestChain hpol hexp

theorem Invalidated.isValid_iff (h : Wf getHash genesis s) {hash p : BlockPtr} {s' : ChainstateManager}
    (W' : Wf getHash genesis s') (hinv : Invalidated s hash s') :
    s'.blockIndex.isValid p = true ↔ s.blockIndex.isValid p = true ∧ ¬ Anc s.blockIndex.pprev hash p := by
  by_cases hp : p ∈ s.blockIndex
  · rw [W'.isValid_iff (hinv.core.mem_iff.mpr hp), h.isValid_iff hp, ← Bool.not_eq_true,
      hinv.isFailed_iff h hp, not_or, Bool.not_eq_true]
  · exact ⟨fun hv => absurd (hinv.core.mem_iff.mp (mem_of_isValid hv)) hp, fun hv => absurd (mem_of_isValid hv.1) hp⟩

theorem BranchInv.invalidateBlock (h : BranchInv getHash genesis s) (hash : Uint256)
    (hcond : s.activeChain.contains s.blockIndex hash = true ∨ ChainstateManager.LeavesBranch s hash) :
    BranchInv getHash genesis (s.invalidateBlock hash).1 := by
  have T := h.wf.tree.toTreeShape
  rcases invalidateBlock_cases h.wf hash with ⟨he, -⟩ | ⟨s', ev, he, -, -, W', hinv, -⟩
  · rw [he]; exact h
  · rw [he]
    have hw : s'.blockIndex.nChainWork = s.blockIndex.nChainWork := hinv.core.nChainWork_eq
    have hvalid : ∀ p, s'.blockIndex.isValid p = true ↔
        s.blockIndex.isValid p = true ∧ ¬ Anc s.blockIndex.pprev hash p :=
      fun p => hinv.isValid_iff h.wf W'
    refine ⟨W', ?_, by rw [hinv.core.pprev_eq, hw]; exact h.workMono, by rw [hinv.frame]; exact h.noOrphans⟩
    intro tip' ht' p hp
    obtain ⟨hpv, hpn⟩ := (hvalid p).mp hp
    obtain ⟨tip, -, ht, -⟩ := h.wf.tip_exists
    rw [hw]
    rcases hinv.chain tip ht with ⟨hna, hchain, hkeep⟩ | ⟨hanc, q, hq, hpath, hforks⟩
    · -- off the chain the tip stays, and the condition names a surviving candidate or leaf
      have : tip' = tip := Option.some.inj (ht'.symm.trans ((congrArg CChain.tip hchain).trans ht))
      subst this
      have hbranch : ChainstateManager.LeavesBranch s hash := by
        rcases hcond with hcon | hbranch
        · exact absurd ((h.wf.contains_iff ht).mp hcon) hna
        · exact hbranch
      rcases hbranch tip' ht p hpv hpn with hle | ⟨c, hcv, hcn, hle, hc⟩
      · exact .inl hle
      · by_cases hpt : s.blockIndex.nChainWork p ≤ s.blockIndex.nChainWork tip'
        · exact .inl hpt
        · refine .inr ⟨c, ?_, (hvalid c).mpr ⟨hcv, hcn⟩, hle⟩
          rcases hc with hc | hleaf
          · exact hkeep c hc hcn
          · refine hinv.leaves tip' ht' c ((hvalid c).mpr ⟨hcv, hcn⟩) ?_
              (by rw [hinv.core.hasChildren_eq]; exact hleaf)
            rw [hw]
            exact BitVec.le_trans (BitVec.le_of_lt (BitVec.not_le.mp hpt)) hle
    · -- on the chain every valid fork with enough work has become a candidate
      have : tip' = q := Option.some.inj (ht'.symm.trans hpath.tip_eq)
      subst this
      by_cases hpt : Anc s.blockIndex.pprev p tip
      · left
        rcases hpt.linear hanc with hph | hhp
        · rcases (anc_child hq).mp hph with rfl | hpq
          · exact absurd .refl hpn
          · exact h.anc_work hpq
        · exact absurd hhp hpn
      · by_cases hle : s.blockIndex.nChainWork p ≤ s.blockIndex.nChainWork tip'
        · exact .inl hle
        · exact .inr ⟨p, hforks p hpv hpt hpn (BitVec.le_of_lt (BitVec.not_le.mp hle)), hp, BitVec.le_refl _⟩

theorem BranchInv.step (h : BranchInv getHash genesis s) (hpol : params.nSuspiciousReorgDepth ≤ 0)
    (hexp : params.nNetworkExpirationInterval = 0) (a : ChainOp)
    (ha : ChainstateManager.KeepsBranches getHash s a) :
    BranchInv getHash genesis (ChainstateManager.step getHash params s a) := by
  obtain ⟨hop, hcond⟩ := ha
  cases a with
  | processNewBlockHeader env header minPow => exact h.processNewBlockHeader hpol hexp header minPow hcond
  | acceptAndTryAdd env header minPow => exact h.acceptAndTryAdd _ _ header minPow hcond
  | invalidateBlock hash => exact h.invalidateBlock hash hcond
  | activateBestChain given =>
    cases hop
    exact h.activateBestChain hpol hexp
  | acceptBlockHeader _ _ _ => exact hop.elim
  | tryAddBlockIndexCandidate _ => exact hop.elim
  | addOrphanHeader _ _ _ => exact hop.elim
  | evictOrphanHeaders _ => exact hop.elim
  | setup _ => exact hop.elim
  | load _ _ => exact hop.elim
  | restart _ => exact hop.elim

theorem genesisState_branchInv (getHash : CBlockHeader → Uint256) (skipPow : Bool) (header : CBlockHeader)
    (h0 : header.hashPrevBlock = 0) :
    BranchInv getHash (getHash header) (genesisState getHash skipPow header) := by
  have W := genesisState_wf getHash header skipPow h0
  refine ⟨W, (genesisState_tipIsBest getHash skipPow header).covered, fun p q hq => ?_, rfl⟩
  have hp := mem_of_pprev hq
  rw [show (genesisState getHash skipPow header).blockIndex = (∅ : BlockMap).insert _ _ from rfl, mem_single] at hp
  subst hp
  rw [W.tree.genesis_root] at hq
  cases hq

/-! ## Runs -/

/-- In every run whose steps keep the branches, activation always ends at a best block. -/
theorem activation_recovers_best (hpol : params.nSuspiciousReorgDepth ≤ 0)
    (hexp : params.nNetworkExpirationInterval = 0) {skipPow : Bool} {header : CBlockHeader}
    {s₀ : ChainstateManager} (h₀ : (ChainstateManager.fresh skipPow).setup getHash header = (s₀, true))
    (hrun : Run.Reaches (ChainstateManager.step getHash params) (ChainstateManager.KeepsBranches getHash) s₀ s) :
    (ChainstateManager.step getHash params s (.activateBestChain none)).TipIsBest := by
  obtain ⟨h0, -, rfl⟩ := setup_fresh_true getHash header skipPow h₀
  exact (hrun.invariant (P := BranchInv getHash (getHash header))
    (genesisState_branchInv getHash skipPow header h0) (fun s a h ha => h.step hpol hexp a ha)).tipIsBest hpol hexp

end

theorem activation_recovers_best_nonce :
    (ChainstateManager.step nonceHash nonceParams
      (ChainstateManager.step nonceHash nonceParams
        (ChainstateManager.step nonceHash nonceParams nonceStart (.processNewBlockHeader {} (nonceHeader 1 2) true))
        (.invalidateBlock 2))
      (.activateBestChain none)).TipIsBest :=
  activation_recovers_best (by decide) rfl nonceStart_setup
    (.next (.next .start ⟨trivial, fun _ _ => by decide +kernel⟩) ⟨trivial, .inl (by decide +kernel)⟩)

/-- Header 2 below genesis and header 3 below it are accepted but not activated. Invalidating
header 3 leaves header 2 valid, with more work than the tip and without a candidate. -/
theorem invalidation_loses_parent :
    ¬ ∀ (skipPow : Bool) (header : CBlockHeader) (s₀ s : ChainstateManager),
      (ChainstateManager.fresh skipPow).setup nonceHash header = (s₀, true) →
      Run.Reaches (ChainstateManager.step nonceHash nonceParams) (fun _ a => ChainstateManager.IsBranchOp a) s₀ s →
      (ChainstateManager.step nonceHash nonceParams s (.activateBestChain none)).TipIsBest := by
  intro h
  let second := ChainstateManager.step nonceHash nonceParams nonceStart (.acceptAndTryAdd {} (nonceHeader 1 2) true)
  let third := ChainstateManager.step nonceHash nonceParams second (.acceptAndTryAdd {} (nonceHeader 2 3) true)
  let cut := ChainstateManager.step nonceHash nonceParams third (.invalidateBlock 3)
  have hrun : Run.Reaches (ChainstateManager.step nonceHash nonceParams)
      (fun _ a => ChainstateManager.IsBranchOp a) nonceStart cut :=
    .next (.next (.next .start trivial) trivial) trivial
  obtain ⟨tip, htip, hbest⟩ := h false (nonceHeader 0 1) nonceStart cut nonceStart_setup hrun
  have htip' : (ChainstateManager.step nonceHash nonceParams cut (.activateBestChain none)).getTip = some 1 := by
    decide +kernel
  rw [htip'] at htip
  cases htip
  exact absurd (hbest 2 (by decide +kernel)) (by decide +kernel)

end UnicityPow
