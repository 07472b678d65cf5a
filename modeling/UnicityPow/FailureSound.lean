import UnicityPow.BestChainSound
import UnicityPow.InvalidateSound

/-!
# Failure is closed under descent

At run time a block fails only together with all its descendants, and the tip is moved to
unfailed blocks only, as long as `ActivateBestChain` is not handed a failed block.
-/

namespace UnicityPow

open Forest BlockMap

namespace ChainstateManager

/-- Descendants of failed blocks are failed, the active chain is not, and `FindMostWorkChain`
does not return a failed block or a descendant of one. -/
structure FailureClosed (s : ChainstateManager) : Prop where
  descendants : ∀ a p, Anc s.blockIndex.pprev a p → s.blockIndex.isFailed a = true → s.blockIndex.isFailed p = true
  activeChain : ∀ p, some p ∈ s.activeChain → s.blockIndex.isFailed p = false
  selected : ∀ p, (s.toChainSelector.findMostWorkChain s.blockIndex).2 = some p →
    ∀ a, Anc s.blockIndex.pprev a p → s.blockIndex.isFailed a = false

/-- A block handed to `ActivateBestChain` is not failed. -/
def GivesUnfailed (s : ChainstateManager) (a : ChainOp) : Prop :=
  IsRuntimeOp a ∧ ∀ p, a = .activateBestChain (some p) → s.blockIndex.isFailed p = false

end ChainstateManager

/-- The invariant behind it: failure passes to children, and the tip is not failed. -/
structure FailureInv (getHash : CBlockHeader → Uint256) (genesis : BlockPtr) (s : ChainstateManager) : Prop where
  wf : Wf getHash genesis s
  inherited : Inherited s.blockIndex.pprev (fun p => s.blockIndex.isFailed p = true)
  tip : ∀ t, s.getTip = some t → s.blockIndex.isFailed t = false

section
variable {getHash : CBlockHeader → Uint256} {params : ConsensusParams} {env : Env} {genesis : BlockPtr}
  {s : ChainstateManager}

theorem FailureInv.closed (h : FailureInv getHash genesis s) : s.FailureClosed where
  descendants a p ha hf := Anc.inherited (P := fun p => s.blockIndex.isFailed p = true) h.inherited ha hf
  activeChain p hp := by
    obtain ⟨tip, -, ht, hpath⟩ := h.wf.tip_exists
    have hanc := (hpath.mem_iff h.wf.tree.toTreeShape).mp hp
    simpa using hanc.not_inherited h.inherited (by rw [h.tip tip ht]; decide)
  selected p hp a ha := by
    obtain ⟨l, he, -, -, hv, -⟩ := resolveCandidate_spec s
    have hv := isFailed_of_isValid (hv p ((congrArg Prod.snd he).symm.trans hp))
    simpa using ha.not_inherited h.inherited (by rw [hv]; decide)

/-! ## The steps -/

theorem FailureInv.withPool (h : FailureInv getHash genesis s)
    (o : Std.ExtTreeMap Uint256 OrphanHeader compare) (c : Std.ExtTreeMap Int Int compare) :
    FailureInv getHash genesis (s.withPool o c) :=
  ⟨h.wf.withPool o c, h.inherited, h.tip⟩

theorem FailureInv.acceptOne (h : FailureInv getHash genesis s) (header : CBlockHeader) (minPow : Bool) :
    FailureInv getHash genesis (s.acceptOne getHash params env header minPow).1 := by
  rcases acceptOne_cases params env h.wf header minPow with
    ⟨st, he⟩ | ⟨he, -⟩ | ⟨s', b, he, -, -, hins⟩
  · rw [he]; exact h
  · rw [he]; exact h
  · rw [he]
    refine ⟨hins.wf h.wf, ?_, ?_⟩
    · intro p q hq hf
      simp only [hins.isFailed_old] at hf ⊢
      obtain ⟨c, hc⟩ := mem_iff.mp (mem_of_pprev hq)
      rw [pprev_of_get hc] at hq
      rcases hins.get_old hc with ⟨rfl, rfl⟩ | ⟨-, hc⟩
      · -- a new header has an unfailed parent
        rw [hins.pprev] at hq
        rw [← Option.some.inj hq, hins.prev_unfailed] at hf
        cases hf
      · exact h.inherited p q (by rw [pprev_of_get hc, hq]) hf
    · intro t ht
      rw [hins.isFailed_old]
      refine h.tip t ?_
      rw [← ht, hins.frame]
      rfl

variable (params env) in
theorem FailureInv.acceptBlockHeader (h : FailureInv getHash genesis s) (header : CBlockHeader) (minPow : Bool) :
    FailureInv getHash genesis (s.acceptBlockHeader getHash params env header minPow).1 :=
  ChainstateManager.acceptBlockHeader_induct (fun _ o c h => h.withPool o c)
    (fun _ header minPow h => h.acceptOne header minPow) h header minPow

theorem FailureInv.tryAddCandidate (h : FailureInv getHash genesis s) (p : BlockPtr) :
    FailureInv getHash genesis (s.tryAddCandidate p) :=
  ⟨h.wf.tryAddCandidate p, h.inherited, h.tip⟩

theorem FailureInv.acceptAndTryAdd (h : FailureInv getHash genesis s) (header : CBlockHeader) (minPow : Bool) :
    FailureInv getHash genesis (s.acceptAndTryAdd getHash params env header minPow) := by
  have ha := h.acceptBlockHeader params env header minPow
  unfold ChainstateManager.acceptAndTryAdd
  split
  · rename_i heq
    rw [heq] at ha
    exact ha
  · rename_i heq
    rw [heq] at ha
    exact ha.tryAddCandidate _

theorem FailureInv.activateBestChain (h : FailureInv getHash genesis s) (given : Option BlockPtr)
    (hgiven : ∀ p, given = some p → p ∈ s.blockIndex ∧ s.blockIndex.isFailed p = false) :
    FailureInv getHash genesis (ChainstateManager.activateBestChain params s given).1 := by
  have hspec := activateBestChain_spec params h.wf given (fun p hp => (hgiven p hp).1)
  refine ⟨hspec.wf h.wf, by rw [hspec.frame]; exact h.inherited, ?_⟩
  intro t ht
  rw [show ∀ p, (ChainstateManager.activateBestChain params s given).1.blockIndex.isFailed p =
    s.blockIndex.isFailed p by rw [hspec.frame]; exact fun _ => rfl]
  rcases hspec.chain with hc | ⟨_, p, _, -, -, hp, -, -, -, -, hpath⟩
  · exact h.tip t (by rw [← ht]; exact congrArg CChain.tip hc.symm)
  · have : t = p := Option.some.inj (ht.symm.trans hpath.tip_eq)
    subst this
    rcases hp with hp | ⟨-, hv⟩
    · exact (hgiven t hp).2
    · exact isFailed_of_isValid hv

theorem FailureInv.processNewBlockHeader (h : FailureInv getHash genesis s) (header : CBlockHeader)
    (minPow : Bool) :
    FailureInv getHash genesis (ChainstateManager.processNewBlockHeader params getHash env s header minPow).1 := by
  have ha := h.acceptBlockHeader params env header minPow
  unfold ChainstateManager.processNewBlockHeader
  split
  · rename_i heq
    rw [heq] at ha
    exact ha
  · rename_i heq
    rw [heq] at ha
    exact (ha.tryAddCandidate _).activateBestChain none (fun _ h => by cases h)

theorem FailureInv.invalidateBlock (h : FailureInv getHash genesis s) (hash : Uint256) :
    FailureInv getHash genesis (s.invalidateBlock hash).1 := by
  have T := h.wf.tree.toTreeShape
  rcases invalidateBlock_cases h.wf hash with ⟨he, -⟩ | ⟨s', ev, he, -, -, W', hinv, -⟩
  · rw [he]; exact h
  · rw [he]
    have hmem : ∀ p, s'.blockIndex.isFailed p = true → p ∈ s.blockIndex :=
      fun p hp => hinv.core.mem_iff.mp (mem_of_isFailed hp)
    refine ⟨W', ?_, ?_⟩
    · intro p q hq hf
      rw [hinv.core.pprev_eq] at hq
      rw [hinv.isFailed_iff h.wf (mem_of_pprev hq)]
      rcases (hinv.isFailed_iff h.wf (hmem q hf)).mp hf with hf | hanc
      · exact .inl (h.inherited p q hq hf)
      · exact .inr (.step hq hanc)
    · intro t ht
      have htm := hinv.core.mem_iff.mp (W'.tip_mem ht)
      rw [← Bool.not_eq_true, hinv.isFailed_iff h.wf htm]
      obtain ⟨tip, -, htip, -⟩ := h.wf.tip_exists
      have htipf := h.tip tip htip
      rcases hinv.chain tip htip with ⟨hna, hc, -⟩ | ⟨hanc, q, hq, hpath, -⟩
      · have : t = tip := Option.some.inj (ht.symm.trans ((congrArg CChain.tip hc).trans htip))
        subst this
        rintro (hf | hf)
        · rw [htipf] at hf; cases hf
        · exact hna hf
      · have : t = q := Option.some.inj (ht.symm.trans hpath.tip_eq)
        subst this
        rintro (hf | hf)
        · have := ((Anc.parent hq).trans hanc).inherited h.inherited hf
          rw [htipf] at this
          cases this
        · have := hf.rank_le T.ranked
          have := T.ranked hash t hq
          omega

theorem FailureInv.step (h : FailureInv getHash genesis s) (a : ChainOp)
    (ha : ChainstateManager.GivesUnfailed s a) :
    FailureInv getHash genesis (ChainstateManager.step getHash params s a) := by
  obtain ⟨hop, hgiven⟩ := ha
  cases a with
  | acceptBlockHeader env header minPow => exact h.acceptBlockHeader _ _ header minPow
  | tryAddBlockIndexCandidate p =>
    rw [ChainstateManager.step_tryAddBlockIndexCandidate]
    split
    · exact h.tryAddCandidate p
    · exact h
  | acceptAndTryAdd env header minPow => exact h.acceptAndTryAdd header minPow
  | processNewBlockHeader env header minPow => exact h.processNewBlockHeader header minPow
  | activateBestChain given =>
    cases given with
    | none => exact h.activateBestChain none (fun _ h => by cases h)
    | some p =>
      rw [ChainstateManager.step_activateBestChain_some]
      split
      · rename_i hp
        exact h.activateBestChain (some p) (fun q hq => by cases hq; exact ⟨hp, hgiven p rfl⟩)
      · exact h
  | invalidateBlock hash => exact h.invalidateBlock hash
  | addOrphanHeader env header peerId =>
    rw [ChainstateManager.step_addOrphanHeader]
    obtain ⟨o, c, he⟩ := ChainstateManager.addOrphanHeader_pool getHash params env s header peerId
    rw [he]
    exact h.withPool o c
  | evictOrphanHeaders env =>
    rw [ChainstateManager.step_evictOrphanHeaders]
    obtain ⟨o, c, he⟩ := ChainstateManager.evictOrphanHeaders_pool params env s
    rw [he]
    exact h.withPool o c
  | setup _ => exact hop.elim
  | load _ _ => exact hop.elim
  | restart _ => exact hop.elim

theorem genesisState_failureInv (getHash : CBlockHeader → Uint256) (skipPow : Bool) (header : CBlockHeader)
    (h0 : header.hashPrevBlock = 0) :
    FailureInv getHash (getHash header) (genesisState getHash skipPow header) := by
  have W := genesisState_wf getHash header skipPow h0
  have hunfailed : ∀ p, (genesisState getHash skipPow header).blockIndex.isFailed p = false := by
    intro p
    unfold BlockMap.isFailed
    rw [show (genesisState getHash skipPow header).blockIndex = (∅ : BlockMap).insert _ _ from rfl,
      getElem?_single]
    split <;> rfl
  refine ⟨W, fun p q _ hf => ?_, fun t _ => hunfailed t⟩
  exact absurd hf (by simp [hunfailed q])

/-! ## Runs -/

/-- In every run between start and restart that hands no failed block to `ActivateBestChain`,
failure stays closed under descent. -/
theorem failure_stays_closed {skipPow : Bool} {header : CBlockHeader} {s₀ : ChainstateManager}
    (h₀ : (ChainstateManager.fresh skipPow).setup getHash header = (s₀, true))
    (hrun : Run.Reaches (ChainstateManager.step getHash params) ChainstateManager.GivesUnfailed s₀ s) :
    s.FailureClosed := by
  obtain ⟨h0, -, rfl⟩ := setup_fresh_true getHash header skipPow h₀
  exact (hrun.invariant (P := FailureInv getHash (getHash header))
    (genesisState_failureInv getHash skipPow header h0) (fun s a h ha => h.step a ha)).closed

end

theorem failure_stays_closed_nonce :
    (ChainstateManager.step nonceHash nonceParams
      (ChainstateManager.step nonceHash nonceParams nonceStart (.processNewBlockHeader {} (nonceHeader 1 2) true))
      (.invalidateBlock 2)).FailureClosed :=
  failure_stays_closed nonceStart_setup (.next (.next .start ⟨trivial, fun _ h => by cases h⟩)
    ⟨trivial, fun _ h => by cases h⟩)

/-- Handed a failed block with more work than the tip, `ActivateBestChain` makes it the tip. -/
theorem failed_block_activated :
    ¬ ∀ (skipPow : Bool) (header : CBlockHeader) (s₀ s : ChainstateManager),
      (ChainstateManager.fresh skipPow).setup nonceHash header = (s₀, true) →
      Run.Reaches (ChainstateManager.step nonceHash nonceParams) (fun _ a => ChainstateManager.IsRuntimeOp a) s₀ s →
      s.FailureClosed := by
  intro h
  let accepted := ChainstateManager.step nonceHash nonceParams nonceStart
    (.acceptBlockHeader {} (nonceHeader 1 2) true)
  let failed := ChainstateManager.step nonceHash nonceParams accepted (.invalidateBlock 2)
  let activated := ChainstateManager.step nonceHash nonceParams failed (.activateBestChain (some 2))
  have hrun : Run.Reaches (ChainstateManager.step nonceHash nonceParams)
      (fun _ a => ChainstateManager.IsRuntimeOp a) nonceStart activated :=
    .next (.next (.next .start trivial) trivial) trivial
  have hclosed := h false (nonceHeader 0 1) nonceStart activated nonceStart_setup hrun
  have := hclosed.activeChain 2 (by decide +kernel)
  exact absurd this (by decide +kernel)

end UnicityPow
