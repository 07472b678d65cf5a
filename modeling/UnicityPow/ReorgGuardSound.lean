import UnicityPow.RestartSound

/-!
# The reorganisation guard over restarts

`ActivateBestChain` never cuts the policy depth off the active chain. A restart does when
the leaf it selects forks off that deep.
-/

namespace UnicityPow

open Forest BlockMap ChainstateManager

namespace ChainstateManager

/-- The chain of `s'` forks off the chain of `s` less than `d` blocks below its tip. -/
def ForksAbove (d : Int) (s s' : ChainstateManager) : Prop :=
  ∀ old new f, s.getTip = some old → s'.getTip = some new → IsFork s'.blockIndex.pprev old new f →
    reorgDepth s'.blockIndex old f < d

/-- The operations under the guard: everything but `InvalidateBlock`, which disconnects blocks
without it, and the loading of other files. -/
def IsGuardedOp : ChainOp → Prop
  | .setup _ => False
  | .invalidateBlock _ => False
  | .load _ _ => False
  | _ => True

/-- A restart that loads its file selects a leaf that forks off less than the policy depth
below the tip, if any. -/
def RestartsAbove (params : ConsensusParams) (s : ChainstateManager) : ChainOp → Prop
  | .restart env => s.Reloadable → ∀ old best f, s.getTip = some old → IsSelectedLeaf env s.blockIndex best →
      IsFork s.blockIndex.pprev old best f → reorgDepth s.blockIndex old f < params.nSuspiciousReorgDepth
  | _ => True

end ChainstateManager

section
variable {getHash : CBlockHeader → Uint256} {params : ConsensusParams} {env : Env} {genesis : BlockPtr}
  {s s' : ChainstateManager} {d : Int}

theorem reorgDepth_links {m m' : BlockMap} (h : SameLinks m m') (old f : BlockPtr) :
    reorgDepth m' old f = reorgDepth m old f := by
  unfold reorgDepth
  rw [h.nHeight_eq]

theorem ChainstateManager.ForksAbove.of_tip (hd : 0 < d) (W' : Wf getHash genesis s') (h : s'.getTip = s.getTip) : ForksAbove d s s' := by
  intro old new f hold hnew hf
  rw [h, hold] at hnew
  cases hnew
  rw [hf.unique W'.tree.toTreeShape.ranked (.of_anc .refl)]
  simpa [reorgDepth] using hd

/-! ## Operations at run time -/

variable (params env) in
theorem acceptBlockHeader_activeChain (W : Wf getHash genesis s) (header : CBlockHeader) (minPow : Bool) :
    (s.acceptBlockHeader getHash params env header minPow).1.activeChain = s.activeChain := by
  refine (acceptBlockHeader_induct (P := fun t => Wf getHash genesis t ∧ t.activeChain = s.activeChain)
    (fun t o c h => ⟨h.1.withPool o c, h.2⟩) (fun t header minPow h => ?_) ⟨W, rfl⟩ header minPow).2
  refine ⟨h.1.acceptOne header minPow, ?_⟩
  rcases acceptOne_cases params env h.1 header minPow with
    ⟨st, he⟩ | ⟨he, -⟩ | ⟨t', b, he, -, -, hins⟩
  · rw [he]; exact h.2
  · rw [he]; exact h.2
  · rw [he, hins.frame]; exact h.2

theorem activateBestChain_forksAbove (hd : 0 < params.nSuspiciousReorgDepth) (W : Wf getHash genesis s)
    (given : Option BlockPtr) (hgiven : ∀ p, given = some p → p ∈ s.blockIndex) :
    ForksAbove params.nSuspiciousReorgDepth s (activateBestChain params s given).1 := by
  have hact := activateBestChain_spec params W given hgiven
  have W' := hact.wf W
  rcases hact.chain with hc | ⟨old, p, f, hold, hp, -, -, hf, hsus, -, hpath⟩
  · exact .of_tip hd W' (congrArg CChain.tip hc)
  · intro old' new g hold' hnew hg
    rw [hold] at hold'
    cases hold'
    have : new = p := Option.some.inj (hnew.symm.trans hpath.tip_eq)
    subst this
    rw [activateBestChain_index _ W given hgiven] at hg ⊢
    rw [hg.unique W.tree.toTreeShape.ranked hf]
    simpa [suspiciousReorg, hd] using hsus

theorem ChainstateManager.ForksAbove.congr_left {t : ChainstateManager} (h : ForksAbove d t s') (ht : t.getTip = s.getTip) :
    ForksAbove d s s' := fun old new f hold hnew hf => h old new f (ht.trans hold) hnew hf

theorem processNewBlockHeader_forksAbove (hd : 0 < params.nSuspiciousReorgDepth) (W : Wf getHash genesis s)
    (header : CBlockHeader) (minPow : Bool) :
    ForksAbove params.nSuspiciousReorgDepth s (processNewBlockHeader params getHash env s header minPow).1 := by
  have hchain := acceptBlockHeader_activeChain params env W header minPow
  have W1 := W.acceptBlockHeader params env header minPow
  unfold processNewBlockHeader
  rcases he : s.acceptBlockHeader getHash params env header minPow with ⟨s1, _ | p⟩ <;> rw [he] at hchain W1
  · exact .of_tip hd W1 (congrArg CChain.tip hchain)
  · exact (activateBestChain_forksAbove hd (W1.tryAddCandidate p) none (fun _ h => by cases h)).congr_left
      (congrArg CChain.tip hchain)

theorem acceptAndTryAdd_activeChain (W : Wf getHash genesis s) (header : CBlockHeader) (minPow : Bool) :
    (s.acceptAndTryAdd getHash params env header minPow).activeChain = s.activeChain := by
  have hchain := acceptBlockHeader_activeChain params env W header minPow
  unfold acceptAndTryAdd
  rcases he : s.acceptBlockHeader getHash params env header minPow with ⟨s1, _ | p⟩ <;> rw [he] at hchain <;>
    exact hchain

/-! ## Restarts -/

theorem restart_forksAbove (hd : 0 < params.nSuspiciousReorgDepth) (W : Wf getHash params.hashGenesisBlock s) :
    ForksAbove params.nSuspiciousReorgDepth s (s.ifSucceeds (s.restart getHash params env)) ↔
      RestartsAbove params s (.restart env) := by
  by_cases hload : s.Reloadable
  · obtain ⟨s', h⟩ := restart_succeeds env W hload
    have R := restart_restarted W h
    rw [h, show s.ifSucceeds (s', true) = s' from rfl]
    constructor
    · intro hfork _ old best f hold hbest hf
      rcases R.tip with ⟨hnone, -⟩ | ⟨best', hbest', ht⟩
      · exact absurd hbest.1 (hnone best)
      · rw [hbest.unique hbest'] at hf
        have := hfork old best' f hold ht (R.links.pprev_eq ▸ hf)
        rwa [reorgDepth_links R.links] at this
    · intro habove
      rcases R.tip with ⟨-, ht⟩ | ⟨best, hbest, ht⟩
      · exact .of_tip hd R.wf ht
      · intro old new f hold hnew hf
        rw [ht] at hnew
        cases hnew
        rw [reorgDepth_links R.links]
        exact habove hload old best f hold hbest (R.links.pprev_eq ▸ hf)
  · have hstay : s.ifSucceeds (s.restart getHash params env) = s := by
      rcases h : s.restart getHash params env with ⟨s', ok⟩
      cases ok with
      | false => rfl
      | true => exact absurd (restart_restarted W h).reloadable hload
    rw [hstay]
    exact iff_of_true (.of_tip hd W rfl) (fun h => absurd h hload)

theorem step_forksAbove (hd : 0 < params.nSuspiciousReorgDepth) (W : Wf getHash params.hashGenesisBlock s)
    (a : ChainOp) (ha : IsGuardedOp a) :
    ForksAbove params.nSuspiciousReorgDepth s (step getHash params s a) ↔ RestartsAbove params s a := by
  have htip : ∀ {t}, Wf getHash params.hashGenesisBlock t → t.activeChain = s.activeChain →
      (ForksAbove params.nSuspiciousReorgDepth s t ↔ True) := fun W' h =>
    iff_of_true (.of_tip hd W' (congrArg CChain.tip h)) trivial
  cases a with
  | acceptBlockHeader env header minPow =>
    exact htip (W.acceptBlockHeader _ _ header minPow) (acceptBlockHeader_activeChain _ _ W header minPow)
  | tryAddBlockIndexCandidate p =>
    rw [step_tryAddBlockIndexCandidate]
    split
    · exact htip (W.tryAddCandidate p) rfl
    · exact htip W rfl
  | acceptAndTryAdd env header minPow =>
    exact htip (W.acceptAndTryAdd header minPow) (acceptAndTryAdd_activeChain W header minPow)
  | processNewBlockHeader env header minPow =>
    exact iff_of_true (processNewBlockHeader_forksAbove hd W header minPow) trivial
  | activateBestChain given =>
    refine iff_of_true ?_ trivial
    cases given with
    | none => exact activateBestChain_forksAbove hd W none (fun _ h => by cases h)
    | some p =>
      rw [step_activateBestChain_some]
      split
      · rename_i hp
        exact activateBestChain_forksAbove hd W (some p) (fun q hq => by cases hq; exact hp)
      · exact .of_tip hd W rfl
  | addOrphanHeader env header peerId =>
    obtain ⟨o, c, he⟩ := addOrphanHeader_pool getHash params env s header peerId
    rw [step_addOrphanHeader, he]
    exact htip (W.withPool o c) rfl
  | evictOrphanHeaders env =>
    obtain ⟨o, c, he⟩ := evictOrphanHeaders_pool params env s
    rw [step_evictOrphanHeaders, he]
    exact htip (W.withPool o c) rfl
  | restart env => exact restart_forksAbove hd W
  | setup _ => exact ha.elim
  | invalidateBlock _ => exact ha.elim
  | load _ _ => exact ha.elim

/-- In every run under a reorganisation policy, an operation keeps to its depth exactly when it is
not a restart that selects a leaf forking off that deep. -/
theorem reorg_guard_holds (hd : 0 < params.nSuspiciousReorgDepth) {skipPow : Bool} {header : CBlockHeader}
    {s₀ : ChainstateManager} (hgen : getHash header = params.hashGenesisBlock)
    (h₀ : (fresh skipPow).setup getHash header = (s₀, true))
    (hrun : Run.Reaches (step getHash params) (fun _ a => IsGuardedOp a) s₀ s) (a : ChainOp) (ha : IsGuardedOp a) :
    ForksAbove params.nSuspiciousReorgDepth s (step getHash params s a) ↔ RestartsAbove params s a :=
  step_forksAbove hd (reaches_wf hgen h₀ hrun) a ha

end

/-! ## A refused fork -/

/-- No reorganisation at all is allowed. -/
def guardedParams : ConsensusParams := { nonceParams with nSuspiciousReorgDepth := 1 }

/-- The tip is 2; the branch of 3 and 4 has more work, and activating it was refused. -/
def refusedFork : ChainstateManager :=
  step nonceHash guardedParams (step nonceHash guardedParams (step nonceHash guardedParams nonceStart
    (.processNewBlockHeader {} (nonceHeader 1 2) true)) (.processNewBlockHeader {} (nonceHeader 1 3) true))
    (.processNewBlockHeader {} (nonceHeader 3 4) true)

theorem refusedFork_reaches :
    Run.Reaches (step nonceHash guardedParams) (fun _ a => IsGuardedOp a) nonceStart refusedFork :=
  .next (.next (.next .start trivial) trivial) trivial

theorem reorg_guard_holds_nonce :
    ForksAbove 1 refusedFork (step nonceHash guardedParams refusedFork (.activateBestChain (some 4))) ↔
      RestartsAbove guardedParams refusedFork (.activateBestChain (some 4)) :=
  reorg_guard_holds (by decide) (show nonceHash (nonceHeader 0 1) = guardedParams.hashGenesisBlock from rfl)
    nonceStart_setup refusedFork_reaches _ trivial

/-- The restart activates the branch that was refused before it. -/
theorem restart_skips_guard :
    ¬ ∀ (s₀ s : ChainstateManager) (a : ChainOp), (fresh false).setup nonceHash (nonceHeader 0 1) = (s₀, true) →
      Run.Reaches (step nonceHash guardedParams) (fun _ a => IsGuardedOp a) s₀ s → IsGuardedOp a →
        ForksAbove guardedParams.nSuspiciousReorgDepth s (step nonceHash guardedParams s a) := by
  intro h
  have hfork := h nonceStart refusedFork (.restart {}) nonceStart_setup refusedFork_reaches trivial
  have W : Wf nonceHash guardedParams.hashGenesisBlock refusedFork :=
    reaches_wf (show nonceHash (nonceHeader 0 1) = _ from rfl) nonceStart_setup refusedFork_reaches
  have habove := (restart_forksAbove (by decide) W).mp hfork
  have ht : refusedFork.getTip = some 2 := by decide +kernel
  have hf : refusedFork.blockIndex.isFailed 2 = false := by decide +kernel
  have hlen : refusedFork.activeChain.length = 2 := by decide +kernel
  have hkeys : refusedFork.blockIndex.keys = [1, 2, 3, 4] := by decide +kernel
  have hp1 : refusedFork.blockIndex.pprev 1 = none := by decide +kernel
  have hp2 : refusedFork.blockIndex.pprev 2 = some 1 := by decide +kernel
  have hp3 : refusedFork.blockIndex.pprev 3 = some 1 := by decide +kernel
  have hp4 : refusedFork.blockIndex.pprev 4 = some 3 := by decide +kernel
  have hh1 : refusedFork.blockIndex.nHeight 1 = 0 := by decide +kernel
  have hh2 : refusedFork.blockIndex.nHeight 2 = 1 := by decide +kernel
  have hh3 : refusedFork.blockIndex.nHeight 3 = 1 := by decide +kernel
  have hh4 : refusedFork.blockIndex.nHeight 4 = 2 := by decide +kernel
  have hc1 : refusedFork.blockIndex.hasChildren 1 = true := by decide +kernel
  have hc3 : refusedFork.blockIndex.hasChildren 3 = true := by decide +kernel
  have hleaf : IsValidLeaf refusedFork.blockIndex 4 := ⟨by decide +kernel, by decide +kernel⟩
  have hbefore : workBefore refusedFork.blockIndex 4 2 = true := by decide +kernel
  have hdepth : reorgDepth refusedFork.blockIndex 2 1 = 1 := by decide +kernel
  have hmem : ∀ p ∈ refusedFork.blockIndex, p = 1 ∨ p = 2 ∨ p = 3 ∨ p = 4 := fun p hp => by
    have := Std.ExtTreeMap.mem_keys.mpr hp
    rw [hkeys] at this
    simpa using this
  have hreload : refusedFork.Reloadable := by
    refine ⟨fun p => ?_, fun t h => ?_, by omega⟩
    · by_cases hp : p ∈ refusedFork.blockIndex
      · rcases hmem p hp with rfl | rfl | rfl | rfl <;> omega
      · simp [nHeight, get_of_notMem hp]
    · rw [ht] at h
      cases h
      exact hf
  have hselect : IsSelectedLeaf {} refusedFork.blockIndex 4 := by
    refine ⟨(W.reloadedLeaf_iff (sameOutcomes_default _) 4).mpr hleaf, fun q hother => ?_⟩
    obtain ⟨b, hb, hq, -⟩ := hother
    rcases hmem q (mem_of_get hb) with rfl | rfl | rfl | rfl
    · rw [hc1] at hq; cases hq
    · exact .inr hbefore
    · rw [hc3] at hq; cases hq
    · exact .inl rfl
  have hanc : IsFork refusedFork.blockIndex.pprev 2 4 1 := by
    refine ⟨.parent hp2, .step hp4 (.parent hp3), fun x h2 h4 => ?_⟩
    rw [anc_child hp2] at h2
    rw [anc_child hp4, anc_child hp3] at h4
    rcases h2 with rfl | h2
    · rcases h4 with h4 | h4 | h4
      · exact absurd h4 (by decide)
      · exact absurd h4 (by decide)
      · rw [anc_root hp1] at h4
        exact absurd h4 (by decide)
    · exact h2
  have := habove hreload 2 4 1 ht hselect hanc
  rw [hdepth] at this
  exact absurd this (by decide)

end UnicityPow
