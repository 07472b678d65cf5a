import UnicityPow.ReorgGuardSound

/-!
# The expiration height

`ActivateBestChain` connects no block past the expiration height. A restart selects the best
leaf of the file whatever its height.
-/

namespace UnicityPow

open Forest BlockMap

namespace ChainstateManager

/-- The tip does not lie past the expiration height. -/
def WithinExpiration (params : ConsensusParams) (s : ChainstateManager) : Prop :=
  ∀ t, s.getTip = some t → s.blockIndex.nHeight t ≤ params.nNetworkExpirationInterval

/-- A restart that loads its file selects a leaf that does not lie past the expiration, if any. -/
def RestartsWithin (params : ConsensusParams) (s : ChainstateManager) : ChainOp → Prop
  | .restart env => s.Reloadable → ∀ best, IsSelectedLeaf env s.blockIndex best →
      s.blockIndex.nHeight best ≤ params.nNetworkExpirationInterval
  | _ => True

end ChainstateManager

open ChainstateManager

section
variable {getHash : CBlockHeader → Uint256} {params : ConsensusParams} {env : Env} {genesis : BlockPtr}
  {s s' : ChainstateManager}

/-! ## Operations at run time -/

theorem ChainstateManager.WithinExpiration.keep (h : WithinExpiration params s) (W : Wf getHash genesis s)
    (hE : Extends s.blockIndex s'.blockIndex) (hc : s'.activeChain = s.activeChain) :
    WithinExpiration params s' := by
  intro t ht
  rw [show s'.getTip = s.getTip from congrArg CChain.tip hc] at ht
  rw [hE.nHeight t (W.tip_mem ht)]
  exact h t ht

variable (params env) in
theorem acceptBlockHeader_extends (W : Wf getHash genesis s) (header : CBlockHeader) (minPow : Bool) :
    Extends s.blockIndex (s.acceptBlockHeader getHash params env header minPow).1.blockIndex := by
  refine (acceptBlockHeader_induct (P := fun t => Wf getHash genesis t ∧ Extends s.blockIndex t.blockIndex)
    (fun t o c h => ⟨h.1.withPool o c, h.2⟩) (fun t header minPow h => ?_) ⟨W, .refl _⟩ header minPow).2
  refine ⟨h.1.acceptOne header minPow, ?_⟩
  rcases acceptOne_cases params env h.1 header minPow with
    ⟨st, he⟩ | ⟨he, -⟩ | ⟨t', b, he, -, -, hins⟩
  · rw [he]; exact h.2
  · rw [he]; exact h.2
  · rw [he]; exact h.2.trans hins.extends

theorem ChainstateManager.WithinExpiration.activateBestChain (hE : 0 < params.nNetworkExpirationInterval)
    (h : WithinExpiration params s) (W : Wf getHash genesis s) (given : Option BlockPtr)
    (hgiven : ∀ p, given = some p → p ∈ s.blockIndex) :
    WithinExpiration params (ChainstateManager.activateBestChain params s given).1 := by
  have hindex := activateBestChain_index params W given hgiven
  rcases (activateBestChain_spec params W given hgiven).chain with
    hc | ⟨-, p, -, -, -, -, -, -, -, hexp, hpath⟩
  · exact h.keep W (by rw [hindex]; exact .refl _) hc
  · intro t ht
    rw [hindex, ← Option.some.inj (hpath.tip_eq.symm.trans ht)]
    simpa [pastExpiration, hE] using hexp

theorem ChainstateManager.WithinExpiration.processNewBlockHeader (hE : 0 < params.nNetworkExpirationInterval)
    (h : WithinExpiration params s) (W : Wf getHash genesis s) (header : CBlockHeader) (minPow : Bool) :
    WithinExpiration params (ChainstateManager.processNewBlockHeader params getHash env s header minPow).1 := by
  have h1 := h.keep W (acceptBlockHeader_extends params env W header minPow)
    (acceptBlockHeader_activeChain _ _ W header minPow)
  have W1 := W.acceptBlockHeader params env header minPow
  unfold ChainstateManager.processNewBlockHeader
  rcases he : s.acceptBlockHeader getHash params env header minPow with ⟨s1, _ | p⟩ <;> rw [he] at h1 W1
  · exact h1
  · have h2 : WithinExpiration params (s1.tryAddCandidate p) := h1
    exact h2.activateBestChain hE (W1.tryAddCandidate p) none (fun _ h => by cases h)

theorem ChainstateManager.WithinExpiration.acceptAndTryAdd (h : WithinExpiration params s) (W : Wf getHash genesis s)
    (header : CBlockHeader) (minPow : Bool) :
    WithinExpiration params (s.acceptAndTryAdd getHash params env header minPow) := by
  have h1 := h.keep W (acceptBlockHeader_extends params env W header minPow)
    (acceptBlockHeader_activeChain _ _ W header minPow)
  unfold ChainstateManager.acceptAndTryAdd
  rcases he : s.acceptBlockHeader getHash params env header minPow with ⟨s1, _ | p⟩ <;> rw [he] at h1 <;> exact h1

/-! ## Restarts -/

theorem restart_withinExpiration (h : WithinExpiration params s) (W : Wf getHash params.hashGenesisBlock s) :
    WithinExpiration params (s.ifSucceeds (s.restart getHash params env)) ↔ RestartsWithin params s (.restart env) := by
  by_cases hload : s.Reloadable
  · obtain ⟨s', hr⟩ := restart_succeeds env W hload
    have R := restart_restarted W hr
    rw [hr, show s.ifSucceeds (s', true) = s' from rfl]
    constructor
    · intro hwithin _ best hbest
      rcases R.tip with ⟨hnone, -⟩ | ⟨best', hbest', ht⟩
      · exact absurd hbest.1 (hnone best)
      · rw [hbest.unique hbest', ← R.links.nHeight_eq]
        exact hwithin best' ht
    · intro hwithin t ht
      rw [R.links.nHeight_eq]
      rcases R.tip with ⟨-, hkeep⟩ | ⟨best, hbest, hbt⟩
      · exact h t (hkeep.symm.trans ht)
      · rw [Option.some.inj (ht.symm.trans hbt)]
        exact hwithin hload best hbest
  · have hstay : s.ifSucceeds (s.restart getHash params env) = s := by
      rcases hr : s.restart getHash params env with ⟨s', ok⟩
      cases ok with
      | false => rfl
      | true => exact absurd (restart_restarted W hr).reloadable hload
    rw [hstay]
    exact iff_of_true h (fun hl => absurd hl hload)

theorem step_withinExpiration (hE : 0 < params.nNetworkExpirationInterval) (h : WithinExpiration params s)
    (W : Wf getHash params.hashGenesisBlock s) (a : ChainOp) (ha : IsGuardedOp a) :
    WithinExpiration params (step getHash params s a) ↔ RestartsWithin params s a := by
  cases a with
  | restart env => exact restart_withinExpiration h W
  | acceptBlockHeader env header minPow =>
    exact iff_of_true (h.keep W (acceptBlockHeader_extends _ _ W header minPow)
      (acceptBlockHeader_activeChain _ _ W header minPow)) trivial
  | tryAddBlockIndexCandidate p =>
    rw [step_tryAddBlockIndexCandidate]
    split <;> exact iff_of_true h trivial
  | acceptAndTryAdd env header minPow =>
    exact iff_of_true (h.acceptAndTryAdd W header minPow) trivial
  | processNewBlockHeader env header minPow =>
    exact iff_of_true (h.processNewBlockHeader hE W header minPow) trivial
  | activateBestChain given =>
    refine iff_of_true ?_ trivial
    cases given with
    | none => exact h.activateBestChain hE W none (fun _ h => by cases h)
    | some p =>
      rw [step_activateBestChain_some]
      split
      · rename_i hp
        exact h.activateBestChain hE W (some p) (fun q hq => by cases hq; exact hp)
      · exact h
  | addOrphanHeader env header peerId =>
    obtain ⟨o, c, he⟩ := addOrphanHeader_pool getHash params env s header peerId
    rw [step_addOrphanHeader, he]
    exact iff_of_true h trivial
  | evictOrphanHeaders env =>
    obtain ⟨o, c, he⟩ := evictOrphanHeaders_pool params env s
    rw [step_evictOrphanHeaders, he]
    exact iff_of_true h trivial
  | setup _ => exact ha.elim
  | invalidateBlock _ => exact ha.elim
  | load _ _ => exact ha.elim

/-! ## Runs -/

/-- In every run whose restarts select no leaf past the expiration height, no tip lies past it;
and a restart that does select one is what it takes to get there. -/
theorem expiration_never_passed (hE : 0 < params.nNetworkExpirationInterval) {skipPow : Bool} {header : CBlockHeader}
    {s₀ : ChainstateManager} (hgen : getHash header = params.hashGenesisBlock)
    (h₀ : (fresh skipPow).setup getHash header = (s₀, true))
    (hrun : Run.Reaches (step getHash params) (fun s a => IsGuardedOp a ∧ RestartsWithin params s a) s₀ s) :
    WithinExpiration params s ∧ ∀ a, IsGuardedOp a →
      (WithinExpiration params (step getHash params s a) ↔ RestartsWithin params s a) := by
  have W := reaches_wf hgen h₀ hrun
  have hstart : WithinExpiration params s₀ := by
    obtain ⟨h0, -, rfl⟩ := setup_fresh_true getHash header skipPow h₀
    intro t ht
    have W₀ := genesisState_wf getHash header skipPow h0
    rw [← Option.some.inj (show some (getHash header) = some t from ht), W₀.tree.toTreeShape.nHeight_genesis]
    exact Int.le_of_lt hE
  have hwithin := (hrun.invariant (P := fun s => Wf getHash params.hashGenesisBlock s ∧ WithinExpiration params s)
    ⟨reaches_wf hgen h₀ (show Run.Reaches _ (fun _ _ => True) s₀ s₀ from .start), hstart⟩
    (fun s a h ha => ⟨(h.1.step _ a).elim id id, (step_withinExpiration hE h.2 h.1 a ha.1).mpr ha.2⟩)).2
  exact ⟨hwithin, fun a ha => step_withinExpiration hE hwithin W a ha⟩

end

/-! ## A restart past the expiration -/

/-- The network expires at height 1. -/
def expiringParams : ConsensusParams := { nonceParams with nNetworkExpirationInterval := 1 }

/-- The tip is 2 at height 1; header 3 above it is in the index, and activating it was refused. -/
def expiredBranch : ChainstateManager :=
  step nonceHash expiringParams (step nonceHash expiringParams nonceStart
    (.processNewBlockHeader {} (nonceHeader 1 2) true)) (.processNewBlockHeader {} (nonceHeader 2 3) true)

theorem expiredBranch_reaches :
    Run.Reaches (step nonceHash expiringParams) (fun s a => IsGuardedOp a ∧ RestartsWithin expiringParams s a)
      nonceStart expiredBranch :=
  .next (.next .start ⟨trivial, trivial⟩) ⟨trivial, trivial⟩

theorem expiration_never_passed_nonce :
    WithinExpiration expiringParams expiredBranch ∧ ∀ a, IsGuardedOp a →
      (WithinExpiration expiringParams (step nonceHash expiringParams expiredBranch a) ↔
        RestartsWithin expiringParams expiredBranch a) :=
  expiration_never_passed (by decide) (show nonceHash (nonceHeader 0 1) = expiringParams.hashGenesisBlock from rfl)
    nonceStart_setup expiredBranch_reaches

/-- The restart makes header 3 the tip. -/
theorem restart_passes_expiration :
    ¬ ∀ (s₀ s : ChainstateManager), (fresh false).setup nonceHash (nonceHeader 0 1) = (s₀, true) →
      Run.Reaches (step nonceHash expiringParams) (fun _ a => IsGuardedOp a) s₀ s →
        WithinExpiration expiringParams s := by
  intro h
  have hreach : Run.Reaches (step nonceHash expiringParams) (fun _ a => IsGuardedOp a) nonceStart expiredBranch :=
    expiredBranch_reaches.mono fun _ _ ha => ha.1
  have W : Wf nonceHash expiringParams.hashGenesisBlock expiredBranch :=
    reaches_wf (show nonceHash (nonceHeader 0 1) = _ from rfl) nonceStart_setup hreach
  have hwithin := h nonceStart expiredBranch nonceStart_setup hreach
  have hnext := h nonceStart _ nonceStart_setup (hreach.next (show IsGuardedOp (.restart {}) from trivial))
  have habove := (restart_withinExpiration hwithin W).mp hnext
  have ht : expiredBranch.getTip = some 2 := by decide +kernel
  have hf : expiredBranch.blockIndex.isFailed 2 = false := by decide +kernel
  have hlen : expiredBranch.activeChain.length = 2 := by decide +kernel
  have hkeys : expiredBranch.blockIndex.keys = [1, 2, 3] := by decide +kernel
  have hh1 : expiredBranch.blockIndex.nHeight 1 = 0 := by decide +kernel
  have hh2 : expiredBranch.blockIndex.nHeight 2 = 1 := by decide +kernel
  have hh3 : expiredBranch.blockIndex.nHeight 3 = 2 := by decide +kernel
  have hc1 : expiredBranch.blockIndex.hasChildren 1 = true := by decide +kernel
  have hc2 : expiredBranch.blockIndex.hasChildren 2 = true := by decide +kernel
  have hleaf : IsValidLeaf expiredBranch.blockIndex 3 := ⟨by decide +kernel, by decide +kernel⟩
  have hmem : ∀ p ∈ expiredBranch.blockIndex, p = 1 ∨ p = 2 ∨ p = 3 := fun p hp => by
    have := Std.ExtTreeMap.mem_keys.mpr hp
    rw [hkeys] at this
    simpa using this
  have hreload : expiredBranch.Reloadable := by
    refine ⟨fun p => ?_, fun t h => ?_, by omega⟩
    · by_cases hp : p ∈ expiredBranch.blockIndex
      · rcases hmem p hp with rfl | rfl | rfl <;> omega
      · simp [nHeight, get_of_notMem hp]
    · rw [ht] at h
      cases h
      exact hf
  have hselect : IsSelectedLeaf {} expiredBranch.blockIndex 3 := by
    refine ⟨(W.reloadedLeaf_iff (sameOutcomes_default _) 3).mpr hleaf, fun q hother => ?_⟩
    obtain ⟨b, hb, hq, -⟩ := hother
    rcases hmem q (mem_of_get hb) with rfl | rfl | rfl
    · rw [hc1] at hq; cases hq
    · rw [hc2] at hq; cases hq
    · exact .inl rfl
  have := habove hreload 3 hselect
  rw [hh3] at this
  exact absurd this (by decide)

end UnicityPow
