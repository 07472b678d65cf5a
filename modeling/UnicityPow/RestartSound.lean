import UnicityPow.SaveSound
import UnicityPow.LoadedBranches
import UnicityPow.TreeSound

/-!
# A restart

`Save` and `Load` keep the index, and the tip becomes the first leaf whose checks pass
again. So a restart keeps the tip exactly when it is that leaf or there is none.
-/

namespace UnicityPow

open Forest BlockMap ChainstateManager

namespace ChainstateManager

/-- A leaf that is not failed and passes its checks again. -/
def IsReloadedLeaf (env : Env) (m : BlockMap) (p : BlockPtr) : Prop :=
  ∃ b, m[p]? = some b ∧ m.hasChildren p = false ∧ failsLoad env m b = false

/-- The first leaf of that kind in candidate order. -/
def IsSelectedLeaf (env : Env) (m : BlockMap) (p : BlockPtr) : Prop :=
  IsReloadedLeaf env m p ∧ ∀ q, IsReloadedLeaf env m q → q = p ∨ workBefore m p q = true

end ChainstateManager

section
variable {getHash : CBlockHeader → Uint256} {params : ConsensusParams} {env : Env} {genesis : BlockPtr}
  {s s' : ChainstateManager}

theorem ChainstateManager.IsSelectedLeaf.unique {m : BlockMap} {p q : BlockPtr} (hp : IsSelectedLeaf env m p)
    (hq : IsSelectedLeaf env m q) : p = q := by
  have hlt := workBefore_strictTotal m
  rcases hp.2 q hq.1 with he | h1
  · exact he.symm
  · rcases hq.2 p hp.1 with he | h2
    · exact he
    · have := hlt.trans _ _ _ h1 h2
      rw [hlt.irrefl] at this
      cases this

/-! ## What a restart leaves -/

theorem HeaderTree.nChainWork_links {m m' : BlockMap} (T : HeaderTree getHash m genesis)
    (T' : HeaderTree getHash m' genesis) (h : SameLinks m m') : m'.nChainWork = m.nChainWork := by
  funext p
  by_cases hp : p ∈ m
  · rw [T.nChainWork_eq hp, T'.nChainWork_eq (h.mem_iff.mpr hp)]
    unfold recomputedWork
    rw [h.rank_eq, ancestry_links h]
  · unfold BlockMap.nChainWork
    rw [get_of_notMem hp, get_of_notMem (fun hp' => hp (h.mem_iff.mp hp'))]

theorem workBefore_links {m m' : BlockMap} (h : SameLinks m m') (hw : m'.nChainWork = m.nChainWork) :
    workBefore m' = workBefore m := by
  funext a b
  unfold workBefore
  rw [hw, h.nHeight_eq]

/-- The state after a restart, in terms of the state before it. -/
structure Restarted (getHash : CBlockHeader → Uint256) (env : Env) (genesis : BlockPtr) (s s' : ChainstateManager) :
    Prop where
  reloadable : s.Reloadable
  wf : Wf getHash genesis s'
  links : SameLinks s.blockIndex s'.blockIndex
  work : s'.blockIndex.nChainWork = s.blockIndex.nChainWork
  status : ∀ (p : BlockPtr) (b b' : CBlockIndex), s.blockIndex[p]? = some b → s'.blockIndex[p]? = some b' →
    b'.status = revalidatedStatus env s.blockIndex b
  tip : (∀ q, ¬ IsReloadedLeaf env s.blockIndex q) ∧ s'.getTip = s.getTip ∨
    ∃ best, IsSelectedLeaf env s.blockIndex best ∧ s'.getTip = some best

theorem isReloadedLeaf_iff (h : SameLinks s.blockIndex s'.blockIndex)
    (hstatus : ∀ (p : BlockPtr) (b b' : CBlockIndex), s.blockIndex[p]? = some b → s'.blockIndex[p]? = some b' →
      b'.status = revalidatedStatus env s.blockIndex b) (p : BlockPtr) :
    IsValidLeaf s'.blockIndex p ↔ IsReloadedLeaf env s.blockIndex p := by
  unfold IsValidLeaf IsReloadedLeaf
  rw [h.hasChildren_eq]
  constructor
  · rintro ⟨hleaf, hv⟩
    obtain ⟨b', hb'⟩ := mem_iff.mp (mem_of_isValid hv)
    obtain ⟨b, hb, -⟩ := h.get hb'
    refine ⟨b, hb, hleaf, ?_⟩
    rw [isValid_of_get hb', CBlockIndex.isValid, hstatus p b b' hb hb', isValid_revalidatedStatus] at hv
    simpa using hv
  · rintro ⟨b, hb, hleaf, hf⟩
    obtain ⟨b', hb', -⟩ := h.symm.get hb
    refine ⟨hleaf, ?_⟩
    rw [isValid_of_get hb', CBlockIndex.isValid, hstatus p b b' hb hb', isValid_revalidatedStatus, hf]
    rfl

theorem restart_restarted (W : Wf getHash params.hashGenesisBlock s)
    (h : s.restart getHash params env = (s', true)) :
    Restarted getHash env params.hashGenesisBlock s s' := by
  have L := load_loaded h
  have hload := W.save_loadable_iff.mp L.loadable
  have hsaved := W.saved_save hload.intHeights
  have hlinks : SameLinks s.blockIndex s'.blockIndex := hsaved.links_of_saved.trans L.links
  have hwork := W.tree.nChainWork_links L.wf.tree hlinks
  have hstatus : ∀ (p : BlockPtr) (b b' : CBlockIndex), s.blockIndex[p]? = some b → s'.blockIndex[p]? = some b' →
      b'.status = revalidatedStatus env s.blockIndex b := by
    intro p b b' hb hb'
    obtain ⟨c, hc, he⟩ := hsaved.symm.get hb
    rw [L.status p c b' hc hb']
    unfold revalidatedStatus
    have hcb : c.links = b.links := (congrArg CBlockIndex.links he).symm
    rw [revalidates_links hsaved.links_of_saved hcb,
      show c.status = b.status from (congrArg CBlockIndex.status he).symm]
  have hleaf := isReloadedLeaf_iff hlinks hstatus
  refine ⟨hload, L.wf, hlinks, hwork, hstatus, ?_⟩
  obtain ⟨tip, -, ht, -⟩ := W.tip_exists
  rcases L.tip with ⟨hnone, htip⟩ | ⟨best, hbest, hfirst, htip⟩
  · refine .inl ⟨fun q hq => hnone q ((hleaf q).mpr hq), ?_⟩
    rw [htip, ht, (savedTip_save ht).2]
  · refine .inr ⟨best, ⟨(hleaf best).mp hbest, fun q hq => ?_⟩, htip⟩
    rw [← workBefore_links hlinks hwork]
    exact hfirst q ((hleaf q).mpr hq)

variable (env) in
theorem restart_succeeds (W : Wf getHash params.hashGenesisBlock s) (h : s.Reloadable) :
    ∃ s', s.restart getHash params env = (s', true) := load_of_loadable (W.save_loadable h)

/-! ## A restart with unchanged checks -/

namespace ChainstateManager

/-- The checks of `Load` come out as recorded: a block fails them only if its status says that
it failed validation. -/
def SameOutcomes (env : Env) (s : ChainstateManager) : Prop :=
  ∀ (p : BlockPtr) (b : CBlockIndex), s.blockIndex[p]? = some b →
    revalidates env s.blockIndex b = true ∨ b.status.failure = FailureState.VALIDATION_FAILED

/-- The restart succeeds and yields the same blocks (hashes, headers, parents, heights, work and
statuses) and the same tip. -/
def RestartPreserves (getHash : CBlockHeader → Uint256) (params : ConsensusParams) (env : Env)
    (s : ChainstateManager) : Prop :=
  ∃ s', s.restart getHash params env = (s', true) ∧ SameBy CBlockIndex.saved s.blockIndex s'.blockIndex ∧
    s'.getTip = s.getTip

/-- The tip is the first valid leaf in candidate order, or no leaf is valid. -/
def TipIsFirstLeaf (s : ChainstateManager) : Prop :=
  (∀ q, ¬ IsValidLeaf s.blockIndex q) ∨ ∃ tip, s.getTip = some tip ∧ IsValidLeaf s.blockIndex tip ∧
    ∀ q, IsValidLeaf s.blockIndex q → q = tip ∨ workBefore s.blockIndex tip q = true

end ChainstateManager

theorem CBlockIndex.saved_eq {b b' : CBlockIndex} (hl : b'.links = b.links) (hs : b'.status = b.status)
    (hw : b'.nChainWork = b.nChainWork) : b'.saved = b.saved := by
  cases b
  cases b'
  simp only [CBlockIndex.links, CBlockIndex.mk.injEq, true_and, and_true] at hl hs hw
  simp only [CBlockIndex.saved, hl, hs, hw]

theorem Wf.revalidatedStatus_eq (W : Wf getHash genesis s) (hsame : SameOutcomes env s) {p : BlockPtr}
    {b : CBlockIndex} (hb : s.blockIndex[p]? = some b) : revalidatedStatus env s.blockIndex b = b.status := by
  have hv := W.valid p b hb
  unfold revalidatedStatus
  split
  · unfold BlockStatus.raiseValidity
    split
    · rfl
    · rename_i hf
      have hvalid : b.status.isValid ValidationLevel.TREE = true := by
        rw [← CBlockIndex.isValid, hv, CBlockIndex.isFailed]
        simpa using hf
      simp only [BlockStatus.isValid, Bool.and_eq_true, decide_eq_true_eq] at hvalid
      rw [if_neg (BitVec.not_lt.mpr hvalid.2)]
  · rename_i hr
    rw [← (hsame p b hb).resolve_left hr]

theorem Wf.failsLoad_eq (W : Wf getHash genesis s) (hsame : SameOutcomes env s) {p : BlockPtr}
    {b : CBlockIndex} (hb : s.blockIndex[p]? = some b) : failsLoad env s.blockIndex b = b.isFailed := by
  rw [← isFailed_revalidatedStatus, W.revalidatedStatus_eq hsame hb]
  rfl

theorem Wf.reloadedLeaf_iff (W : Wf getHash genesis s) (hsame : SameOutcomes env s) (p : BlockPtr) :
    IsReloadedLeaf env s.blockIndex p ↔ IsValidLeaf s.blockIndex p := by
  unfold IsReloadedLeaf IsValidLeaf
  constructor
  · rintro ⟨b, hb, hleaf, hf⟩
    rw [W.failsLoad_eq hsame hb] at hf
    exact ⟨hleaf, (W.isValid_iff (mem_of_get hb)).mpr (by rw [isFailed_of_get hb, hf])⟩
  · rintro ⟨hleaf, hv⟩
    obtain ⟨b, hb⟩ := mem_iff.mp (mem_of_isValid hv)
    refine ⟨b, hb, hleaf, ?_⟩
    rw [W.failsLoad_eq hsame hb, ← isFailed_of_get hb]
    exact isFailed_of_isValid hv

theorem Restarted.sameSaved (h : Restarted getHash env genesis s s') (W : Wf getHash genesis s)
    (hsame : SameOutcomes env s) : SameBy CBlockIndex.saved s.blockIndex s'.blockIndex := by
  intro p
  cases hb : s.blockIndex[p]? with
  | none => rw [get_of_notMem (fun hp => by simpa [hb] using mem_iff.mp (h.links.mem_iff.mp hp))]
  | some b =>
    obtain ⟨b', hb', he⟩ := h.links.symm.get hb
    have hw : b'.nChainWork = b.nChainWork := by
      rw [← nChainWork_of_get hb', ← nChainWork_of_get hb, h.work]
    rw [hb', Option.map_some, Option.map_some, CBlockIndex.saved_eq he.symm
      ((h.status p b b' hb hb').trans (W.revalidatedStatus_eq hsame hb)) hw]

theorem restartPreserves_iff (W : Wf getHash params.hashGenesisBlock s)
    (htip : ∀ t, s.getTip = some t → s.blockIndex.isFailed t = false) (hlen : s.activeChain.length < 1000000)
    (hsame : SameOutcomes env s) :
    s.RestartPreserves getHash params env ↔ s.blockIndex.IntHeights ∧ s.TipIsFirstLeaf := by
  have hleaf := W.reloadedLeaf_iff hsame
  obtain ⟨tip, -, ht, -⟩ := W.tip_exists
  constructor
  · rintro ⟨s', h, -, heq⟩
    have R := restart_restarted W h
    refine ⟨R.reloadable.intHeights, ?_⟩
    rcases R.tip with ⟨hnone, -⟩ | ⟨best, ⟨hbest, hfirst⟩, htip'⟩
    · exact .inl (fun q hq => hnone q ((hleaf q).mpr hq))
    · exact .inr ⟨best, heq ▸ htip', (hleaf best).mp hbest, fun q hq => hfirst q ((hleaf q).mpr hq)⟩
  · rintro ⟨hint, hfirst⟩
    obtain ⟨s', h⟩ := restart_succeeds env W ⟨hint, htip, by omega⟩
    have R := restart_restarted W h
    refine ⟨s', h, R.sameSaved W hsame, ?_⟩
    rcases R.tip with ⟨-, heq⟩ | ⟨best, ⟨hbest, hbestFirst⟩, htip'⟩
    · exact heq
    · rcases hfirst with hnone | ⟨t, ht', hvalid, hall⟩
      · exact absurd ((hleaf best).mp hbest) (hnone best)
      · have htop : IsSelectedLeaf env s.blockIndex t :=
          ⟨(hleaf t).mpr hvalid, fun q hq => hall q ((hleaf q).mp hq)⟩
        rw [htip', ht', htop.unique ⟨hbest, hbestFirst⟩]

/-! ## Runs from `Initialize` -/

theorem reaches_wf {skipPow : Bool} {header : CBlockHeader} {s₀ : ChainstateManager} {ok : ChainstateManager → ChainOp → Prop}
    (hgen : getHash header = params.hashGenesisBlock)
    (h₀ : (fresh skipPow).setup getHash header = (s₀, true))
    (hrun : Run.Reaches (step getHash params) ok s₀ s) : Wf getHash params.hashGenesisBlock s := by
  obtain ⟨h0, -, rfl⟩ := setup_fresh_true getHash header skipPow h₀
  exact hrun.invariant (P := Wf getHash params.hashGenesisBlock) (hgen ▸ genesisState_wf getHash header skipPow h0)
    (fun s a W _ => (W.step _ a).elim id id)

/-- In every state that any calls reach from the expected genesis block, a restart under the
same checks preserves the index and the tip exactly when the heights are `int`s and the tip is
the first valid leaf or no leaf is valid. -/
theorem restart_keeps_tip {skipPow : Bool} {header : CBlockHeader} {s₀ : ChainstateManager}
    (hgen : getHash header = params.hashGenesisBlock)
    (h₀ : (fresh skipPow).setup getHash header = (s₀, true))
    (hrun : Run.Reaches (step getHash params) (fun _ _ => True) s₀ s)
    (htip : ∀ t, s.getTip = some t → s.blockIndex.isFailed t = false) (hlen : s.activeChain.length < 1000000)
    (hsame : SameOutcomes env s) :
    s.RestartPreserves getHash params env ↔ s.blockIndex.IntHeights ∧ s.TipIsFirstLeaf :=
  restartPreserves_iff (reaches_wf hgen h₀ hrun) htip hlen hsame

end

/-! ## Restarts of a small chain -/

theorem sameOutcomes_default (s : ChainstateManager) : SameOutcomes {} s := by
  intro p b _
  refine .inl ?_
  unfold revalidates contextualCheck
  cases b.pprev <;> rfl

theorem restart_keeps_tip_nonce :
    (step nonceHash nonceParams nonceStart (.processNewBlockHeader {} (nonceHeader 1 2) true)).RestartPreserves
        nonceHash nonceParams {} ↔
      (step nonceHash nonceParams nonceStart
        (.processNewBlockHeader {} (nonceHeader 1 2) true)).blockIndex.IntHeights ∧
      (step nonceHash nonceParams nonceStart (.processNewBlockHeader {} (nonceHeader 1 2) true)).TipIsFirstLeaf :=
  restart_keeps_tip (show nonceHash (nonceHeader 0 1) = nonceParams.hashGenesisBlock from rfl) nonceStart_setup
    (.next .start trivial)
    (fun t ht => by
      have h2 : (step nonceHash nonceParams nonceStart (.processNewBlockHeader {} (nonceHeader 1 2) true)).getTip =
        some 2 := by decide +kernel
      rw [h2] at ht
      cases ht
      decide +kernel) (by decide +kernel) (sameOutcomes_default _)

/-- Two blocks of the same work above genesis, the one with the larger hash first. -/
def tiedState : ChainstateManager :=
  step nonceHash nonceParams (step nonceHash nonceParams nonceStart
    (.processNewBlockHeader {} (nonceHeader 1 3) true)) (.processNewBlockHeader {} (nonceHeader 1 2) true)

/-- The restart moves the tip to the smaller hash. -/
theorem tied_tip_replaced :
    ¬ ∀ s₀ s, (fresh false).setup nonceHash (nonceHeader 0 1) = (s₀, true) →
      Run.Reaches (step nonceHash nonceParams) (fun _ _ => True) s₀ s →
      (∀ t, s.getTip = some t → s.blockIndex.isFailed t = false) → s.activeChain.length < 1000000 →
      SameOutcomes {} s → s.RestartPreserves nonceHash nonceParams {} := by
  intro h
  have hrun : Run.Reaches (step nonceHash nonceParams) (fun _ _ => True) nonceStart tiedState :=
    .next (.next .start trivial) trivial
  have ht : tiedState.getTip = some 3 := by decide +kernel
  have hf : tiedState.blockIndex.isFailed 3 = false := by decide +kernel
  have htip : ∀ t, tiedState.getTip = some t → tiedState.blockIndex.isFailed t = false := fun t h => by
    rw [ht] at h
    cases h
    exact hf
  have hlen : tiedState.activeChain.length < 1000000 := by decide +kernel
  have hsame := sameOutcomes_default tiedState
  have W : Wf nonceHash nonceParams.hashGenesisBlock tiedState :=
    reaches_wf (show nonceHash (nonceHeader 0 1) = _ from rfl) nonceStart_setup hrun
  have hkeep := h nonceStart tiedState nonceStart_setup hrun htip hlen hsame
  have hleaf : IsValidLeaf tiedState.blockIndex 2 := ⟨by decide +kernel, by decide +kernel⟩
  obtain ⟨-, hfirst⟩ := (restartPreserves_iff W htip hlen hsame).mp hkeep
  rcases hfirst with hnone | ⟨tip, ht', -, hall⟩
  · exact hnone 2 hleaf
  · rw [ht] at ht'
    cases ht'
    rcases hall 2 hleaf with h | h
    · exact absurd h (by decide)
    · have : workBefore tiedState.blockIndex 3 2 = false := by decide +kernel
      rw [this] at h
      cases h

end UnicityPow
