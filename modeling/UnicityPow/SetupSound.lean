import UnicityPow.ActivateSound
import UnicityPow.Runs

/-!
# The state after `Initialize`

On a new manager `Initialize` succeeds exactly when the genesis header names no parent and
its hash is not null, and leaves an index of one entry.
-/

namespace UnicityPow

open Forest BlockMap

/-- The entry of an initialised genesis block. -/
def genesisEntry (genesis : CBlockHeader) : CBlockIndex :=
  { CBlockIndex.ofHeader genesis with
    status := ⟨ValidationLevel.TREE, FailureState.NOT_FAILED⟩
    nChainWork := getBlockProof genesis.nBits
    nTimeMax := genesis.nTime.toNat }

/-- The manager that knows the genesis block only. -/
def genesisState (getHash : CBlockHeader → Uint256) (skipPow : Bool) (genesis : CBlockHeader) :
    ChainstateManager :=
  { blockIndex := (∅ : BlockMap).insert (getHash genesis) (genesisEntry genesis)
    activeChain := [some (getHash genesis)]
    genesisHash := getHash genesis
    initialized := true
    candidates := [getHash genesis]
    bestHeader := some (getHash genesis)
    testSkipPowChecks := skipPow }

/-! ## Genesis alone -/

section
variable {m : BlockMap} {p : BlockPtr}

theorem resize_one (c : CChain) : ∃ x, c.resize 1 = [x] := by
  have := CChain.length_resize c 1
  exact List.length_eq_one_iff.mp this

/-- Whatever the vector was, `SetTip` on a block without parent leaves that block. -/
theorem setTip_root (c : CChain) (hh : m.nHeight p = 0) : c.setTip m p = [some p] := by
  obtain ⟨x, hx⟩ := resize_one c
  unfold CChain.setTip
  rw [hh]
  simp only [Int.toNat_zero, Nat.zero_add, hx]
  unfold CChain.setTipWalk
  by_cases h : x = some p <;> simp [CChain.setTipWalk, hh, h]

theorem verifyChainContinuity_root (hh : m.nHeight p = 0) (hp : m.pprev p = none) :
    verifyChainContinuity m p p = true := by
  unfold verifyChainContinuity walkToRoot
  simp [hp, hh]

theorem walkToRoot_loop (h : m.pprev p = some p) : ∀ n k, walkToRoot m n p k = none := by
  intro n
  induction n with
  | zero => intro k; unfold walkToRoot; rw [h]
  | succ n ih => intro k; unfold walkToRoot; rw [h]; exact ih (k + 1)

theorem verifyChainContinuity_loop (q : Uint256) (h : m.pprev p = some p) :
    verifyChainContinuity m p q = false := by
  unfold verifyChainContinuity
  rw [walkToRoot_loop h]

end

/-! ## Initialize on a new manager -/

section
variable (getHash : CBlockHeader → Uint256) (genesis : CBlockHeader) (skipPow : Bool)

theorem addToBlockIndex_empty (bm : BlockManager) (hbm : bm.blockIndex = ∅) (h0 : genesis.hashPrevBlock = 0)
    (hh : getHash genesis ≠ 0) :
    bm.addToBlockIndex getHash genesis =
      ({ bm with blockIndex := (∅ : BlockMap).insert (getHash genesis) { genesisEntry genesis with status := {} } },
        some (getHash genesis)) := by
  unfold BlockManager.addToBlockIndex
  have hnp : (0 : Uint256) ∉ (∅ : BlockMap).insert (getHash genesis) (CBlockIndex.ofHeader genesis) := by
    rw [mem_single]
    exact fun h => hh h.symm
  simp only [hbm, Std.ExtTreeMap.not_mem_empty, if_false, h0, hnp, ne_eq, not_true, insert_insert]
  rfl

theorem initializeWith_empty (bm : BlockManager) (hbm : bm.blockIndex = ∅) (hi : bm.initialized = false)
    (h0 : genesis.hashPrevBlock = 0) (hh : getHash genesis ≠ 0) :
    bm.initializeWith getHash genesis =
      ({ blockIndex := (∅ : BlockMap).insert (getHash genesis) { genesisEntry genesis with status := {} }
         activeChain := [some (getHash genesis)]
         genesisHash := getHash genesis
         initialized := true }, true) := by
  have hget : ((∅ : BlockMap).insert (getHash genesis) { genesisEntry genesis with status := {} })[getHash genesis]? =
      some { genesisEntry genesis with status := {} } := by rw [getElem?_single, if_pos rfl]
  have hhgt := nHeight_of_get hget
  have hpp := pprev_of_get hget
  unfold BlockManager.initializeWith
  rw [addToBlockIndex_empty getHash genesis bm hbm h0 hh]
  simp only [hi, Bool.false_eq_true, if_false, BlockManager.setActiveTip, setTip_root _ hhgt,
    verifyChainContinuity_root hhgt hpp, if_true]

theorem setup_empty (s : ChainstateManager) (hs : s.blockIndex = ∅) (hi : s.initialized = false)
    (hc : s.candidates = []) (h0 : genesis.hashPrevBlock = 0) (hh : getHash genesis ≠ 0) :
    s.setup getHash genesis =
      ({ genesisState getHash s.testSkipPowChecks genesis with
         orphanHeaders := s.orphanHeaders
         peerOrphanCount := s.peerOrphanCount
         failedBlocks := s.failedBlocks
         cachedFinishedIbd := s.cachedFinishedIbd }, true) := by
  unfold ChainstateManager.setup
  rw [initializeWith_empty getHash genesis s.toBlockManager hs hi h0 hh]
  simp only [BlockManager.getTip, CChain.tip, ChainstateManager.addUnchecked, ChainSelector.addCandidateUnchecked,
    hc, OrderedSet.insert, modify_insert, List.getLast?_singleton, Option.join_some]
  rfl

theorem setup_fresh (h0 : genesis.hashPrevBlock = 0) (hh : getHash genesis ≠ 0) :
    (ChainstateManager.fresh skipPow).setup getHash genesis = (genesisState getHash skipPow genesis, true) :=
  setup_empty getHash genesis (ChainstateManager.fresh skipPow) rfl rfl rfl h0 hh

theorem initializeWith_empty_true (h : (({} : BlockManager).initializeWith getHash genesis).2 = true) :
    genesis.hashPrevBlock = 0 ∧ getHash genesis ≠ 0 := by
  unfold BlockManager.initializeWith BlockManager.addToBlockIndex at h
  simp only [Bool.false_eq_true, if_false, Std.ExtTreeMap.not_mem_empty, mem_single] at h
  by_cases hself : genesis.hashPrevBlock = getHash genesis
  · -- a header that is its own parent is walked in a circle
    exfalso
    have hloop : ∀ b : CBlockIndex, b.pprev = some (getHash genesis) →
        pprev ((∅ : BlockMap).insert (getHash genesis) b) (getHash genesis) = some (getHash genesis) := by
      intro b hb
      rw [pprev_of_get (b := b) (by rw [getElem?_single, if_pos rfl]), hb]
    simp only [hself, if_true, insert_insert, BlockManager.setActiveTip] at h
    simp [verifyChainContinuity_loop _ (hloop (BlockManager.newIndex
      ((∅ : BlockMap).insert (getHash genesis) (CBlockIndex.ofHeader genesis)) genesis (some (getHash genesis))) rfl)] at h
  · by_cases h0 : genesis.hashPrevBlock = 0
    · exact ⟨h0, fun e => hself (h0.trans e.symm)⟩
    · simp only [hself, if_false, ne_eq, h0, not_false_eq_true, if_true] at h
      cases h

theorem initializeWith_of_setup {s s' : ChainstateManager} (h : s.setup getHash genesis = (s', true)) :
    (s.toBlockManager.initializeWith getHash genesis).2 = true := by
  unfold ChainstateManager.setup at h
  split at h
  · cases congrArg Prod.snd h
  · rename_i heq
    exact congrArg Prod.snd heq

/-- `Initialize` on a new manager succeeds on a header that names no parent and whose hash is
not null, only. -/
theorem setup_fresh_true {s : ChainstateManager}
    (h : (ChainstateManager.fresh skipPow).setup getHash genesis = (s, true)) :
    genesis.hashPrevBlock = 0 ∧ getHash genesis ≠ 0 ∧ s = genesisState getHash skipPow genesis := by
  obtain ⟨h0, hh⟩ := initializeWith_empty_true getHash genesis (initializeWith_of_setup getHash genesis h)
  rw [setup_fresh getHash genesis skipPow h0 hh] at h
  exact ⟨h0, hh, (congrArg Prod.fst h).symm⟩

theorem genesisState_wf (h0 : genesis.hashPrevBlock = 0) :
    Wf getHash (getHash genesis) (genesisState getHash skipPow genesis) := by
  have hindex : (genesisState getHash skipPow genesis).blockIndex =
      (∅ : BlockMap).insert (getHash genesis) (genesisEntry genesis) := rfl
  have hmem : getHash genesis ∈ (genesisState getHash skipPow genesis).blockIndex := mem_single.mpr rfl
  have hself : (genesisState getHash skipPow genesis).blockIndex[getHash genesis]? = some (genesisEntry genesis) := by
    rw [hindex, getElem?_single, if_pos rfl]
  have hroot := pprev_of_get hself
  have hheight := nHeight_of_get hself
  have hheader : (genesisEntry genesis).getBlockHeader = genesis := by
    unfold CBlockIndex.getBlockHeader
    rw [show (genesisEntry genesis).pprev.getD 0 = genesis.hashPrevBlock from h0.symm]
    rfl
  refine ⟨.single rfl rfl (fun r hr => nomatch hr) (by rw [hheader]) rfl rfl,
    ⟨getHash genesis, hmem, ?_, ?_⟩, rfl, rfl, ?_, ?_, ?_⟩
  · rw [rank, hheight]; rfl
  · intro a ha
    rw [anc_root hroot] at ha
    subst ha
    rw [rank, hheight]
    rfl
  · intro p b hb
    obtain ⟨rfl, rfl⟩ := get_single hb
    rfl
  · intro p hp
    rw [List.mem_singleton.mp hp]
    exact hmem
  · exact List.pairwise_singleton _ _

end

theorem nonceStart_setup :
    (ChainstateManager.fresh false).setup nonceHash (nonceHeader 0 1) = (nonceStart, true) :=
  Prod.ext rfl (by decide +kernel)

end UnicityPow
