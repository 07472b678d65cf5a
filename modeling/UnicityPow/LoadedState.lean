import UnicityPow.LoadSound

/-!
# The state after `Load`

Statuses come from the file and from re-validation, everything else is recomputed, and the
tip is the first valid leaf in candidate order.
-/

namespace UnicityPow

open Forest BlockMap

/-! ## Re-validation -/

theorem ancestry_links {m m' : BlockMap} (h : SameLinks m m') : ∀ (fuel : Nat) (p : Option BlockPtr),
    ancestry m' fuel p = ancestry m fuel p := by
  intro fuel
  induction fuel with
  | zero => intro p; rfl
  | succ fuel ih =>
    intro p
    cases p with
    | none => rfl
    | some p =>
      unfold ancestry
      cases hb : m[p]? with
      | none => rw [get_of_notMem (fun hm => by simpa [hb] using mem_iff.mp (h.mem_iff.mp hm))]
      | some b =>
        obtain ⟨b', hb', he⟩ := h.symm.get hb
        rw [hb']
        simp only []
        rw [ih, ← CBlockIndex.of_links he CBlockIndex.getBlockHeader, ← CBlockIndex.of_links he CBlockIndex.pprev]

namespace ChainstateManager

variable {env : Env}

theorem contextualCheck_links {m m' : BlockMap} (h : SameLinks m m') (header : CBlockHeader) (q : BlockPtr) :
    contextualCheck env m' header q = contextualCheck env m header q := by
  unfold contextualCheck
  rw [ancestry_links h, h.size_eq]

/-- Re-validation reads links only, so its outcome is settled before the loop. -/
theorem revalidates_links {m m' : BlockMap} {b b' : CBlockIndex} (h : SameLinks m m') (hb : b'.links = b.links) :
    revalidates env m' b' = revalidates env m b := by
  unfold revalidates
  rw [CBlockIndex.of_links hb CBlockIndex.pprev, CBlockIndex.of_links hb CBlockIndex.getBlockHeader]
  cases b.pprev with
  | none => rfl
  | some q =>
    simp only []
    rw [contextualCheck_links h]

/-- The status of an entry after the loop. -/
def revalidatedStatus (env : Env) (m : BlockMap) (b : CBlockIndex) : BlockStatus :=
  if revalidates env m b then b.status.raiseValidity ValidationLevel.TREE
  else { b.status with failure := FailureState.VALIDATION_FAILED }

/-- Failed in the file, or when its checks are made again. -/
def failsLoad (env : Env) (m : BlockMap) (b : CBlockIndex) : Bool := b.isFailed || !revalidates env m b

theorem isFailed_revalidatedStatus (m : BlockMap) (b : CBlockIndex) :
    (revalidatedStatus env m b).isFailed = failsLoad env m b := by
  unfold revalidatedStatus failsLoad
  cases revalidates env m b with
  | true => simp [CBlockIndex.isFailed]
  | false => simp [BlockStatus.isFailed, FailureState.VALIDATION_FAILED, FailureState.NOT_FAILED]

theorem isValid_revalidatedStatus (m : BlockMap) (b : CBlockIndex) :
    (revalidatedStatus env m b).isValid ValidationLevel.TREE = !failsLoad env m b := by
  unfold revalidatedStatus failsLoad
  cases revalidates env m b with
  | true => simp [BlockStatus.isValid_raiseValidity, CBlockIndex.isFailed]
  | false => simp [BlockStatus.isValid, BlockStatus.isFailed, FailureState.VALIDATION_FAILED, FailureState.NOT_FAILED]

theorem revalidateEntry_eq (m : BlockMap) (b : CBlockIndex) :
    revalidateEntry env m b =
      { m.buildSkip (setTimeMax m b) with
        nChainWork := b.pprev.elim 0 m.nChainWork + getBlockProof b.nBits
        status := revalidatedStatus env m b } := by
  have hlinks : ∀ w, (m.buildSkip (setTimeMax m { b with nChainWork := w })).links = b.links := fun w => by simp; rfl
  unfold revalidateEntry revalidatedStatus
  simp only []
  rw [revalidates_links (.refl _ m) (hlinks _)]
  unfold buildSkip setTimeMax
  cases hp : b.pprev with
  | none => cases revalidates env m b <;> simp [CBlockIndex.getBlockTime]
  | some q => cases revalidates env m b <;> simp [CBlockIndex.getBlockTime]

theorem links_revalidateEntry (m : BlockMap) (b : CBlockIndex) : (revalidateEntry env m b).links = b.links := by
  rw [revalidateEntry_eq]
  exact (links_buildSkip _ _).trans (links_setTimeMax _ _)

variable (env) in
theorem foldl_revalidate : ∀ (l : List BlockPtr) (s : ChainstateManager), ∃ failed,
    l.foldl (revalidate env) s =
      { s with blockIndex := rebuild (revalidateEntry env) l s.blockIndex, failedBlocks := failed } := by
  intro l
  induction l with
  | nil => intro s; exact ⟨s.failedBlocks, rfl⟩
  | cons p l ih =>
    intro s
    obtain ⟨failed, h⟩ := ih (s.revalidate env p)
    refine ⟨failed, ?_⟩
    rw [List.foldl_cons, h]
    unfold revalidate BlockMap.rebuild
    cases hb : s.blockIndex[p]? with
    | none => simp [hb]
    | some b => simp [hb]

/-! ## Candidates -/

theorem addLoadedLeaf_spec (s : ChainstateManager) (p : BlockPtr) : ∃ cs best,
    s.addLoadedLeaf p = { s with candidates := cs, bestHeader := best } ∧
      (∀ q, q ∈ cs ↔ q ∈ s.candidates ∨
        q = p ∧ s.blockIndex.hasChildren p = false ∧ s.blockIndex.isValid p = true) ∧
      (OrderedSet.Sorted (workBefore s.blockIndex) s.candidates → OrderedSet.Sorted (workBefore s.blockIndex) cs) := by
  unfold addLoadedLeaf
  split
  · rename_i h
    simp only [Bool.and_eq_true, Bool.not_eq_true'] at h
    refine ⟨(s.addUnchecked p).candidates,
      ((s.addUnchecked p).updateBestHeader s.blockIndex p).bestHeader, ?_, fun q => ?_, fun hs => ?_⟩
    · exact congrArg (fun c => { s.addUnchecked p with toChainSelector := c })
        (updateBestHeader_frame (s.addUnchecked p).toChainSelector s.blockIndex p)
    · rw [mem_addUnchecked]
      simp only [h, and_self, and_true]
      exact or_comm
    · exact hs.insert (workBefore_strictTotal _)
  · rename_i h
    refine ⟨s.candidates, s.bestHeader, rfl, fun q => ?_, id⟩
    simp only [Bool.and_eq_true, Bool.not_eq_true'] at h
    simp [h]

theorem foldl_addLoadedLeaf : ∀ (l : List BlockPtr) (s : ChainstateManager), ∃ cs best,
    l.foldl addLoadedLeaf s = { s with candidates := cs, bestHeader := best } ∧
      (∀ q, q ∈ cs ↔ q ∈ s.candidates ∨
        q ∈ l ∧ s.blockIndex.hasChildren q = false ∧ s.blockIndex.isValid q = true) ∧
      (OrderedSet.Sorted (workBefore s.blockIndex) s.candidates → OrderedSet.Sorted (workBefore s.blockIndex) cs) := by
  intro l
  induction l with
  | nil => intro s; exact ⟨s.candidates, s.bestHeader, rfl, by simp, id⟩
  | cons p l ih =>
    intro s
    obtain ⟨cs, best, h1, h2, h3⟩ := addLoadedLeaf_spec s p
    obtain ⟨cs', best', h1', h2', h3'⟩ := ih (s.addLoadedLeaf p)
    rw [List.foldl_cons]
    rw [h1] at h1' h2' h3' ⊢
    refine ⟨cs', best', h1', fun q => ?_, fun hs => h3' (h3 hs)⟩
    rw [h2' q]
    simp only [h2 q, List.mem_cons]
    constructor
    · rintro ((h | ⟨rfl, h⟩) | ⟨h, h'⟩)
      · exact .inl h
      · exact .inr ⟨.inl rfl, h⟩
      · exact .inr ⟨.inr h, h'⟩
    · rintro (h | ⟨rfl | h, h'⟩)
      · exact .inl (.inl h)
      · exact .inl (.inr ⟨rfl, h'⟩)
      · exact .inr ⟨h, h'⟩

/-- A block without children that is valid to `TREE`. -/
def IsValidLeaf (m : BlockMap) (p : BlockPtr) : Prop := m.hasChildren p = false ∧ m.isValid p = true

theorem rebuildCandidates_spec (s : ChainstateManager) : ∃ cs best,
    s.rebuildCandidates = { s with candidates := cs, bestHeader := best } ∧
      (∀ q, q ∈ cs ↔ IsValidLeaf s.blockIndex q) ∧ OrderedSet.Sorted (workBefore s.blockIndex) cs := by
  obtain ⟨cs, best, h1, h2, h3⟩ :=
    foldl_addLoadedLeaf s.blockIndex.keys { s with candidates := [], bestHeader := none }
  refine ⟨cs, best, h1, fun q => ?_, h3 (OrderedSet.sorted_nil _)⟩
  rw [h2 q, Std.ExtTreeMap.mem_keys]
  constructor
  · rintro (h | ⟨-, h⟩)
    · cases h
    · exact h
  · exact fun h => .inr ⟨mem_of_isValid h.2, h⟩

/-- The saved tip stays without a valid leaf; otherwise the first valid leaf replaces it. -/
theorem selectTip_spec {s : ChainstateManager} (hc : ∀ q, q ∈ s.candidates ↔ IsValidLeaf s.blockIndex q)
    (hs : OrderedSet.Sorted (workBefore s.blockIndex) s.candidates) :
    s.candidates = [] ∧ s.selectTip = s ∨
      ∃ best, IsValidLeaf s.blockIndex best ∧
        (∀ q, IsValidLeaf s.blockIndex q → q = best ∨ workBefore s.blockIndex best q = true) ∧
        s.selectTip = if s.getTip = some best then s else
          { s with activeChain := s.activeChain.setTip s.blockIndex best } := by
  obtain ⟨l, he, hsub, hkeep, hhead, hfirst⟩ := resolveCandidate_spec s
  -- every candidate is valid, so none is dropped
  have hl : l = s.candidates := hsub.eq_of_length_le
    ((hs.nodup (workBefore_strictTotal _)).subperm (fun q hq => hkeep q hq ((hc q).mp hq).2)).length_le
  subst hl
  unfold selectTip
  rw [he]
  cases hh : s.candidates.head? with
  | none => exact .inl ⟨List.head?_eq_none_iff.mp hh, rfl⟩
  | some best =>
    refine .inr ⟨best, (hc best).mp (List.mem_of_head? hh), fun q hq => ?_, ?_⟩
    · exact hfirst hs best hh q ((hc q).mpr hq) hq.2
    · simp only []
      split <;> rfl

end ChainstateManager

/-! ## `ChainstateManager::Load` -/

open ChainstateManager

/-- The block fails in the file, or its checks fail when they are made again. -/
def HeaderFile.fails (getHash : CBlockHeader → Uint256) (env : Env) (file : HeaderFile) (p : BlockPtr) : Bool :=
  (file.index getHash)[p]?.elim false (failsLoad env (file.index getHash))

/-- What a successful `Load` leaves, in terms of the file. -/
structure Loaded (getHash : CBlockHeader → Uint256) (env : Env) (genesis : BlockPtr) (file : HeaderFile)
    (s : ChainstateManager) : Prop where
  loadable : Loadable getHash genesis file
  wf : Wf getHash genesis s
  links : SameLinks (file.index getHash) s.blockIndex
  status : ∀ (p : BlockPtr) (b b' : CBlockIndex), (file.index getHash)[p]? = some b → s.blockIndex[p]? = some b' →
    b'.status = revalidatedStatus env (file.index getHash) b
  candidates : ∀ q, q ∈ s.candidates ↔ IsValidLeaf s.blockIndex q
  tip : (∀ q, ¬ IsValidLeaf s.blockIndex q) ∧ s.getTip = some file.savedTip ∨
    ∃ best, IsValidLeaf s.blockIndex best ∧
      (∀ q, IsValidLeaf s.blockIndex q → q = best ∨ workBefore s.blockIndex best q = true) ∧ s.getTip = some best

section
variable {getHash : CBlockHeader → Uint256} {params : ConsensusParams} {env : Env} {genesis : BlockPtr}
  {file : HeaderFile} {s s' : ChainstateManager}

theorem CChain.IsPath.links {m m' : BlockMap} {c : CChain} {tip : BlockPtr} (hc : CChain.IsPath m c tip)
    (h : SameLinks m m') : CChain.IsPath m' c tip := by
  refine ⟨by rw [h.rank_eq]; exact hc.length, fun a ha => ?_⟩
  rw [h.pprev_eq] at ha
  rw [h.rank_eq]
  exact hc.entry a ha

/-- The index after the re-validation loop. -/
def HeaderFile.revalidated (getHash : CBlockHeader → Uint256) (env : Env) (file : HeaderFile) : BlockMap :=
  rebuild (revalidateEntry env) (file.relinked getHash).byHeight (file.relinked getHash)

theorem revalidated_links (file : HeaderFile) : SameLinks (file.index getHash) (file.revalidated getHash env) :=
  (relinked_links _ file).trans (sameBy_rebuild links_revalidateEntry _ _)

theorem Loadable.relinked_shape (h : Loadable getHash genesis file) : TreeShape (file.relinked getHash) genesis :=
  h.shape.rebuild links_relink (fun _ _ => rfl)

theorem Loadable.revalidated_tree (h : Loadable getHash genesis file) :
    HeaderTree getHash (file.revalidated getHash env) genesis := by
  refine h.relinked_shape.rebuild_headerTree links_revalidateEntry (fun c b => ?_) (fun c b => ?_) (fun c b => ?_)
    (fun p b hb => ?_) (fun p b hb => ?_)
  · rw [revalidateEntry_eq]
  · rw [revalidateEntry_eq]
  · rw [revalidateEntry_eq]
  · obtain ⟨b', hb', he⟩ := (relinked_links _ file).get hb
    rw [CBlockIndex.of_links he CBlockIndex.getBlockHeader]
    exact h.header_hash p b' hb'
  · obtain ⟨b', hb', he⟩ := (relinked_links _ file).get hb
    rw [CBlockIndex.of_links he CBlockIndex.pprev]
    exact h.prev_ne_null p b' hb'

theorem Loadable.revalidated_status (h : Loadable getHash genesis file) {p : BlockPtr} {b b' : CBlockIndex}
    (hb : (file.index getHash)[p]? = some b) (hb' : (file.revalidated getHash env)[p]? = some b') :
    b'.status = revalidatedStatus env (file.index getHash) b := by
  obtain ⟨c, d, hc, hd, rfl⟩ := rebuild_get links_revalidateEntry h.relinked_shape hb'
  obtain ⟨x, hx, hlinks⟩ := (relinked_links _ file).get hd
  obtain ⟨y, hy, hstatus⟩ := (relinked_status file).get hd
  rw [hb] at hx hy
  cases hx
  cases hy
  rw [revalidateEntry_eq]
  unfold revalidatedStatus
  rw [revalidates_links ((relinked_links _ file).trans hc) hlinks, hstatus]

theorem Loadable.revalidated_valid (h : Loadable getHash genesis file) (p : BlockPtr) (b' : CBlockIndex)
    (hb' : (file.revalidated getHash env)[p]? = some b') : b'.isValid = !b'.isFailed := by
  obtain ⟨b, hb, -⟩ := (revalidated_links file).get hb'
  unfold CBlockIndex.isValid CBlockIndex.isFailed
  rw [h.revalidated_status hb hb', isValid_revalidatedStatus, isFailed_revalidatedStatus]

variable (env) in
theorem Loadable.rebuilt (h : Loadable getHash genesis file) (s : ChainstateManager) : ∃ r,
    ((file.relinked getHash).byHeight.foldl (revalidate env)
      { s with toBlockManager := loadedManager getHash genesis file }).rebuildCandidates = r ∧
    r.blockIndex = file.revalidated getHash env ∧ Wf getHash genesis r ∧
    r.getTip = some file.savedTip ∧ ∀ q, q ∈ r.candidates ↔ IsValidLeaf r.blockIndex q := by
  obtain ⟨failed, hfold⟩ := foldl_revalidate env (file.relinked getHash).byHeight
    { s with toBlockManager := loadedManager getHash genesis file }
  rw [hfold]
  obtain ⟨cs, best, hr, hcs, hsorted⟩ := rebuildCandidates_spec
    { s with
      blockIndex := file.revalidated getHash env
      activeChain := CChain.setTip [] (file.relinked getHash) file.savedTip
      genesisHash := genesis
      initialized := true
      failedBlocks := failed }
  have hpath : CChain.IsPath (file.revalidated getHash env)
      (CChain.setTip [] (file.relinked getHash) file.savedTip) file.savedTip :=
    (CChain.setTip_isPath h.relinked_shape (CChain.coherent_nil _) _).links (sameBy_rebuild links_revalidateEntry _ _)
  exact ⟨_, hr, rfl,
    { tree := h.revalidated_tree
      active := ⟨file.savedTip, (revalidated_links file).mem_iff.mpr h.tipKnown, hpath⟩
      genesisHash := rfl
      initialized := rfl
      valid := h.revalidated_valid
      candidates := fun p hp => mem_of_isValid ((hcs p).mp hp).2
      sorted := hsorted }, hpath.tip_eq, hcs⟩

theorem load_loaded (h : s.load getHash params env file = (s', true)) :
    Loaded getHash env params.hashGenesisBlock file s' := by
  unfold ChainstateManager.load at h
  rcases hl : s.toBlockManager.load getHash file params.hashGenesisBlock with ⟨bm, ok⟩
  rw [hl] at h
  cases ok with
  | false => cases h
  | true =>
    obtain ⟨hload, rfl⟩ := BlockManager.load_true.mp hl
    obtain ⟨r, hr, hindex, W, htip, hcand⟩ := hload.rebuilt env s
    have hs' : s' = r.selectTip := by rw [← hr]; exact (congrArg Prod.fst h).symm
    have hstatus : ∀ (p : BlockPtr) (b b' : CBlockIndex), (file.index getHash)[p]? = some b →
        r.blockIndex[p]? = some b' → b'.status = revalidatedStatus env (file.index getHash) b :=
      fun p b b' hb hb' => hload.revalidated_status hb (hindex ▸ hb')
    have hlinks : SameLinks (file.index getHash) r.blockIndex := hindex ▸ revalidated_links file
    rw [hs']
    rcases selectTip_spec hcand W.sorted with ⟨hnil, hsel⟩ | ⟨best, hbest, hfirst, hsel⟩
    · rw [hsel]
      refine ⟨hload, W, hlinks, hstatus, hcand, .inl ⟨fun q hq => ?_, htip⟩⟩
      have := (hcand q).mpr hq
      rw [hnil] at this
      cases this
    · rw [hsel]
      split
      · rename_i ht
        exact ⟨hload, W, hlinks, hstatus, hcand, .inr ⟨best, hbest, hfirst, ht⟩⟩
      · have hpath := CChain.setTip_isPath W.tree.toTreeShape ((W.isPath htip).coherent W.tree.toTreeShape) best
        exact ⟨hload, W.withChain (mem_of_isValid hbest.2) hpath, hlinks, hstatus, hcand,
          .inr ⟨best, hbest, hfirst, hpath.tip_eq⟩⟩

theorem load_of_loadable (h : Loadable getHash params.hashGenesisBlock file) :
    ∃ s', s.load getHash params env file = (s', true) := by
  unfold ChainstateManager.load
  rw [(BlockManager.load_true (s := s.toBlockManager)).mpr ⟨h, rfl⟩]
  exact ⟨_, rfl⟩

/-! ## Reading the loaded statuses off the file -/

theorem Loaded.isFailed (h : Loaded getHash env genesis file s) (p : BlockPtr) :
    s.blockIndex.isFailed p = file.fails getHash env p := by
  unfold HeaderFile.fails
  cases hb : (file.index getHash)[p]? with
  | none =>
    have : p ∉ s.blockIndex := fun hp => by simpa [hb] using BlockMap.mem_iff.mp (h.links.mem_iff.mp hp)
    unfold BlockMap.isFailed
    rw [get_of_notMem this]
    rfl
  | some b =>
    obtain ⟨b', hb', -⟩ := h.links.symm.get hb
    rw [isFailed_of_get hb', CBlockIndex.isFailed, h.status p b b' hb hb', isFailed_revalidatedStatus]
    rfl

theorem Loaded.isValid (h : Loaded getHash env genesis file s) {p : BlockPtr} (hp : p ∈ file.index getHash) :
    s.blockIndex.isValid p = true ↔ file.fails getHash env p = false := by
  rw [h.wf.isValid_iff (h.links.mem_iff.mpr hp), h.isFailed]

end

end UnicityPow
