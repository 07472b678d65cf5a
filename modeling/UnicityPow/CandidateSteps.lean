import UnicityPow.InvalidateSound
import UnicityPow.LoadedState
import UnicityPow.LoadStages
import UnicityPow.SetupSound
import UnicityPow.SkipSound

/-!
# The order of the candidates

The candidate set is ordered by fields of the blocks themselves. No call but `Load` writes these
fields of a block that is in the index, in any state, also one that a failed `Load` has left; `Load`
writes them while the set still has its members, unless it had none.
-/

namespace UnicityPow

open BlockMap

namespace ChainstateManager

/-- The candidates are blocks of the index in its order, and parents are blocks of the index. -/
structure Ordered (s : ChainstateManager) : Prop where
  known : ∀ p ∈ s.candidates, p ∈ s.blockIndex
  sorted : OrderedSet.Sorted (workBefore s.blockIndex) s.candidates
  parents : ∀ p q, s.blockIndex.pprev p = some q → q ∈ s.blockIndex

/-- A step from an ordered state: the next one is ordered, and no block that was in the index has
another parent, height or work. -/
def Keeps (s s' : ChainstateManager) : Prop := s.Ordered → Extends s.blockIndex s'.blockIndex ∧ s'.Ordered

section
variable {s s' s'' : ChainstateManager} {p q : BlockPtr}

theorem Keeps.refl (s : ChainstateManager) : Keeps s s := fun h => ⟨.refl _, h⟩

theorem Keeps.trans (h : Keeps s s') (h' : Keeps s' s'') : Keeps s s'' := fun hs => by
  obtain ⟨hext, hs'⟩ := h hs
  obtain ⟨hext', hs''⟩ := h' hs'
  exact ⟨hext.trans hext', hs''⟩

/-! ## Changes of one part -/

/-- A call that leaves the index alone and adds no candidate. -/
theorem Keeps.of_frame (hindex : s'.blockIndex = s.blockIndex) (hcand : s'.candidates.Sublist s.candidates) :
    Keeps s s' := fun h => by
  refine ⟨hindex ▸ .refl _, fun p hp => ?_, ?_, ?_⟩
  · rw [hindex]
    exact h.known p (hcand.subset hp)
  · rw [hindex]
    exact h.sorted.sublist hcand
  · rw [hindex]
    exact h.parents

theorem Keeps.of_core (hcore : SameCore s.blockIndex s'.blockIndex) (hcand : s'.candidates = s.candidates) :
    Keeps s s' := fun h => by
  have hext := hcore.toExtends
  refine ⟨hext, fun p hp => ?_, ?_, fun p q hq => ?_⟩
  · exact hext.mem p (h.known p (hcand ▸ hp))
  · rw [hcand]
    exact sorted_extends hext h.known h.sorted
  · rw [hcore.pprev_eq] at hq
    exact hext.mem q (h.parents p q hq)

theorem keeps_addUnchecked (hp : p ∈ s.blockIndex) : Keeps s (s.addUnchecked p) := fun h => by
  refine ⟨.refl _, fun q hq => ?_, h.sorted.insert (workBefore_strictTotal _), h.parents⟩
  rcases mem_addUnchecked.mp hq with rfl | hq
  · exact hp
  · exact h.known q hq

theorem keeps_foldl_addUnchecked : ∀ (l : List BlockPtr) (s : ChainstateManager), (∀ p ∈ l, p ∈ s.blockIndex) →
    Keeps s (l.foldl addUnchecked s)
  | [], s, _ => .refl s
  | p :: l, s, hl => (keeps_addUnchecked (hl p List.mem_cons_self)).trans
      (keeps_foldl_addUnchecked l (s.addUnchecked p) fun q hq => hl q (List.mem_cons_of_mem p hq))

theorem keeps_dropCandidate (s : ChainstateManager) (p : BlockPtr) : Keeps s (s.dropCandidate p) :=
  .of_frame rfl List.filter_sublist

theorem keeps_foldl_dropCandidate (l : List BlockPtr) (s : ChainstateManager) : Keeps s (l.foldl dropCandidate s) :=
  List.foldlRecOn (motive := fun r => Keeps s r) l _ (.refl s) fun r hr p _ => hr.trans (keeps_dropCandidate r p)

theorem keeps_tryAddCandidate (s : ChainstateManager) (p : BlockPtr) : Keeps s (s.tryAddCandidate p) := fun h => by
  have hlt := workBefore_strictTotal s.blockIndex
  refine ⟨.refl _, fun q hq => ?_, ?_, h.parents⟩
  · rw [mem_tryAddCandidate] at hq
    split at hq
    · rename_i hv
      rcases hq with rfl | ⟨hq, -⟩
      · exact mem_of_isValid hv.1
      · exact h.known q hq
    · exact h.known q hq
  · unfold tryAddCandidate
    dsimp only
    rcases tryAdd_spec s.toChainSelector s.blockIndex p with ⟨-, he⟩ | ⟨-, -, l, he, hs, -⟩
    · rw [he]
      exact h.sorted
    · rw [he]
      exact (hs h.sorted).insert hlt

theorem keeps_resolveCandidate (s : ChainstateManager) (given : Option BlockPtr) :
    Keeps s (s.resolveCandidate given).1 := by
  cases given with
  | some p => exact .refl s
  | none =>
    obtain ⟨l, he, hsub, -⟩ := resolveCandidate_spec s
    rw [he]
    exact .of_frame rfl hsub

/-! ## New blocks -/

variable {getHash : CBlockHeader → Uint256} {params : ConsensusParams} {env : Env}

theorem keeps_insert {b : CBlockIndex} (hp : p ∉ s.blockIndex)
    (hb : ∀ q, b.pprev = some q → q ∈ s.blockIndex.insert p b)
    (hindex : s'.blockIndex = s.blockIndex.insert p b) (hcand : s'.candidates = s.candidates) : Keeps s s' :=
    fun h => by
  have hext := extends_insert b hp
  rw [← hindex] at hext
  refine ⟨hext, fun q hq => ?_, ?_, fun r q hq => ?_⟩
  · exact hext.mem q (h.known q (hcand ▸ hq))
  · rw [hcand]
    exact sorted_extends hext h.known h.sorted
  · rw [hindex] at hq ⊢
    by_cases hr : r = p
    · subst hr
      exact hb q (by rwa [pprev_of_get Std.ExtTreeMap.getElem?_insert_self] at hq)
    · have hold : BlockMap.pprev (s.blockIndex.insert p b) r = s.blockIndex.pprev r := by
        unfold BlockMap.pprev
        rw [getElem?_insert_ne _ _ (Ne.symm hr)]
      rw [hold] at hq
      exact hindex ▸ hext.mem q (h.parents r q hq)

theorem pprev_newIndex (m : BlockMap) (header : CBlockHeader) (prev : Option BlockPtr) :
    (BlockManager.newIndex m header prev).pprev = prev := by
  unfold BlockManager.newIndex
  cases prev <;> exact CBlockIndex.of_links (links_buildSkip _ _) CBlockIndex.pprev

variable (getHash) in
/-- A new block has its parent in the index, or none; one without its parent is taken out again. -/
theorem keeps_addToBlockIndex (s : ChainstateManager) (header : CBlockHeader) :
    Keeps s { s with toBlockManager := (s.addToBlockIndex getHash header).1 } ∧
      ∀ p, (s.addToBlockIndex getHash header).2 = some p → p ∈ (s.addToBlockIndex getHash header).1.blockIndex := by
  unfold BlockManager.addToBlockIndex
  dsimp only
  split
  · rename_i hold
    exact ⟨.refl s, fun p hp => Option.some.inj hp ▸ hold⟩
  rename_i hnew
  split
  · rename_i hprev
    refine ⟨keeps_insert hnew (fun q hq => ?_) (insert_insert _ _) rfl, fun p hp => ?_⟩
    · rw [pprev_newIndex] at hq
      cases hq
      rw [mem_insert] at hprev ⊢
      exact hprev
    · exact mem_insert.mpr (.inl (Option.some.inj hp).symm)
  split
  · exact ⟨.of_frame (erase_insert _ hnew) (List.Sublist.refl _), fun p hp => nomatch hp⟩
  · refine ⟨keeps_insert hnew (fun q hq => ?_) (insert_insert _ _) rfl, fun p hp => ?_⟩
    · rw [pprev_newIndex] at hq
      cases hq
    · exact mem_insert.mpr (.inl (Option.some.inj hp).symm)

/-! ## Accepting headers -/

theorem markPath_core (failedit : BlockPtr) : ∀ (fuel : Nat) (m : BlockMap) (walk : BlockPtr),
    SameCore m (markPath failedit fuel m walk)
  | 0, m, walk => .refl _ m
  | fuel + 1, m, walk => by
    unfold markPath
    split
    · exact .refl _ m
    have hmark : SameCore m (m.modify walk (fun b => { b with status := b.status.markAncestorFailed })) :=
      .modify m walk _ fun _ => rfl
    dsimp only
    split
    · exact hmark.trans (markPath_core failedit fuel _ _)
    · exact hmark

theorem keeps_registerHeader (s : ChainstateManager) (p : BlockPtr) : Keeps s (registerHeader params env s p) := by
  rw [registerHeader_frame]
  exact .of_core (.modify _ _ _ fun _ => rfl) rfl

variable (getHash params env) in
theorem keeps_acceptOne (s : ChainstateManager) (header : CBlockHeader) (minPow : Bool) :
    Keeps s (s.acceptOne getHash params env header minPow).1 ∧
      ∀ p, (s.acceptOne getHash params env header minPow).2 = .known p ∨
        (s.acceptOne getHash params env header minPow).2 = .inserted p →
        p ∈ (s.acceptOne getHash params env header minPow).1.blockIndex := by
  unfold acceptOne
  dsimp only
  split
  · rename_i b hb
    split
    · exact ⟨.refl s, fun p hp => by rcases hp with h | h <;> cases h⟩
    · refine ⟨.refl s, fun p hp => ?_⟩
      rcases hp with h | h
      · cases h
        exact mem_of_get hb
      · cases h
  have hrefused : ∀ (t : ChainstateManager) (state : ValidationState) (p : BlockPtr),
      (HeaderStep.refused state = .known p ∨ HeaderStep.refused state = .inserted p) → p ∈ t.blockIndex := by
    rintro t state p (h | h) <;> cases h
  split
  · exact ⟨.refl s, hrefused s _⟩
  split
  · split <;> exact ⟨.refl s, hrefused s _⟩
  split
  · exact ⟨.refl s, hrefused s _⟩
  split
  · exact ⟨.refl s, hrefused s _⟩
  split
  · exact ⟨.of_core (markPath_core _ _ _ _) rfl, hrefused _ _⟩
  split
  · exact ⟨.refl s, hrefused s _⟩
  split
  · exact ⟨.refl s, hrefused s _⟩
  split
  · exact ⟨.refl s, hrefused s _⟩
  have hadd := keeps_addToBlockIndex getHash s header
  generalize s.addToBlockIndex getHash header = r at hadd ⊢
  obtain ⟨bm, _ | p⟩ := r
  · exact ⟨hadd.1, hrefused _ _⟩
  · refine ⟨hadd.1.trans (keeps_registerHeader _ p), fun q hq => ?_⟩
    rcases hq with h | h
    · cases h
    · cases h
      dsimp only
      rw [registerHeader_frame]
      exact Std.ExtTreeMap.mem_modify.mpr (hadd.2 p rfl)

variable (getHash params env) in
theorem keeps_acceptBlockHeader (s : ChainstateManager) (header : CBlockHeader) (minPow : Bool) :
    Keeps s (s.acceptBlockHeader getHash params env header minPow).1 :=
  acceptBlockHeader_induct (fun _ _ _ h => h.trans (.of_frame rfl (List.Sublist.refl _)))
    (fun r header minPow h => h.trans (keeps_acceptOne getHash params env r header minPow).1) (.refl s) header
    minPow

theorem keeps_acceptAndTryAdd (s : ChainstateManager) (header : CBlockHeader) (minPow : Bool) :
    Keeps s (s.acceptAndTryAdd getHash params env header minPow) := by
  have h := keeps_acceptBlockHeader getHash params env s header minPow
  unfold acceptAndTryAdd
  generalize s.acceptBlockHeader getHash params env header minPow = r at h ⊢
  obtain ⟨s', _ | p⟩ := r
  · exact h
  · exact h.trans (keeps_tryAddCandidate s' p)

/-! ## Moving the tip -/

theorem disconnectTip_blockIndex {bm : BlockManager} {r : BlockManager × Notification}
    (h : bm.disconnectTip = some r) : r.1.blockIndex = bm.blockIndex := by
  unfold BlockManager.disconnectTip at h
  split at h
  · cases h
  split at h
  · cases h
  · cases h
    rfl

theorem disconnectTo_blockIndex (f : BlockPtr) : ∀ (fuel : Nat) (bm : BlockManager) (events : List Notification),
    (bm.disconnectTo f fuel events).1.blockIndex = bm.blockIndex
  | 0, bm, events => rfl
  | fuel + 1, bm, events => by
    unfold BlockManager.disconnectTo
    split
    · rfl
    split
    · rfl
    cases hd : bm.disconnectTip with
    | none => rfl
    | some r =>
      dsimp only
      rw [disconnectTo_blockIndex f fuel r.1]
      exact disconnectTip_blockIndex hd

theorem connectAll_blockIndex (bm : BlockManager) (events : List Notification) (blocks : List BlockPtr) :
    (bm.connectAll events blocks).1.blockIndex = bm.blockIndex := by
  let P (r : BlockManager × List Notification) : Prop := r.1.blockIndex = bm.blockIndex
  exact List.foldlRecOn (motive := P) blocks _ rfl fun _ hr _ _ => hr

variable (params) in
/-- Pruning only takes candidates out; a disconnection that fails takes out none. -/
theorem keeps_switchTip (s : ChainstateManager) (fork : Option BlockPtr) (p : BlockPtr) :
    Keeps s (switchTip params s fork p).state := by
  have hprune (bm : BlockManager) :
      (s.toChainSelector.pruneBlockIndexCandidates bm).candidates.Sublist s.candidates := by
    unfold ChainSelector.pruneBlockIndexCandidates
    split
    · exact List.Sublist.refl _
    · exact List.filter_sublist
  unfold switchTip
  cases fork with
  | none => exact .of_frame (connectAll_blockIndex _ _ _) (hprune _)
  | some f =>
    have hback := disconnectTo_blockIndex f s.activeChain.length s.toBlockManager []
    dsimp only
    generalize s.toBlockManager.disconnectTo f s.activeChain.length [] = r at hback ⊢
    obtain ⟨bm, events, _ | _⟩ := r
    · exact .of_frame hback (List.Sublist.refl _)
    · exact .of_frame ((connectAll_blockIndex bm _ _).trans hback) (hprune _)

variable (params) in
theorem keeps_activateBestChainStep (s : ChainstateManager) (p : BlockPtr) :
    Keeps s (activateBestChainStep params s p).state := by
  unfold activateBestChainStep
  split
  · exact keeps_switchTip params s none p
  split
  · exact .refl s
  split
  · exact .refl s
  split
  · exact .refl s
  split
  · exact .refl s
  · exact keeps_switchTip params s _ p

theorem keeps_failCandidate (s : ChainstateManager) (p : BlockPtr) : Keeps s (s.failCandidate p) := by
  have hmark : Keeps s { s with
      blockIndex := s.blockIndex.modify p fun b => { b with status := b.status.markFailed }
      failedBlocks := s.failedBlocks.insert p } :=
    .of_core (.modify _ _ _ fun _ => rfl) rfl
  exact hmark.trans (keeps_dropCandidate _ p)

theorem keeps_activateLoop : ∀ (fuel : Nat) (s : ChainstateManager) (given : Option BlockPtr)
    (sent : List Notification), Keeps s (activateLoop params fuel s given sent).1
  | 0, s, given, sent => .refl s
  | fuel + 1, s, given, sent => by
    have hfirst := keeps_resolveCandidate s given
    unfold activateLoop
    generalize s.resolveCandidate given = r at hfirst ⊢
    obtain ⟨s', _ | p⟩ := r
    · exact hfirst
    dsimp only at hfirst ⊢
    split
    · exact hfirst
    split
    · exact hfirst
    have hstep := hfirst.trans (keeps_activateBestChainStep params s' p)
    split
    · exact hstep
    · exact (hstep.trans (keeps_dropCandidate _ p)).trans (keeps_activateLoop fuel _ none _)
    · exact (hstep.trans (keeps_failCandidate _ p)).trans (keeps_activateLoop fuel _ none _)
    · exact hstep

theorem keeps_activateBestChain (s : ChainstateManager) (given : Option BlockPtr) :
    Keeps s (activateBestChain params s given).1 :=
  keeps_activateLoop _ s given []

theorem keeps_processNewBlockHeader (s : ChainstateManager) (header : CBlockHeader) (minPow : Bool) :
    Keeps s (processNewBlockHeader params getHash env s header minPow).1 := by
  have h := keeps_acceptBlockHeader getHash params env s header minPow
  unfold processNewBlockHeader
  generalize s.acceptBlockHeader getHash params env header minPow = r at h ⊢
  obtain ⟨s', _ | p⟩ := r
  · exact h
  · exact (h.trans (keeps_tryAddCandidate s' p)).trans (keeps_activateBestChain _ none)

/-! ## Invalidation -/

/-- A round adds the parent of the old tip and blocks that `InvalidateBlock` has found in the index. -/
theorem keeps_disconnectRound {d : Disconnection} {bm : BlockManager} (tip : BlockPtr) (e : Notification)
    (hbm : bm.blockIndex = d.state.blockIndex) (hforks : ∀ p ∈ d.forks, p ∈ d.state.blockIndex) :
    Keeps d.state (disconnectRound d tip bm e).state ∧
      (disconnectRound d tip bm e).state.blockIndex = d.state.blockIndex ∧
      ∀ p ∈ (disconnectRound d tip bm e).forks, p ∈ d.state.blockIndex := by
  have hdrop : Keeps d.state (dropCandidate { d.state with toBlockManager := bm } tip) :=
    .of_frame hbm List.filter_sublist
  unfold disconnectRound
  dsimp only
  split
  · exact ⟨hdrop, hbm, hforks⟩
  rename_i q hq
  have hindex : (dropCandidate { d.state with toBlockManager := bm } tip).blockIndex = d.state.blockIndex := hbm
  generalize dropCandidate { d.state with toBlockManager := bm } tip = s at hdrop hq hindex ⊢
  obtain ⟨c, hadd, -⟩ := foldl_addUnchecked (d.forks.filter (viable s.blockIndex q)) (s.addUnchecked q)
  refine ⟨fun h => ?_, by rw [hadd]; exact hindex, fun p hp => hforks p (List.mem_filter.mp hp).1⟩
  obtain ⟨-, hs⟩ := hdrop h
  refine (hdrop.trans ((keeps_addUnchecked (hs.parents tip q hq)).trans (keeps_foldl_addUnchecked _ _ ?_))) h
  intro p hp
  exact (hindex ▸ hforks p (List.mem_filter.mp hp).1 : p ∈ s.blockIndex)

theorem keeps_disconnectLoop (pindex : BlockPtr) : ∀ (fuel : Nat) (d : Disconnection),
    (∀ p ∈ d.forks, p ∈ d.state.blockIndex) → Keeps d.state (disconnectLoop pindex fuel d).1.state
  | 0, d, _ => .refl d.state
  | fuel + 1, d, hforks => by
    unfold disconnectLoop
    split
    · exact .refl d.state
    rename_i tip _
    split
    · exact .refl d.state
    cases hd : d.state.toBlockManager.disconnectTip with
    | none => exact .refl d.state
    | some r =>
      obtain ⟨hround, hindex, hleft⟩ := keeps_disconnectRound tip r.2 (disconnectTip_blockIndex hd) hforks
      exact hround.trans (keeps_disconnectLoop pindex fuel _ (by rwa [hindex]))

theorem keeps_markInvalid (s : ChainstateManager) (pindex : BlockPtr) : Keeps s (s.markInvalid pindex) := by
  have hmark : Keeps s { s with
      blockIndex := s.blockIndex.map (markEntry s.blockIndex pindex)
      failedBlocks := (s.blockIndex.keys.filter (descendsFrom s.blockIndex pindex)).foldl (fun l p => l.insert p)
        (s.failedBlocks.insert pindex) } :=
    .of_core (.map _ _ (markEntry_core _ _)) rfl
  exact (hmark.trans (keeps_dropCandidate _ pindex)).trans (keeps_foldl_dropCandidate _ _)

theorem keeps_addValidLeaves (s : ChainstateManager) : Keeps s s.addValidLeaves := by
  unfold addValidLeaves
  split
  · exact .refl s
  · exact keeps_foldl_addUnchecked _ s fun p hp => Std.ExtTreeMap.mem_keys.mp (List.mem_filter.mp hp).1

theorem mem_of_competingForks {pindex p : BlockPtr} (hp : p ∈ s.competingForks pindex) : p ∈ s.blockIndex := by
  unfold competingForks at hp
  split at hp
  · cases hp
  · exact Std.ExtTreeMap.mem_keys.mp (List.mem_filter.mp hp).1

theorem keeps_invalidateBlock (s : ChainstateManager) (hash : Uint256) : Keeps s (s.invalidateBlock hash).1 := by
  unfold invalidateBlock
  split
  · exact .refl s
  split
  · exact .refl s
  have hloop : Keeps s (disconnectLoop hash (s.activeChain.length + 1)
      { state := s, forks := s.competingForks hash }).1.state :=
    keeps_disconnectLoop hash _ { state := s, forks := s.competingForks hash } fun p hp => mem_of_competingForks hp
  generalize disconnectLoop hash (s.activeChain.length + 1) { state := s, forks := s.competingForks hash } = r
    at hloop ⊢
  obtain ⟨d, ok⟩ := r
  dsimp only at hloop ⊢
  split
  · exact hloop
  split
  · exact hloop
  · exact (hloop.trans (keeps_markInvalid d.state hash)).trans (keeps_addValidLeaves _)

/-! ## Setup -/

theorem addToBlockIndex_hash {bm : BlockManager} {header : CBlockHeader}
    (h : (bm.addToBlockIndex getHash header).2 = some p) : p = getHash header := by
  unfold BlockManager.addToBlockIndex at h
  dsimp only at h
  split at h
  · exact (Option.some.inj h).symm
  split at h
  · exact (Option.some.inj h).symm
  split at h
  · cases h
  · exact (Option.some.inj h).symm

/-- A block that is its own root has height zero. -/
theorem nHeight_of_verify {m : BlockMap} (h : verifyChainContinuity m p p = true) : m.nHeight p = 0 := by
  unfold verifyChainContinuity at h
  split at h
  · cases h
  · rename_i walk n _
    simp only [Bool.and_eq_true, beq_iff_eq] at h
    exact h.1.1 ▸ h.1.2

variable (getHash) in
/-- A setup that succeeds has verified that its block is a root, which is then the tip. -/
theorem keeps_initializeWith (s : ChainstateManager) (genesis : CBlockHeader) :
    Keeps s { s with toBlockManager := (s.initializeWith getHash genesis).1 } ∧
      ((s.initializeWith getHash genesis).2 = true → ∃ p ∈ (s.initializeWith getHash genesis).1.blockIndex,
        (s.initializeWith getHash genesis).1.getTip = some p) := by
  have hadd := keeps_addToBlockIndex getHash s genesis
  have hhash (p : BlockPtr) : (s.addToBlockIndex getHash genesis).2 = some p → p = getHash genesis :=
    addToBlockIndex_hash
  unfold BlockManager.initializeWith
  split
  · exact ⟨.refl s, fun h => nomatch h⟩
  generalize s.addToBlockIndex getHash genesis = r at hadd hhash ⊢
  obtain ⟨bm, _ | p⟩ := r
  · exact ⟨hadd.1, fun h => nomatch h⟩
  obtain ⟨hkeeps, hmem⟩ := hadd
  dsimp only at hkeeps ⊢
  have hsame (t : ChainstateManager) (hi : t.blockIndex = bm.blockIndex) (hc : t.candidates = s.candidates) :
      Keeps s t :=
    hkeeps.trans (.of_frame hi (hc ▸ List.Sublist.refl _))
  split
  · rename_i hverify
    refine ⟨hsame _ rfl rfl, fun _ => ⟨p, hmem p rfl, ?_⟩⟩
    rw [← hhash p rfl] at hverify
    have hheight : bm.blockIndex.nHeight p = 0 := nHeight_of_verify hverify
    change (bm.activeChain.setTip bm.blockIndex p).tip = some p
    rw [setTip_root _ hheight]
    rfl
  · exact ⟨hsame _ rfl rfl, fun h => nomatch h⟩

theorem keeps_setup (s : ChainstateManager) (genesis : CBlockHeader) : Keeps s (s.setup getHash genesis).1 := by
  have hinit := keeps_initializeWith getHash s genesis
  unfold setup
  generalize s.initializeWith getHash genesis = r at hinit ⊢
  obtain ⟨bm, _ | _⟩ := r
  · exact hinit.1
  obtain ⟨hkeeps, htip⟩ := hinit
  obtain ⟨p, hp, htip⟩ := htip rfl
  dsimp only at hkeeps hp htip ⊢
  rw [htip]
  have hraise : Keeps { s with toBlockManager := bm } { s with
      toBlockManager := { bm with
        blockIndex := bm.blockIndex.modify p fun b =>
          { b with status := b.status.raiseValidity ValidationLevel.TREE } } } :=
    .of_core (.modify _ _ _ fun _ => rfl) rfl
  have hadd := (hkeeps.trans hraise).trans (keeps_addUnchecked (Std.ExtTreeMap.mem_modify.mpr hp))
  dsimp only
  exact hadd.trans (.of_frame rfl (List.Sublist.refl _))

end

end ChainstateManager

end UnicityPow
