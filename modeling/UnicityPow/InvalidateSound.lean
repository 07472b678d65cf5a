import UnicityPow.ActivateSound

/-!
# The effect of `InvalidateBlock`

The disconnect loop ends at the parent of an invalidated block of the active chain, the
block and its descendants become failed, and no other entry changes.
-/

namespace UnicityPow

open Forest BlockMap StackLog

/-! ## Sequences of candidate changes -/

section
variable {getHash : CBlockHeader → Uint256} {genesis : BlockPtr} {s : ChainstateManager}

@[simp] theorem dropCandidate_blockIndex (s : ChainstateManager) (p : BlockPtr) :
    (s.dropCandidate p).blockIndex = s.blockIndex := rfl

theorem foldl_addUnchecked (l : List BlockPtr) (s : ChainstateManager) :
    ∃ c, l.foldl ChainstateManager.addUnchecked s = { s with candidates := c } ∧
      ∀ x, x ∈ c ↔ x ∈ l ∨ x ∈ s.candidates := by
  induction l generalizing s with
  | nil => exact ⟨s.candidates, rfl, by simp⟩
  | cons p l ih =>
    obtain ⟨c, hc, hmem⟩ := ih (s.addUnchecked p)
    refine ⟨c, hc, fun x => ?_⟩
    rw [hmem, mem_addUnchecked, List.mem_cons]
    tauto

theorem foldl_dropCandidate (l : List BlockPtr) (s : ChainstateManager) :
    ∃ c, l.foldl ChainstateManager.dropCandidate s = { s with candidates := c } ∧
      ∀ x, x ∈ c ↔ x ∈ s.candidates ∧ x ∉ l := by
  induction l generalizing s with
  | nil => exact ⟨s.candidates, rfl, by simp⟩
  | cons p l ih =>
    obtain ⟨c, hc, hmem⟩ := ih (s.dropCandidate p)
    refine ⟨c, hc, fun x => ?_⟩
    rw [hmem, mem_dropCandidate, List.mem_cons]
    tauto

theorem Wf.foldl_addUnchecked (W : Wf getHash genesis s) {l : List BlockPtr} (hl : ∀ p ∈ l, p ∈ s.blockIndex) :
    Wf getHash genesis (l.foldl ChainstateManager.addUnchecked s) := by
  induction l generalizing s with
  | nil => exact W
  | cons p l ih => exact ih (W.addUnchecked (hl p (by simp))) (fun q hq => hl q (by simp [hq]))

theorem Wf.foldl_dropCandidate (W : Wf getHash genesis s) (l : List BlockPtr) :
    Wf getHash genesis (l.foldl ChainstateManager.dropCandidate s) := by
  induction l generalizing s with
  | nil => exact W
  | cons p l ih => exact ih (W.dropCandidate p)

/-! ## The disconnect loop -/

theorem disconnectRound_spec (W : Wf getHash genesis s) {t q : BlockPtr} {c : CChain} {forks : List BlockPtr}
    (events : List Notification) (hforks : ∀ p ∈ forks, p ∈ s.blockIndex) (hq : s.blockIndex.pprev t = some q)
    (hc : CChain.IsPath s.blockIndex c q) (e : Notification) :
    ∃ cands forks', ChainstateManager.disconnectRound ⟨s, forks, events⟩ t
        { s.toBlockManager with activeChain := c } e =
          ⟨{ s with activeChain := c, candidates := cands }, forks', events ++ [e]⟩ ∧
      Wf getHash genesis { s with activeChain := c, candidates := cands } ∧
      (∀ p ∈ forks', p ∈ forks) ∧
      (∀ x, x ∈ cands ↔ (x ∈ forks ∧ s.blockIndex.nChainWork q ≤ s.blockIndex.nChainWork x) ∨ x = q ∨
        x ∈ s.candidates ∧ x ≠ t) ∧
      ∀ x ∈ forks, x ∈ forks' ∨ x ∈ cands := by
  have hqm := W.tree.toTreeShape.mem_parent hq
  have W1 := (W.withChain hqm hc).dropCandidate t
  have W2 := W1.addUnchecked hqm
  have W3 := W2.foldl_addUnchecked (l := forks.filter (ChainstateManager.viable s.blockIndex q))
    (fun p hp => hforks p (List.mem_of_mem_filter hp))
  obtain ⟨cands, hadd, hmem⟩ := foldl_addUnchecked (forks.filter (ChainstateManager.viable s.blockIndex q))
    (ChainstateManager.addUnchecked (ChainstateManager.dropCandidate { s with activeChain := c } t) q)
  rw [hadd] at W3
  refine ⟨cands, forks.filter (fun p => !ChainstateManager.viable s.blockIndex q p), ?_, W3,
    fun p hp => List.mem_of_mem_filter hp, ?_, ?_⟩
  · unfold ChainstateManager.disconnectRound
    simp only [dropCandidate_blockIndex, hq]
    exact congrArg (fun st => ChainstateManager.Disconnection.mk st _ _) hadd
  · intro x
    rw [hmem, mem_addUnchecked, mem_dropCandidate, List.mem_filter, ChainstateManager.viable, decide_eq_true_iff]
  · intro x hx
    by_cases h : ChainstateManager.viable s.blockIndex q x = true
    · exact .inr ((hmem x).mpr (.inl (List.mem_filter.mpr ⟨hx, h⟩)))
    · exact .inl (List.mem_filter.mpr ⟨hx, by simpa using h⟩)

theorem disconnectLoop_stop {hash : BlockPtr} {d : ChainstateManager.Disconnection}
    (h : d.state.activeChain.contains d.state.blockIndex hash = false) (fuel : Nat) :
    ChainstateManager.disconnectLoop hash fuel d = (d, true) := by
  cases fuel with
  | zero => rfl
  | succ fuel =>
    unfold ChainstateManager.disconnectLoop
    split
    · rfl
    · rw [h]
      rfl

/-- What the loop leaves of the candidates `old`: those that do not descend from `hash`, its parent `q`
and forks. -/
structure LoopCandidates (m : BlockMap) (hash q : BlockPtr) (forks old cands : List BlockPtr) : Prop where
  kept : ∀ x ∈ old, ¬ Anc m.pprev hash x → x ∈ cands
  parent : q ∈ cands
  only : ∀ x ∈ cands, x ∈ old ∨ x = q ∨ Anc m.pprev hash x ∨ x ∈ forks

/-- From a tip above `hash` the loop cuts the chain back to the parent of `hash`. The forks
with at least the parent's work end up among the candidates. -/
theorem disconnectLoop_spec {hash q : BlockPtr} : ∀ (fuel : Nat) (s : ChainstateManager)
    (forks : List BlockPtr) (events : List Notification) (t : BlockPtr), Wf getHash genesis s →
      (∀ p ∈ forks, p ∈ s.blockIndex) → s.getTip = some t → s.blockIndex.pprev hash = some q →
      Anc s.blockIndex.pprev hash t → s.blockIndex.rank t < fuel + s.blockIndex.rank hash →
      ∃ c cands forks' l es, ChainstateManager.disconnectLoop hash fuel ⟨s, forks, events⟩ =
          (⟨{ s with activeChain := c, candidates := cands }, forks', events ++ es⟩, true) ∧
        CChain.IsPath s.blockIndex c q ∧ Segment s.blockIndex.pprev q l t ∧ blockEdits es = pops l ∧
        Wf getHash genesis { s with activeChain := c, candidates := cands } ∧
        (∀ x, ¬ Anc s.blockIndex.pprev x t →
          (x ∈ s.candidates ∨ x ∈ forks ∧ s.blockIndex.nChainWork q ≤ s.blockIndex.nChainWork x) → x ∈ cands) ∧
        LoopCandidates s.blockIndex hash q forks s.candidates cands := by
  intro fuel
  induction fuel with
  | zero =>
    intro s forks events t W _ _ _ hanc hk
    have := hanc.rank_le W.tree.toTreeShape.ranked
    omega
  | succ fuel ih =>
    intro s forks events t W hforks ht hq hanc hk
    have T := W.tree.toTreeShape
    obtain ⟨r, hr⟩ : ∃ r, s.blockIndex.pprev t = some r := by
      rcases anc_iff.mp hanc with rfl | ⟨r, hr, -⟩
      · exact ⟨q, hq⟩
      · exact ⟨r, hr⟩
    obtain ⟨c, hd, hc⟩ := disconnectTip_path T s.toBlockManager rfl (W.isPath ht) hr
    obtain ⟨cands, forks', hround, W1, hsub, hcands, hsplit⟩ :=
      disconnectRound_spec W events hforks hr hc (.blockDisconnected (s.headerOf t) t)
    unfold ChainstateManager.disconnectLoop
    simp only [ht, (W.contains_iff ht).mpr hanc, Bool.not_true, Bool.false_eq_true, if_false, hd, hround]
    by_cases hth : hash = t
    · -- the round that took out `hash` itself is the last one
      subst hth
      rw [hr] at hq
      cases hq
      refine ⟨c, cands, forks', [hash], [.blockDisconnected (s.headerOf hash) hash], disconnectLoop_stop ?_ fuel,
        hc, .snoc .nil hr, rfl, W1, ?_, ?_⟩
      · rw [← Bool.not_eq_true]
        intro hcon
        have := ((hc.contains_iff T).mp hcon).rank_le T.ranked
        have := T.ranked _ _ hr
        omega
      · intro x hx hmem
        rw [hcands]
        rcases hmem with hmem | hmem
        · exact .inr (.inr ⟨hmem, fun e => hx (e ▸ .refl)⟩)
        · exact .inl hmem
      · refine ⟨fun x hx hna => (hcands x).mpr (.inr (.inr ⟨hx, fun e => hna (e ▸ .refl)⟩)),
          (hcands q).mpr (.inr (.inl rfl)), fun x hx => ?_⟩
        rcases (hcands x).mp hx with h | h | h
        · exact .inr (.inr (.inr h.1))
        · exact .inr (.inl h)
        · exact .inl h.1
    · have hrank := T.ranked t r hr
      have hancr : Anc s.blockIndex.pprev hash r := by
        rcases (anc_child hr).mp hanc with h | h
        · exact absurd h hth
        · exact h
      obtain ⟨c', cands', forks'', l, es, hloop, hc', hl, hes, W2, hmem', hleft⟩ :=
        ih { s with activeChain := c, candidates := cands } forks' (events ++ [.blockDisconnected (s.headerOf t) t])
          r W1 (fun p hp => hforks p (hsub p hp)) hc.tip_eq hq hancr (by simp only; omega)
      rw [← List.append_cons] at hloop
      have hes' : blockEdits (.blockDisconnected (s.headerOf t) t :: es) = pops (l ++ [t]) := by
        rw [pops_concat, ← hes]
        rfl
      refine ⟨c', cands', forks'', l ++ [t], _, hloop, hc', .snoc hl hr, hes', W2, ?_, ?_⟩
      · intro x hx hmem
        refine hmem' x (fun h => hx (.step hr h)) ?_
        rcases hmem with hmem | ⟨hmem, hw⟩
        · exact .inl ((hcands x).mpr (.inr (.inr ⟨hmem, fun e => hx (e ▸ .refl)⟩)))
        · rcases hsplit x hmem with h | h
          · exact .inr ⟨h, hw⟩
          · exact .inl h
      · refine ⟨fun x hx hna => hleft.kept x ((hcands x).mpr (.inr (.inr ⟨hx, fun e => hna (e ▸ hanc)⟩))) hna,
          hleft.parent, fun x hx => ?_⟩
        rcases hleft.only x hx with h | h | h | h
        · -- a candidate after this round: a fork, the new tip above `hash`, or an old one
          rcases (hcands x).mp h with h | h | h
          · exact .inr (.inr (.inr h.1))
          · exact .inr (.inr (.inl (h ▸ hancr)))
          · exact .inl h.1
        · exact .inr (.inl h)
        · exact .inr (.inr (.inl h))
        · exact .inr (.inr (.inr (hsub x h)))

/-! ## Marking -/

theorem Wf.sameCore (W : Wf getHash genesis s) {m : BlockMap} (hm : SameCore s.blockIndex m)
    (hv : ∀ (p : BlockPtr) (b : CBlockIndex), m[p]? = some b → b.isValid = !b.isFailed) (failed : List BlockPtr) :
    Wf getHash genesis { s with blockIndex := m, failedBlocks := failed } := by
  obtain ⟨tip, ht, hp⟩ := W.active
  exact ⟨W.tree.sameCore hm, ⟨tip, hm.mem_iff.mpr ht, hp.extends W.tree.toTreeShape hm.toExtends ht⟩, W.genesisHash,
    W.initialized,
    hv, fun p hp => hm.mem_iff.mpr (W.candidates p hp), sorted_extends hm.toExtends W.candidates W.sorted⟩

/-- The entry that `InvalidateBlock` of `hash` leaves at `p`. -/
def markEntry (m : BlockMap) (hash p : BlockPtr) (b : CBlockIndex) : CBlockIndex :=
  if p = hash then { b with status := b.status.markFailed }
  else if ChainstateManager.descendsFrom m hash p then { b with status := b.status.markAncestorFailed }
  else b

theorem markEntry_core (m : BlockMap) (hash p : BlockPtr) (b : CBlockIndex) :
    (markEntry m hash p b).core = b.core := by
  unfold markEntry
  split
  · rfl
  · split <;> rfl

theorem markEntry_isFailed (W : Wf getHash genesis s) {hash p : BlockPtr} (hp : p ∈ s.blockIndex)
    (b : CBlockIndex) :
    (markEntry s.blockIndex hash p b).isFailed = true ↔
      b.isFailed = true ∨ Anc s.blockIndex.pprev hash p := by
  have hdesc : ChainstateManager.descendsFrom s.blockIndex hash p = true ↔
      p ≠ hash ∧ Anc s.blockIndex.pprev hash p := by
    unfold ChainstateManager.descendsFrom
    rw [Bool.and_eq_true, W.tree.toTreeShape.descendsFrom_iff hp, bne_iff_ne]
  unfold markEntry
  by_cases h : p = hash
  · subst h
    simp [CBlockIndex.isFailed, Anc.refl]
  · rw [if_neg h]
    by_cases hd : ChainstateManager.descendsFrom s.blockIndex hash p = true
    · rw [if_pos hd]
      simp [CBlockIndex.isFailed, (hdesc.mp hd).2]
    · rw [if_neg hd]
      have : ¬ Anc s.blockIndex.pprev hash p := fun ha => hd (hdesc.mpr ⟨h, ha⟩)
      simp [this]

theorem markEntry_isValid {m : BlockMap} {hash p : BlockPtr} {b : CBlockIndex} (hv : b.isValid = !b.isFailed) :
    (markEntry m hash p b).isValid = !(markEntry m hash p b).isFailed := by
  unfold markEntry
  split
  · rfl
  · split
    · rfl
    · exact hv

theorem markInvalid_spec (W : Wf getHash genesis s) (hash : BlockPtr) :
    ∃ cands failed, s.markInvalid hash =
        { s with
          blockIndex := s.blockIndex.map (markEntry s.blockIndex hash)
          failedBlocks := failed
          candidates := cands } ∧
      Wf getHash genesis (s.markInvalid hash) ∧
      ∀ x, x ∈ cands ↔ x ∈ s.candidates ∧ ¬ Anc s.blockIndex.pprev hash x := by
  have hcore : SameCore s.blockIndex (s.blockIndex.map (markEntry s.blockIndex hash)) :=
    .map _ _ (markEntry_core _ _)
  have hvalid : ∀ (p : BlockPtr) (b : CBlockIndex),
      (s.blockIndex.map (markEntry s.blockIndex hash))[p]? = some b → b.isValid = !b.isFailed := by
    intro p b hb
    rw [Std.ExtTreeMap.getElem?_map] at hb
    obtain ⟨b₀, hb₀, rfl⟩ := Option.map_eq_some_iff.mp hb
    exact markEntry_isValid (W.valid p b₀ hb₀)
  set failed := (s.blockIndex.keys.filter (ChainstateManager.descendsFrom s.blockIndex hash)).foldl
    (fun l p => l.insert p) (s.failedBlocks.insert hash) with hfailed
  have W1 := W.sameCore hcore hvalid failed
  obtain ⟨cands, hdrop, hmem⟩ := foldl_dropCandidate
    (s.blockIndex.keys.filter (ChainstateManager.descendsFrom s.blockIndex hash))
    (ChainstateManager.dropCandidate
      { s with
        blockIndex := s.blockIndex.map (markEntry s.blockIndex hash)
        failedBlocks := failed } hash)
  have heq : s.markInvalid hash = (s.blockIndex.keys.filter
      (ChainstateManager.descendsFrom s.blockIndex hash)).foldl ChainstateManager.dropCandidate
        (ChainstateManager.dropCandidate
          { s with
            blockIndex := s.blockIndex.map (markEntry s.blockIndex hash)
            failedBlocks := failed } hash) := rfl
  refine ⟨cands, failed, by rw [heq, hdrop]; rfl, by rw [heq]; exact (W1.dropCandidate hash).foldl_dropCandidate _, ?_⟩
  intro x
  rw [hmem, mem_dropCandidate]
  constructor
  · rintro ⟨⟨hx, hne⟩, hnd⟩
    refine ⟨hx, fun ha => hnd (List.mem_filter.mpr ⟨Std.ExtTreeMap.mem_keys.mpr (W.candidates x hx), ?_⟩)⟩
    unfold ChainstateManager.descendsFrom
    rw [Bool.and_eq_true, W.tree.toTreeShape.descendsFrom_iff (W.candidates x hx), bne_iff_ne]
    exact ⟨hne, ha⟩
  · rintro ⟨hx, hna⟩
    refine ⟨⟨hx, fun e => hna (e ▸ .refl)⟩, fun hd => hna ?_⟩
    have := (List.mem_filter.mp hd).2
    unfold ChainstateManager.descendsFrom at this
    rw [Bool.and_eq_true, W.tree.toTreeShape.descendsFrom_iff (W.candidates x hx)] at this
    exact this.2

/-! ## The final cleanup -/

theorem addValidLeaves_spec (W : Wf getHash genesis s) {tip : BlockPtr} (ht : s.getTip = some tip) :
    ∃ cands, s.addValidLeaves = { s with candidates := cands } ∧ Wf getHash genesis s.addValidLeaves ∧
      ∀ x, x ∈ cands ↔ (s.blockIndex.isValid x = true ∧ s.blockIndex.nChainWork tip ≤ s.blockIndex.nChainWork x ∧
        s.blockIndex.hasChildren x = false) ∨ x ∈ s.candidates := by
  obtain ⟨cands, hadd, hmem⟩ := foldl_addUnchecked (s.blockIndex.keys.filter (fun p =>
    s.blockIndex.isValid p && decide (s.blockIndex.nChainWork tip ≤ s.blockIndex.nChainWork p) &&
      !s.blockIndex.hasChildren p)) s
  have heq : s.addValidLeaves = (s.blockIndex.keys.filter (fun p =>
      s.blockIndex.isValid p && decide (s.blockIndex.nChainWork tip ≤ s.blockIndex.nChainWork p) &&
        !s.blockIndex.hasChildren p)).foldl ChainstateManager.addUnchecked s := by
    unfold ChainstateManager.addValidLeaves
    rw [ht]
  refine ⟨cands, by rw [heq, hadd], ?_, fun x => ?_⟩
  · rw [heq]
    exact W.foldl_addUnchecked (fun p hp => Std.ExtTreeMap.mem_keys.mp (List.mem_of_mem_filter hp))
  · rw [hmem, List.mem_filter, Std.ExtTreeMap.mem_keys]
    refine or_congr_left ⟨fun h => by simpa [and_assoc] using h.2, fun h => ⟨mem_of_isValid h.1, ?_⟩⟩
    simpa [and_assoc] using h

/-! ## The whole operation -/

/-- The effect of `InvalidateBlock` of a block of the index other than genesis. -/
structure Invalidated (s : ChainstateManager) (hash : BlockPtr) (s' : ChainstateManager) : Prop where
  index : s'.blockIndex = s.blockIndex.map (markEntry s.blockIndex hash)
  frame : s' =
    { s with
      blockIndex := s'.blockIndex
      activeChain := s'.activeChain
      candidates := s'.candidates
      failedBlocks := s'.failedBlocks }
  chain : ∀ tip, s.getTip = some tip →
    (¬ Anc s.blockIndex.pprev hash tip ∧ s'.activeChain = s.activeChain ∧
      ∀ x ∈ s.candidates, ¬ Anc s.blockIndex.pprev hash x → x ∈ s'.candidates) ∨
    (Anc s.blockIndex.pprev hash tip ∧ ∃ q, s.blockIndex.pprev hash = some q ∧
      CChain.IsPath s.blockIndex s'.activeChain q ∧
      ∀ x, s.blockIndex.isValid x = true → ¬ Anc s.blockIndex.pprev x tip → ¬ Anc s.blockIndex.pprev hash x →
        s.blockIndex.nChainWork q ≤ s.blockIndex.nChainWork x → x ∈ s'.candidates)
  leaves : ∀ tip, s'.getTip = some tip → ∀ x, s'.blockIndex.isValid x = true →
    s'.blockIndex.nChainWork tip ≤ s'.blockIndex.nChainWork x → s'.blockIndex.hasChildren x = false →
      x ∈ s'.candidates

theorem isFailed_marked (W : Wf getHash genesis s) {hash p : BlockPtr} (hp : p ∈ s.blockIndex) :
    BlockMap.isFailed (s.blockIndex.map (markEntry s.blockIndex hash)) p = true ↔
      s.blockIndex.isFailed p = true ∨ Anc s.blockIndex.pprev hash p := by
  obtain ⟨b, hb⟩ := mem_iff.mp hp
  have hb' : (s.blockIndex.map (markEntry s.blockIndex hash))[p]? = some (markEntry s.blockIndex hash p b) := by
    rw [Std.ExtTreeMap.getElem?_map, hb]
    rfl
  rw [isFailed_of_get hb', isFailed_of_get hb, markEntry_isFailed W hp]

theorem Invalidated.core {hash : BlockPtr} {s' : ChainstateManager} (h : Invalidated s hash s') :
    SameCore s.blockIndex s'.blockIndex := by
  rw [h.index]
  exact .map _ _ (markEntry_core _ _)

theorem Invalidated.isFailed_iff (W : Wf getHash genesis s) {hash p : BlockPtr} {s' : ChainstateManager}
    (h : Invalidated s hash s') (hp : p ∈ s.blockIndex) :
    s'.blockIndex.isFailed p = true ↔
      s.blockIndex.isFailed p = true ∨ Anc s.blockIndex.pprev hash p := by
  rw [h.index, isFailed_marked W hp]

theorem competingForks_mem {hash q x : BlockPtr} (hq : s.blockIndex.pprev hash = some q) :
    x ∈ s.competingForks hash ↔ s.activeChain.contains s.blockIndex x = false ∧
      s.blockIndex.nChainWork q ≤ s.blockIndex.nChainWork x ∧ s.blockIndex.isValid x = true := by
  unfold ChainstateManager.competingForks
  rw [hq]
  simp only [List.mem_filter, Std.ExtTreeMap.mem_keys, Bool.and_eq_true, Bool.not_eq_true', decide_eq_true_eq]
  exact ⟨fun h => ⟨h.2.1.1, h.2.1.2, h.2.2⟩, fun h => ⟨mem_of_isValid h.2.2, ⟨h.1, h.2.1⟩, h.2.2⟩⟩

/-- What follows the loop: the marking, then the leaves, on a chain that ends at `t`. -/
theorem markInvalid_addValidLeaves (W : Wf getHash genesis s) (hash : BlockPtr) {t : BlockPtr}
    (ht : s.getTip = some t) :
    ∃ s', (s.markInvalid hash).addValidLeaves = s' ∧ Wf getHash genesis s' ∧
      s'.blockIndex = s.blockIndex.map (markEntry s.blockIndex hash) ∧ s'.activeChain = s.activeChain ∧
      s' =
        { s with
          blockIndex := s'.blockIndex
          activeChain := s'.activeChain
          candidates := s'.candidates
          failedBlocks := s'.failedBlocks } ∧
      (∀ x ∈ s.candidates, ¬ Anc s.blockIndex.pprev hash x → x ∈ s'.candidates) ∧
      (∀ tip, s'.getTip = some tip → ∀ x, s'.blockIndex.isValid x = true →
        s'.blockIndex.nChainWork tip ≤ s'.blockIndex.nChainWork x →
        s'.blockIndex.hasChildren x = false → x ∈ s'.candidates) ∧
      ∀ x ∈ s'.candidates, s'.blockIndex.isValid x = true ∨ x ∈ s.candidates ∧ ¬ Anc s.blockIndex.pprev hash x := by
  obtain ⟨cands', failed, hmark, W2, hmem⟩ := markInvalid_spec W hash
  have htip : (s.markInvalid hash).getTip = some t := by
    rw [hmark]
    exact ht
  obtain ⟨cands'', hadd, W3, hmem'⟩ := addValidLeaves_spec W2 htip
  refine ⟨_, rfl, W3, by rw [hadd, hmark], by rw [hadd, hmark], by rw [hadd, hmark], ?_, ?_, ?_⟩
  · intro x hx hna
    rw [hadd]
    refine (hmem' x).mpr (.inr ?_)
    rw [hmark]
    exact (hmem x).mpr ⟨hx, hna⟩
  · intro tip' ht' x hv hw hl
    rw [hadd] at ht' hv hw hl ⊢
    rw [show _ = some t from htip] at ht'
    cases ht'
    exact (hmem' x).mpr (.inl ⟨hv, hw, hl⟩)
  · intro x hx
    rw [hadd] at hx ⊢
    rcases (hmem' x).mp hx with h | h
    · exact .inl h.1
    · rw [hmark] at h
      exact .inr ((hmem x).mp h)

/-- The candidates after `InvalidateBlock`: those that do not descend from the block, its parent
when the chain was cut back to it, and valid blocks. -/
structure CandidatesLeft (s : ChainstateManager) (hash : BlockPtr) (s' : ChainstateManager) : Prop where
  kept : ∀ x ∈ s.candidates, ¬ Anc s.blockIndex.pprev hash x → x ∈ s'.candidates
  parent : ∀ q, s.activeChain.contains s.blockIndex hash = true → s.blockIndex.pprev hash = some q →
    q ∈ s'.candidates
  only : ∀ x ∈ s'.candidates, s'.blockIndex.isValid x = true ∨
    x ∈ s.candidates ∧ ¬ Anc s.blockIndex.pprev hash x ∨
    s.activeChain.contains s.blockIndex hash = true ∧ s.blockIndex.pprev hash = some x

theorem invalidateBlock_spec (W : Wf getHash genesis s) (hash : Uint256) :
    s.invalidateBlock hash = (s, false, []) ∧ (hash ∉ s.blockIndex ∨ hash = genesis) ∨
    ∃ s' events, s.invalidateBlock hash = (s', true, events) ∧ hash ∈ s.blockIndex ∧ hash ≠ genesis ∧
      Wf getHash genesis s' ∧ Invalidated s hash s' ∧
      ((s'.activeChain = s.activeChain ∧ events = []) ∨ ∃ old q, s.getTip = some old ∧
        CChain.IsPath s.blockIndex s'.activeChain q ∧ Moves s.blockIndex old q events) ∧
      CandidatesLeft s hash s' := by
  have T := W.tree.toTreeShape
  obtain ⟨tip, htm, ht, hpath⟩ := W.tip_exists
  unfold ChainstateManager.invalidateBlock
  split
  · rename_i hnone
    refine .inl ⟨rfl, .inl fun h => ?_⟩
    obtain ⟨b, hb⟩ := mem_iff.mp h
    rw [hnone] at hb
    cases hb
  · rename_i b hb
    have hm := mem_of_get hb
    split
    · rename_i h0
      exact .inl ⟨rfl, .inr (T.genesis_of_height hm (by rw [nHeight_of_get hb]; exact h0))⟩
    · rename_i h0
      right
      have hng : hash ≠ genesis := fun e => h0 (by rw [← nHeight_of_get hb, e, T.nHeight_genesis])
      obtain ⟨q, hq⟩ := T.exists_parent (p := hash) (by
        have := T.nHeight_nonneg hash
        rw [nHeight_of_get hb] at this ⊢
        omega)
      by_cases hanc : Anc s.blockIndex.pprev hash tip
      · obtain ⟨c, cands, forks', l, events, hloop, hc, hl, hes, W1, hmem, hleft⟩ := disconnectLoop_spec
          (s.activeChain.length + 1) s (s.competingForks hash) [] tip W
          (fun p hp => mem_of_isValid ((competingForks_mem hq).mp hp).2.2) ht hq hanc
          (by have := hpath.length; omega)
        rw [List.nil_append] at hloop
        have hnq : ¬ Anc s.blockIndex.pprev hash q := fun h => by
          have := h.rank_le T.ranked
          have := T.ranked hash q hq
          omega
        obtain ⟨s', hs', W', hidx, hchain, hframe, hcand, hleaf, honly⟩ :=
          markInvalid_addValidLeaves W1 hash (t := q) hc.tip_eq
        have hcon : CChain.contains c s.blockIndex hash = false := by
          rw [← Bool.not_eq_true, hc.contains_iff T]
          exact hnq
        rw [hloop]
        simp only [Bool.not_true, Bool.false_eq_true, if_false, hcon, hs']
        have hmoves : Moves s.blockIndex tip q events :=
          ⟨q, l, [], (IsFork.of_anc hl.anc).symm, hl, .nil, by rw [hes]; exact (List.append_nil _).symm⟩
        refine ⟨s', events, rfl, hm, hng, W', ⟨hidx, hframe, fun t ht' => ?_, hleaf⟩,
          .inr ⟨tip, q, ht, hchain ▸ hc, hmoves⟩, ?_⟩
        · rw [ht] at ht'
          cases ht'
          refine .inr ⟨hanc, q, hq, by rw [hchain]; exact hc,
            fun x hv hna hnh hw => hcand x (hmem x hna (.inr ⟨?_, hw⟩)) hnh⟩
          refine (competingForks_mem hq).mpr ⟨?_, hw, hv⟩
          rw [← Bool.not_eq_true, W.contains_iff ht]
          exact hna
        · refine ⟨fun x hx hna => hcand x (hleft.kept x hx hna) hna, fun r _ hr => ?_, fun x hx => ?_⟩
          · rw [hq] at hr
            cases hr
            exact hcand q hleft.parent hnq
          · rcases honly x hx with hv | ⟨hx, hna⟩
            · exact .inl hv
            · rcases hleft.only x hx with h | rfl | h | h
              · exact .inr (.inl ⟨h, hna⟩)
              · exact .inr (.inr ⟨(W.contains_iff ht).mpr hanc, hq⟩)
              · exact absurd h hna
              · -- a fork is valid, and stays so off the descendants of `hash`
                have hv := ((competingForks_mem hq).mp h).2.2
                have hxm := mem_of_isValid hv
                have hcore : SameCore s.blockIndex s'.blockIndex := by
                  rw [hidx]
                  exact .map _ _ (markEntry_core _ _)
                refine .inl ((W'.isValid_iff (hcore.mem_iff.mpr hxm)).mpr ?_)
                rw [← Bool.not_eq_true, hidx, isFailed_marked W hxm, not_or, Bool.not_eq_true]
                exact ⟨isFailed_of_isValid hv, hna⟩
      · have hcon : s.activeChain.contains s.blockIndex hash = false := by
          rw [← Bool.not_eq_true, W.contains_iff ht]
          exact hanc
        have hloop := disconnectLoop_stop (d := { state := s, forks := s.competingForks hash }) hcon
          (s.activeChain.length + 1)
        obtain ⟨s', hs', W', hidx, hchain, hframe, hcand, hleaf, honly⟩ :=
          markInvalid_addValidLeaves W hash ht
        rw [hloop]
        simp only [Bool.not_true, Bool.false_eq_true, if_false, hcon]
        refine ⟨s', [], by rw [← hs'], hm, hng, W', ⟨hidx, hframe, fun t ht' => ?_, hleaf⟩, .inl ⟨hchain, rfl⟩,
          hcand, fun r hon => ?_, fun x hx => (honly x hx).imp id .inl⟩
        · rw [ht] at ht'
          cases ht'
          exact .inl ⟨hanc, hchain, hcand⟩
        · rw [hcon] at hon
          cases hon

/-- `InvalidateBlock` refuses an unknown hash and genesis, and otherwise succeeds. -/
theorem invalidateBlock_cases (W : Wf getHash genesis s) (hash : Uint256) :
    s.invalidateBlock hash = (s, false, []) ∧ (hash ∉ s.blockIndex ∨ hash = genesis) ∨
    ∃ s' events, s.invalidateBlock hash = (s', true, events) ∧ hash ∈ s.blockIndex ∧ hash ≠ genesis ∧
      Wf getHash genesis s' ∧ Invalidated s hash s' ∧
      ((s'.activeChain = s.activeChain ∧ events = []) ∨ ∃ old q, s.getTip = some old ∧
        CChain.IsPath s.blockIndex s'.activeChain q ∧ Moves s.blockIndex old q events) := by
  rcases invalidateBlock_spec W hash with h | ⟨s', events, he, hm, hng, W', hinv, hmoves, -⟩
  · exact .inl h
  · exact .inr ⟨s', events, he, hm, hng, W', hinv, hmoves⟩

theorem Wf.invalidateBlock (W : Wf getHash genesis s) (hash : Uint256) :
    Wf getHash genesis (s.invalidateBlock hash).1 := by
  rcases invalidateBlock_cases W hash with ⟨h, -⟩ | ⟨s', ev, h, -, -, W', -, -⟩
  · rw [h]; exact W
  · rw [h]; exact W'

end

end UnicityPow
