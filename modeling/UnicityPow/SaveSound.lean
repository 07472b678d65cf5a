import UnicityPow.LoadedState

/-!
# What `Save` writes, `Load` reads

Every saved record reads back as its entry, without the fields that `Load` recomputes. The
file of a well-formed state is loadable unless its tip is failed, its chain is longer than
the continuity check walks, or a height is not an `int`.
-/

namespace UnicityPow

open Forest BlockMap

/-! ## One record -/

@[simp] theorem toInt32_eq {n : Int} (h0 : 0 ≤ n) (h : n < 2 ^ 31) : toInt32 n = n := by
  unfold toInt32
  rw [BitVec.toInt_ofInt, Int.bmod_eq_of_le_mul_two] <;> omega

/-- The record of an entry. -/
def CBlockIndex.toRecord (b : CBlockIndex) : BlockRecord :=
  { header := b.getBlockHeader, status := b.status, nHeight := toInt32 b.nHeight, nChainWork := b.nChainWork }

/-- The part of an entry that a file holds. -/
def CBlockIndex.saved (b : CBlockIndex) : CBlockIndex := { b with pskip := none, nTimeReceived := 0, nTimeMax := 0 }

theorem CBlockIndex.entry_toRecord {b : CBlockIndex} (h0 : b.pprev ≠ some 0) :
    b.toRecord.entry = { b.saved with nHeight := toInt32 b.nHeight } := by
  have hp : b.toRecord.pprev = b.pprev := by
    unfold BlockRecord.pprev toRecord getBlockHeader
    cases hb : b.pprev with
    | none => simp
    | some q =>
      have : q ≠ 0 := fun e => h0 (by rw [hb, e])
      simp only [Option.getD_some, if_neg this]
  unfold BlockRecord.entry
  rw [hp]
  rfl

section
variable {getHash : CBlockHeader → Uint256} {m : BlockMap} {p : BlockPtr} {b : CBlockIndex}

theorem parseHeader_saveRecord (hb : m[p]? = some b) :
    parseHeader (saveRecord m p) = .ok (p, b.getBlockHeader) := by
  simp [parseHeader, saveRecord, hb, Json.read, Json.field, List.lookup, Json.getString, Json.getInt, bind,
    Except.bind, pure, Except.pure, CBlockIndex.getBlockHeader]

theorem readHeader_saveRecord (hb : m[p]? = some b) (hp : getHash b.getBlockHeader = p) :
    readHeader getHash (saveRecord m p) = .ok b.getBlockHeader := by
  have hfields : hasRequiredFields (saveRecord m p) = true := rfl
  unfold readHeader
  rw [hfields, parseHeader_saveRecord hb]
  simp [bind, Except.bind, pure, Except.pure, hp]

theorem readRecord_saveRecord (hb : m[p]? = some b) (hp : getHash b.getBlockHeader = p) :
    readRecord getHash (saveRecord m p) = .ok b.toRecord := by
  refine readRecord_ok.mpr ⟨readHeader_saveRecord hb hp, ?_, ?_⟩
  · simp [readStatus, saveRecord, hb, Json.read, Json.field, List.lookup, Json.getInt, bind, Except.bind, pure,
      Except.pure, CBlockIndex.toRecord]
  · simp [readMetadata, saveRecord, hb, Json.read, Json.field, List.lookup, Json.getInt, Json.getString, bind,
      Except.bind, pure, Except.pure, CBlockIndex.toRecord]

end

/-! ## The saved index -/

section
variable {getHash : CBlockHeader → Uint256} {genesis : BlockPtr} {s : ChainstateManager}

/-- The records of the file, in its order. -/
def ChainstateManager.savedRecords (s : ChainstateManager) : List BlockRecord :=
  s.blockIndex.byHeight.map (fun p => (s.blockIndex[p]?.getD {}).toRecord)

theorem blocks_save (s : ChainstateManager) :
    s.save.blocks = s.blockIndex.byHeight.map (saveRecord s.blockIndex) := rfl

theorem Wf.read_saved (W : Wf getHash genesis s) {p : BlockPtr} (hp : p ∈ s.blockIndex.byHeight) :
    readRecord getHash (saveRecord s.blockIndex p) = .ok (s.blockIndex[p]?.getD {}).toRecord := by
  obtain ⟨b, hb⟩ := mem_iff.mp (mem_byHeight.mp hp)
  rw [readRecord_saveRecord hb (W.tree.hash p b hb), hb]
  rfl

theorem Wf.records_save (W : Wf getHash genesis s) : s.save.records getHash = s.savedRecords := by
  unfold HeaderFile.records readRecords ChainstateManager.savedRecords
  rw [blocks_save, List.filterMap_map, ← List.filterMap_eq_map]
  refine List.filterMap_congr (fun p hp => ?_)
  simp only [Function.comp_apply, W.read_saved hp]
  rfl

theorem Wf.hash_saved (W : Wf getHash genesis s) {p : BlockPtr} {b : CBlockIndex} (hb : s.blockIndex[p]? = some b) :
    b.toRecord.hash getHash = p := W.tree.hash p b hb

theorem Wf.hashes_saved (W : Wf getHash genesis s) :
    s.savedRecords.map (BlockRecord.hash getHash) = s.blockIndex.byHeight := by
  unfold ChainstateManager.savedRecords
  rw [List.map_map]
  refine (List.map_congr_left (fun p hp => ?_)).trans (List.map_id _)
  obtain ⟨b, hb⟩ := mem_iff.mp (mem_byHeight.mp hp)
  simp only [Function.comp_apply, hb, Option.getD_some, id_eq]
  exact W.hash_saved hb

theorem Wf.nodup_saved (W : Wf getHash genesis s) :
    ((s.save.records getHash).map (BlockRecord.hash getHash)).Nodup := by
  rw [W.records_save, W.hashes_saved]
  exact byHeight_nodup _

theorem Wf.get_save (W : Wf getHash genesis s) (p : BlockPtr) :
    (s.save.index getHash)[p]? =
      s.blockIndex[p]?.map (fun b => { b.saved with nHeight := toInt32 b.nHeight }) := by
  refine Option.ext (fun b' => ?_)
  unfold HeaderFile.index
  rw [get_fileIndex W.nodup_saved, W.records_save, Option.map_eq_some_iff]
  unfold ChainstateManager.savedRecords
  constructor
  · rintro ⟨r, hr, hp, rfl⟩
    obtain ⟨q, hq, rfl⟩ := List.mem_map.mp hr
    obtain ⟨b, hb⟩ := mem_iff.mp (mem_byHeight.mp hq)
    rw [hb, Option.getD_some] at hp ⊢
    rw [W.hash_saved hb] at hp
    subst hp
    exact ⟨b, hb, (CBlockIndex.entry_toRecord (W.tree.prevNotNull q b hb)).symm⟩
  · rintro ⟨b, hb, rfl⟩
    refine ⟨b.toRecord, List.mem_map.mpr ⟨p, mem_byHeight.mpr (mem_of_get hb), by rw [hb]; rfl⟩,
      W.hash_saved hb, (CBlockIndex.entry_toRecord (W.tree.prevNotNull p b hb)).symm⟩

/-- The heights are values of an `int`. -/
def BlockMap.IntHeights (m : BlockMap) : Prop := ∀ p, m.nHeight p < 2 ^ 31

theorem Wf.saved_save (W : Wf getHash genesis s) (hint : s.blockIndex.IntHeights) :
    SameBy CBlockIndex.saved s.blockIndex (s.save.index getHash) := by
  intro p
  rw [W.get_save]
  cases hb : s.blockIndex[p]? with
  | none => rfl
  | some b =>
    have hh := hint p
    rw [nHeight_of_get hb] at hh
    simp only [Option.map_some, toInt32_eq (W.tree.nonneg p b hb) hh]
    rfl

theorem BlockMap.SameBy.links_of_saved {m m' : BlockMap} (h : SameBy CBlockIndex.saved m m') : SameLinks m m' := fun p =>
  h.map_eq CBlockIndex.links p

/-! ## The checks of `Load` on a tree -/

theorem BlockMap.TreeShape.heightFits {m : BlockMap} (T : TreeShape m genesis) {p : BlockPtr} {b : CBlockIndex}
    (hb : m[p]? = some b) : UnicityPow.heightFits m b = true := by
  have hn := T.nonneg p b hb
  unfold UnicityPow.heightFits
  cases hp : b.pprev with
  | none => simp [(T.root p b hb hp).2]
  | some q => simpa [(T.parent p b q hb hp).2] using (T.parent p b q hb hp).2 ▸ hn

theorem BlockMap.TreeShape.genesisUnique {m : BlockMap} (T : TreeShape m genesis) :
    UnicityPow.genesisUnique m genesis = true := by
  have hnd : (m.keys.filter (fun p => m.pprev p == none)).Nodup := Std.ExtTreeMap.nodup_keys.filter _
  unfold UnicityPow.genesisUnique
  rw [beq_iff_eq]
  refine List.perm_singleton.mp ((List.perm_ext_iff_of_nodup hnd (List.nodup_singleton _)).mpr (fun p => ?_))
  rw [List.mem_filter, Std.ExtTreeMap.mem_keys, List.mem_singleton, beq_iff_eq]
  constructor
  · exact fun ⟨hp, h⟩ => T.eq_genesis_of_root hp h
  · rintro rfl
    exact ⟨T.genesis_mem, T.genesis_root⟩

theorem BlockMap.TreeShape.walkToRoot {m : BlockMap} (T : TreeShape m genesis) :
    ∀ (fuel : Nat) (p : BlockPtr) (n : Nat), p ∈ m →
      UnicityPow.walkToRoot m fuel p n = if m.rank p ≤ fuel then some (genesis, n + m.rank p) else none := by
  intro fuel
  induction fuel with
  | zero =>
    intro p n hp
    unfold UnicityPow.walkToRoot
    cases hq : m.pprev p with
    | none =>
      have hz : m.rank p = 0 := T.rooted p hq
      simp [T.eq_genesis_of_root hp hq ▸ hz, T.eq_genesis_of_root hp hq]
    | some q =>
      have := T.ranked p q hq
      simp only []
      rw [if_neg (by omega)]
  | succ fuel ih =>
    intro p n hp
    unfold UnicityPow.walkToRoot
    cases hq : m.pprev p with
    | none =>
      have hz : m.rank p = 0 := T.rooted p hq
      simp [T.eq_genesis_of_root hp hq ▸ hz, T.eq_genesis_of_root hp hq]
    | some q =>
      have := T.ranked p q hq
      simp only []
      rw [ih q (n + 1) (T.mem_parent hq)]
      by_cases hr : m.rank q ≤ fuel
      · rw [if_pos hr, if_pos (by omega)]
        congr 2
        omega
      · rw [if_neg hr, if_neg (by omega)]

theorem BlockMap.TreeShape.verifyChainContinuity_iff {m : BlockMap} (T : TreeShape m genesis) {p : BlockPtr}
    (hp : p ∈ m) : verifyChainContinuity m p genesis = true ↔ m.rank p ≤ 1000000 := by
  unfold verifyChainContinuity
  rw [T.walkToRoot 1000000 p 0 hp]
  by_cases hr : m.rank p ≤ 1000000
  · simp [hr, T.nHeight_genesis, T.rank_cast p]
  · simp [hr]

/-! ## Which states are saved loadable -/

theorem opens_save (hg : s.genesisHash = genesis) : s.save.Opens genesis := by
  refine ⟨_, 1, Uint256.getHex s.genesisHash, s.getTip.elim "" Uint256.getHex, _, rfl, ?_,
    by rw [hg, Uint256.setHex_getHex], rfl⟩
  rfl

theorem savedTip_save {tip : BlockPtr} (ht : s.getTip = some tip) :
    s.save.tipHashStr = Uint256.getHex tip ∧ s.save.savedTip = tip := by
  have hstr : s.save.tipHashStr = Uint256.getHex tip := by
    rw [show s.save.tipHashStr = s.getTip.elim "" Uint256.getHex from rfl, ht]
    rfl
  exact ⟨hstr, by rw [HeaderFile.savedTip, hstr, Uint256.setHex_getHex]⟩

theorem Wf.readable_save (W : Wf getHash genesis s) : FirstPassOk getHash s.save.blocks ∅ := by
  refine ⟨fun j hj => ?_, W.nodup_saved, fun r _ h => by simp at h⟩
  rw [blocks_save] at hj
  obtain ⟨p, hp, rfl⟩ := List.mem_map.mp hj
  exact ⟨_, W.read_saved hp⟩

/-- The states that can be loaded back. -/
structure ChainstateManager.Reloadable (s : ChainstateManager) : Prop where
  intHeights : s.blockIndex.IntHeights
  tipUnfailed : ∀ t, s.getTip = some t → s.blockIndex.isFailed t = false
  short : s.activeChain.length ≤ 1000001

theorem Wf.save_loadable (W : Wf getHash genesis s) (h : s.Reloadable) : Loadable getHash genesis s.save := by
  have T := W.tree.toTreeShape
  have hsaved := W.saved_save h.intHeights
  have hlinks := hsaved.links_of_saved
  obtain ⟨tip, htm, ht, hpath⟩ := W.tip_exists
  obtain ⟨hstr, hst⟩ := savedTip_save ht
  refine ⟨opens_save W.genesisHash, W.readable_save, ?_, ?_, ?_, ?_, ?_, ?_, ?_⟩
  · intro r hr h0
    rw [W.records_save] at hr
    obtain ⟨p, hp, rfl⟩ := List.mem_map.mp hr
    obtain ⟨b, hb⟩ := mem_iff.mp (mem_byHeight.mp hp)
    rw [hb] at h0 ⊢
    cases hq : b.pprev with
    | none => exact absurd (by simp [CBlockIndex.toRecord, CBlockIndex.getBlockHeader, hq]) h0
    | some q =>
      have hprev : ((some b).getD {}).toRecord.header.hashPrevBlock = q := by
        simp [CBlockIndex.toRecord, CBlockIndex.getBlockHeader, hq]
      rw [hprev, hlinks.mem_iff]
      exact (T.parent p b q hb hq).1
  · rw [← T.genesisUnique]
    unfold UnicityPow.genesisUnique
    rw [hlinks.keys_eq, hlinks.pprev_eq]
  · intro p b' hb'
    obtain ⟨b, hb, he⟩ := hlinks.get hb'
    rw [heightFits_congr hlinks, heightFits_links _ he]
    exact T.heightFits hb
  · rw [hstr]
    exact Uint256.getHex_ne_empty tip
  · rw [hst]
    exact hlinks.mem_iff.mpr htm
  · rw [hst, ← h.tipUnfailed tip ht]
    exact hsaved.elim_eq CBlockIndex.isFailed CBlockIndex.isFailed false (fun _ => rfl) tip
  · rw [hst, verifyChainContinuity_congr hlinks, T.verifyChainContinuity_iff htm]
    have := hpath.length
    have := h.short
    omega

/-- A height beyond an `int` comes back negative, and the file is refused. -/
theorem Wf.intHeights_of_loadable (W : Wf getHash genesis s) (h : Loadable getHash genesis s.save) :
    s.blockIndex.IntHeights := by
  have T := W.tree.toTreeShape
  intro p
  by_contra hp
  obtain ⟨a, -, ha⟩ := Anc.exists_rank T.ranked T.rooted (b := p) (n := 2 ^ 31) (by
    have := T.rank_cast p
    omega)
  have hheight : s.blockIndex.nHeight a = 2 ^ 31 := by
    have := T.rank_cast a
    omega
  have ham : a ∈ s.blockIndex := by
    obtain ⟨q, hq⟩ := T.exists_parent (p := a) (by omega)
    exact mem_of_pprev hq
  obtain ⟨b, hb⟩ := mem_iff.mp ham
  rw [nHeight_of_get hb] at hheight
  have hfits := h.heights a { b.saved with nHeight := toInt32 b.nHeight } (by rw [W.get_save, hb]; rfl)
  unfold UnicityPow.heightFits at hfits
  rw [hheight, show toInt32 (2 ^ 31) = -2 ^ 31 by decide] at hfits
  simp at hfits

theorem Wf.save_loadable_iff (W : Wf getHash genesis s) : Loadable getHash genesis s.save ↔ s.Reloadable := by
  refine ⟨fun h => ?_, W.save_loadable⟩
  have hint := W.intHeights_of_loadable h
  have hsaved := W.saved_save hint
  obtain ⟨tip, htm, ht, hpath⟩ := W.tip_exists
  have hst := (savedTip_save ht).2
  refine ⟨hint, fun t ht' => ?_, ?_⟩
  · rw [ht] at ht'
    cases ht'
    rw [← h.tipUnfailed, hst]
    exact (hsaved.elim_eq CBlockIndex.isFailed CBlockIndex.isFailed false (fun _ => rfl) tip).symm
  · have hcont := h.continuous
    rw [hst, verifyChainContinuity_congr hsaved.links_of_saved,
      W.tree.toTreeShape.verifyChainContinuity_iff htm] at hcont
    have := hpath.length
    omega

end

end UnicityPow
