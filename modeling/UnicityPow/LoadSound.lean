import UnicityPow.ActivateSound
import UnicityPow.FileIndex

/-!
# Loading a header file

A file that `Load` accepts stands for a tree of headers, and the loaded state is well
formed whatever heights, work and statuses the file claims.
-/

namespace UnicityPow

open Forest BlockMap

/-! ## What a file says -/

namespace HeaderFile

def blocks : HeaderFile → List Json
  | .doc root => match root.field "blocks" with
    | some (.array js) => js
    | _ => []
  | _ => []

def records (getHash : CBlockHeader → Uint256) (file : HeaderFile) : List BlockRecord :=
  readRecords getHash file.blocks

def index (getHash : CBlockHeader → Uint256) (file : HeaderFile) : BlockMap := fileIndex getHash (file.records getHash)

def tipHashStr : HeaderFile → String
  | .doc root => (root.valueString "tip_hash" "").toOption.getD ""
  | _ => ""

def savedTip (file : HeaderFile) : BlockPtr := Uint256.setHex file.tipHashStr

/-- The file gets as far as its records. -/
def Opens (genesis : Uint256) (file : HeaderFile) : Prop :=
  ∃ root version genesisHashStr tipHashStr js, file = .doc root ∧
    BlockManager.readPreamble root = .ok (version, genesisHashStr, tipHashStr) ∧
    Uint256.setHex genesisHashStr = genesis ∧ root.field "blocks" = some (.array js)

end HeaderFile

/-- The checks of `BlockManager::Load`, on what the file says. -/
structure Loadable (getHash : CBlockHeader → Uint256) (genesis : BlockPtr) (file : HeaderFile) : Prop where
  opens : file.Opens genesis
  firstPass : FirstPassOk getHash file.blocks ∅
  parents : ∀ r ∈ file.records getHash, r.header.hashPrevBlock ≠ 0 →
    r.header.hashPrevBlock ∈ file.index getHash
  oneRoot : genesisUnique (file.index getHash) genesis = true
  heights : ∀ (p : BlockPtr) (b : CBlockIndex), (file.index getHash)[p]? = some b →
    heightFits (file.index getHash) b = true
  tipNamed : file.tipHashStr ≠ ""
  tipKnown : file.savedTip ∈ file.index getHash
  tipUnfailed : (file.index getHash).isFailed file.savedTip = false
  continuous : verifyChainContinuity (file.index getHash) file.savedTip genesis = true

section
variable {getHash : CBlockHeader → Uint256} {genesis : BlockPtr} {file : HeaderFile}

theorem genesisUnique_iff {m : BlockMap} (h : genesisUnique m genesis = true) (p : BlockPtr) :
    p ∈ m ∧ m.pprev p = none ↔ p = genesis := by
  unfold genesisUnique at h
  rw [beq_iff_eq] at h
  rw [← List.mem_singleton (a := p), ← h, List.mem_filter, Std.ExtTreeMap.mem_keys]
  simp

theorem Loadable.get (h : Loadable getHash genesis file) {p : BlockPtr} {b : CBlockIndex} :
    (file.index getHash)[p]? = some b ↔ ∃ r ∈ file.records getHash, r.hash getHash = p ∧ b = r.entry :=
  get_fileIndex h.firstPass.nodup

theorem Loadable.header_hash (h : Loadable getHash genesis file) (p : BlockPtr) (b : CBlockIndex)
    (hb : (file.index getHash)[p]? = some b) : getHash b.getBlockHeader = p := by
  obtain ⟨r, -, hp, rfl⟩ := h.get.mp hb
  rw [r.getBlockHeader_entry]
  exact hp

theorem Loadable.prev_ne_null (h : Loadable getHash genesis file) (p : BlockPtr) (b : CBlockIndex)
    (hb : (file.index getHash)[p]? = some b) : b.pprev ≠ some 0 := by
  obtain ⟨r, -, -, rfl⟩ := h.get.mp hb
  exact r.pprev_ne_null

theorem Loadable.shape (h : Loadable getHash genesis file) : TreeShape (file.index getHash) genesis := by
  have hg := (genesisUnique_iff h.oneRoot genesis).mpr rfl
  have hfits := h.heights
  unfold heightFits at hfits
  refine ⟨hg.1, hg.2, ?_, ?_, ?_, ?_⟩
  · intro p b hb hp
    have := hfits p b hb
    simp only [hp, Bool.and_eq_true, beq_iff_eq] at this
    exact ⟨(genesisUnique_iff h.oneRoot p).mp ⟨mem_of_get hb, by rw [pprev_of_get hb, hp]⟩, this.2⟩
  · intro p b q hb hq
    have := hfits p b hb
    simp only [hq, Bool.and_eq_true, beq_iff_eq] at this
    refine ⟨?_, this.2.symm⟩
    obtain ⟨r, hr, -, rfl⟩ := h.get.mp hb
    unfold BlockRecord.entry BlockRecord.pprev at hq
    simp only [] at hq
    split at hq
    · cases hq
    · cases hq
      exact h.parents r hr ‹_›
  · intro p b hb
    have := hfits p b hb
    simp only [Bool.and_eq_true, decide_eq_true_eq] at this
    exact this.1
  · intro p b q hb hq
    obtain ⟨r, -, -, rfl⟩ := h.get.mp hb
    cases hq

/-! ## `BlockManager::Load` -/

theorem walkToRoot_congr {m m' : BlockMap} (h : m'.pprev = m.pprev) : ∀ (fuel : Nat) (p : BlockPtr) (n : Nat),
    walkToRoot m' fuel p n = walkToRoot m fuel p n := by
  intro fuel
  induction fuel with
  | zero => intro p n; unfold walkToRoot; rw [h]
  | succ fuel ih => intro p n; unfold walkToRoot; rw [h]; simp only [ih]

theorem verifyChainContinuity_congr {m m' : BlockMap} (h : SameLinks m m') (p : BlockPtr) (q : Uint256) :
    verifyChainContinuity m' p q = verifyChainContinuity m p q := by
  unfold verifyChainContinuity
  rw [walkToRoot_congr h.pprev_eq, h.nHeight_eq]

/-- The index after the third pass. -/
def HeaderFile.relinked (getHash : CBlockHeader → Uint256) (file : HeaderFile) : BlockMap :=
  rebuild relink (file.index getHash).byHeight (file.index getHash)

variable (getHash) in
theorem relinked_links (file : HeaderFile) : SameLinks (file.index getHash) (file.relinked getHash) :=
  sameBy_rebuild links_relink _ _

theorem relinked_status (file : HeaderFile) : SameBy CBlockIndex.status (file.index getHash) (file.relinked getHash) :=
  sameBy_rebuild (fun c b => by
    unfold relink buildSkip setTimeMax
    cases b.pprev <;> rfl) _ _

theorem loadTip_true {s bm : BlockManager} {tipHashStr : String} :
    s.loadTip tipHashStr = (bm, none) ↔ tipHashStr ≠ "" ∧ Uint256.setHex tipHashStr ∈ s.blockIndex ∧
      s.blockIndex.isFailed (Uint256.setHex tipHashStr) = false ∧
      verifyChainContinuity s.blockIndex (Uint256.setHex tipHashStr) s.genesisHash = true ∧
      bm = { s.setActiveTip (Uint256.setHex tipHashStr) with initialized := true } := by
  unfold BlockManager.loadTip
  by_cases h0 : tipHashStr = ""
  · simp [h0]
  · rw [if_neg h0]
    cases hb : s.blockIndex[Uint256.setHex tipHashStr]? with
    | none =>
      have : Uint256.setHex tipHashStr ∉ s.blockIndex := fun h => by
        obtain ⟨b, hb'⟩ := mem_iff.mp h
        rw [hb] at hb'
        cases hb'
      simp [this]
    | some b =>
      have hm := mem_of_get hb
      rw [isFailed_of_get hb]
      simp only []
      by_cases hf : b.isFailed = true
      · simp [hf]
      · rw [if_neg hf]
        simp only [BlockManager.setActiveTip, Bool.not_eq_true] at hf ⊢
        by_cases hv : verifyChainContinuity s.blockIndex (Uint256.setHex tipHashStr) s.genesisHash = true
        · simp only [hv, if_true, ne_eq, h0, not_false_eq_true, hm, hf, true_and, Prod.mk.injEq, and_true]
          exact eq_comm
        · simp [hv]

/-- The manager that a loadable file leaves. -/
def loadedManager (getHash : CBlockHeader → Uint256) (genesis : BlockPtr) (file : HeaderFile) : BlockManager :=
  { blockIndex := file.relinked getHash
    activeChain := CChain.setTip [] (file.relinked getHash) file.savedTip
    genesisHash := genesis
    initialized := true }

theorem thirdPass_byHeight {m : BlockMap} (m' : BlockMap) : thirdPass m.byHeight m = (m', true) ↔
    m' = rebuild relink m.byHeight m ∧ ∀ (p : BlockPtr) (b : CBlockIndex), m[p]? = some b → heightFits m b = true := by
  rw [thirdPass_true]
  refine and_congr_right (fun _ => ⟨fun h p b hb => h p (mem_byHeight.mpr (mem_of_get hb)) b hb,
    fun h p _ b hb => h p b hb⟩)

theorem loadBlocks_true {s bm : BlockManager} {tipHashStr : String} {js : List Json} :
    s.loadBlocks getHash genesis tipHashStr js = (bm, none) ↔
      FirstPassOk getHash js ∅ ∧
      (∀ r ∈ readRecords getHash js, r.header.hashPrevBlock ≠ 0 →
        r.header.hashPrevBlock ∈ fileIndex getHash (readRecords getHash js)) ∧
      genesisUnique (fileIndex getHash (readRecords getHash js)) genesis = true ∧
      (∀ (p : BlockPtr) (b : CBlockIndex), (fileIndex getHash (readRecords getHash js))[p]? = some b →
        heightFits (fileIndex getHash (readRecords getHash js)) b = true) ∧
      BlockManager.loadTip { s with
        blockIndex := rebuild relink (fileIndex getHash (readRecords getHash js)).byHeight
          (fileIndex getHash (readRecords getHash js))
        genesisHash := genesis } tipHashStr = (bm, none) := by
  unfold BlockManager.loadBlocks
  rcases h1 : UnicityPow.firstPass getHash js (∅, ∅) with ⟨⟨m, prevs⟩, stop⟩
  cases stop with
  | some stop =>
    have : ¬ FirstPassOk getHash js ∅ := fun h => by
      have := (firstPass_none js ∅ ∅).mpr ⟨h, rfl, rfl⟩
      rw [h1] at this
      cases this
    simp [this]
  | none =>
    obtain ⟨hok, rfl, rfl⟩ := (firstPass_none js ∅ ∅).mp h1
    have hsecond := fun m' => connectParents_records m' hok.nodup
    simp only [hok, true_and]
    rcases h2 : connectParents (indexRecords getHash BlockRecord.prevHash (readRecords getHash js) ∅).toList
      (indexRecords getHash BlockRecord.unlinked (readRecords getHash js) ∅) with ⟨m, ok⟩
    rw [h2] at hsecond
    cases ok with
    | false =>
      simp only [Prod.mk.injEq, reduceCtorEq, and_false, false_iff] at hsecond ⊢
      rintro ⟨h, -⟩
      exact hsecond _ ⟨h, rfl⟩
    | true =>
      obtain ⟨hpar, rfl⟩ := (hsecond m).mp rfl
      have hpar' : (∀ r ∈ readRecords getHash js, r.header.hashPrevBlock ≠ 0 →
        r.header.hashPrevBlock ∈ fileIndex getHash (readRecords getHash js)) ↔ True := iff_of_true hpar trivial
      simp only [hpar', true_and]
      cases hroot : genesisUnique (fileIndex getHash (readRecords getHash js)) genesis with
      | false => simp
      | true =>
        simp only [Bool.not_true, Bool.false_eq_true, if_false, true_and]
        have hthird := fun m' => thirdPass_byHeight (m := fileIndex getHash (readRecords getHash js)) m'
        rcases h3 : thirdPass (fileIndex getHash (readRecords getHash js)).byHeight
          (fileIndex getHash (readRecords getHash js)) with ⟨m, ok⟩
        rw [h3] at hthird
        cases ok with
        | false =>
          simp only [Prod.mk.injEq, reduceCtorEq, and_false, false_iff] at hthird ⊢
          rintro ⟨h, -⟩
          exact hthird _ ⟨rfl, h⟩
        | true =>
          obtain ⟨rfl, hfits⟩ := (hthird m).mp rfl
          simp only [iff_and_self]
          exact fun _ => hfits

theorem loadable_iff_of_opens {root : Json} {version : Int} {genesisHashStr tipHashStr : String} {js : List Json}
    (hfile : file = .doc root) (hpre : BlockManager.readPreamble root = .ok (version, genesisHashStr, tipHashStr))
    (hjs : root.field "blocks" = some (.array js)) :
    file.blocks = js ∧ file.tipHashStr = tipHashStr := by
  subst hfile
  refine ⟨by simp [HeaderFile.blocks, hjs], ?_⟩
  unfold BlockManager.readPreamble at hpre
  cases h1 : root.valueInt "version" 0 with
  | error e => simp [h1, bind, Except.bind] at hpre
  | ok v =>
    simp only [h1, bind, Except.bind] at hpre
    split at hpre
    · cases hpre
    · cases h2 : root.valueInt "block_count" 0 with
      | error e => simp [h2] at hpre
      | ok n => cases h3 : root.valueString "genesis_hash" "" with
        | error e => simp [h2, h3] at hpre
        | ok g => cases h4 : root.valueString "tip_hash" "" with
          | error e => simp [h2, h3, h4] at hpre
          | ok t =>
            simp only [h2, h3, h4, pure, Except.pure, Except.ok.injEq, Prod.mk.injEq] at hpre
            simp [HeaderFile.tipHashStr, h4, Except.toOption, hpre.2.2]

theorem loadDoc_true {s bm : BlockManager} {root : Json} :
    s.loadDoc getHash root genesis = (bm, none) ↔
      Loadable getHash genesis (.doc root) ∧ bm = loadedManager getHash genesis (.doc root) := by
  unfold BlockManager.loadDoc
  cases hpre : BlockManager.readPreamble root with
  | error e =>
    have : ¬ Loadable getHash genesis (.doc root) := fun h => by
      obtain ⟨_, _, _, _, _, hr, hp, -⟩ := h.opens
      cases hr
      rw [hpre] at hp
      cases hp
    simp [this]
  | ok x =>
    obtain ⟨version, genesisHashStr, tipHashStr⟩ := x
    simp only []
    by_cases hg : Uint256.setHex genesisHashStr = genesis
    · rw [if_neg (not_not.mpr hg)]
      by_cases hjs : ∃ js, root.field "blocks" = some (.array js)
      · obtain ⟨js, hjs⟩ := hjs
        obtain ⟨hb, ht⟩ := loadable_iff_of_opens (rfl : HeaderFile.doc root = _) hpre hjs
        have hopens : (HeaderFile.doc root).Opens genesis := ⟨root, version, genesisHashStr, tipHashStr, js, rfl, hpre, hg, hjs⟩
        have hrec : (HeaderFile.doc root).records getHash = readRecords getHash js := by
          unfold HeaderFile.records; rw [hb]
        have hidx : fileIndex getHash ((HeaderFile.doc root).records getHash) = (HeaderFile.doc root).index getHash :=
          rfl
        have htip : (HeaderFile.doc root).savedTip = Uint256.setHex tipHashStr := by
          unfold HeaderFile.savedTip; rw [ht]
        rw [hjs]
        simp only []
        rw [loadBlocks_true, loadTip_true, ← hrec, hidx, ← htip, ← ht]
        have hlinks := relinked_links getHash (.doc root)
        have hfailed : ((HeaderFile.doc root).relinked getHash).isFailed (HeaderFile.doc root).savedTip =
            ((HeaderFile.doc root).index getHash).isFailed (HeaderFile.doc root).savedTip :=
          (relinked_status (.doc root)).elim_eq CBlockIndex.isFailed BlockStatus.isFailed false (fun _ => rfl) _
        change _ ∧ _ ∧ _ ∧ _ ∧ _ ∧ _ ∈ (HeaderFile.doc root).relinked getHash ∧
          ((HeaderFile.doc root).relinked getHash).isFailed _ = false ∧
          verifyChainContinuity ((HeaderFile.doc root).relinked getHash) _ genesis = true ∧ _ ↔ _
        rw [hlinks.mem_iff, hfailed, verifyChainContinuity_congr hlinks]
        constructor
        · rintro ⟨h1, h2, h3, h4, h5, h6, h7, h8, rfl⟩
          exact ⟨⟨hopens, by rw [hb]; exact h1, h2, h3, h4, h5, h6, h7, h8⟩, rfl⟩
        · rintro ⟨h, rfl⟩
          exact ⟨by rw [← hb]; exact h.firstPass, h.parents, h.oneRoot, h.heights, h.tipNamed, h.tipKnown,
            h.tipUnfailed, h.continuous, rfl⟩
      · have hno : ¬ Loadable getHash genesis (.doc root) := fun h => by
          obtain ⟨_, _, _, _, js, hr, -, -, hjs'⟩ := h.opens
          cases hr
          exact hjs ⟨js, hjs'⟩
        simp only [hno, false_and, iff_false]
        split
        · rename_i js hjs'
          exact absurd ⟨js, hjs'⟩ hjs
        · simp
    · rw [if_pos hg]
      have : ¬ Loadable getHash genesis (.doc root) := fun h => by
        obtain ⟨_, _, _, _, _, hr, hp, hg', -⟩ := h.opens
        cases hr
        rw [hpre] at hp
        cases hp
        exact hg hg'
      simp [this]

/-- `BlockManager::Load` succeeds on the loadable files, whatever the manager held before. -/
theorem BlockManager.load_true {s bm : BlockManager} :
    s.load getHash file genesis = (bm, true) ↔
      Loadable getHash genesis file ∧ bm = loadedManager getHash genesis file := by
  unfold BlockManager.load
  have hclosed : ∀ f : HeaderFile, (∀ root, f ≠ .doc root) → ¬ Loadable getHash genesis f := fun f hf h => by
    obtain ⟨root, _, _, _, _, hr, -⟩ := h.opens
    exact hf root hr
  cases file with
  | missing => simp [hclosed]
  | malformed => simp [hclosed]
  | doc root =>
    rw [← loadDoc_true (s := s)]
    simp only []
    rcases h : s.loadDoc getHash root genesis with ⟨bm', stop⟩
    cases stop with
    | none => simp
    | some stop => cases stop <;> simp

end

end UnicityPow
