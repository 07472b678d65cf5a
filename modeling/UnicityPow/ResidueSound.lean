import UnicityPow.LoadSound
import UnicityPow.SetupSound

/-!
# `Initialize` after a failed `Load`

An exception empties the manager, an early return does not: the entries made so far stay in
the index and `Initialize` finds them.
-/

namespace UnicityPow

open Forest BlockMap ChainstateManager

/-! ## The accepted records -/

section
variable (getHash : CBlockHeader → Uint256)

/-- A second mention of a block overwrites the status of its entry. -/
def restate (p : Uint256) (status : BlockStatus) (r : BlockRecord) : BlockRecord :=
  if r.hash getHash = p then { r with status := status } else r

/-- The records of the file up to the first one that cannot be read or names a block again,
after `rs`. -/
def scanRecords : List BlockRecord → List Json → List BlockRecord × Option LoadStop
  | rs, [] => (rs, none)
  | rs, j :: js => match readHeader getHash j with
    | .error stop => (rs, some stop)
    | .ok header => match readStatus j with
      | .error stop => (rs, some stop)
      | .ok status =>
        if getHash header ∈ rs.map (BlockRecord.hash getHash) then
          (rs.map (restate getHash (getHash header) status), some .refused)
        else match readMetadata j with
          | .error stop => (rs, some stop)
          | .ok (nHeight, nChainWork) => scanRecords (rs ++ [⟨header, status, nHeight, nChainWork⟩]) js

def HeaderFile.scan (file : HeaderFile) : List BlockRecord × Option LoadStop := scanRecords getHash [] file.blocks

end

section
variable {getHash : CBlockHeader → Uint256} {genesis : BlockPtr} {file : HeaderFile}

theorem modify_insert_of (m : BlockMap) (p q : Uint256) (b : CBlockIndex) (f : CBlockIndex → CBlockIndex) :
    (m.insert q b).modify p f = (m.modify p f).insert q (if q = p then f b else b) := by
  apply Std.ExtTreeMap.ext_getElem?
  intro k
  simp only [Std.ExtTreeMap.getElem?_modify, Std.ExtTreeMap.getElem?_insert, Std.LawfulEqCmp.compare_eq_iff_eq]
  by_cases hp : p = k <;> by_cases hq : q = k <;> simp [hp, hq]
  intro h
  exact absurd h.symm hp

theorem hash_restate (p : Uint256) (status : BlockStatus) (r : BlockRecord) :
    (restate getHash p status r).hash getHash = r.hash getHash := by
  unfold restate
  split <;> rfl

theorem modify_indexRecords (p : Uint256) (status : BlockStatus) : ∀ (rs : List BlockRecord) (m : BlockMap),
    (indexRecords getHash BlockRecord.unlinked rs m).modify p (fun b => { b with status := status }) =
      indexRecords getHash BlockRecord.unlinked (rs.map (restate getHash p status))
        (m.modify p (fun b => { b with status := status })) := by
  intro rs
  induction rs with
  | nil => intro m; rfl
  | cons r rs ih =>
    intro m
    have hentry : (restate getHash p status r).unlinked =
        if r.hash getHash = p then { r.unlinked with status := status } else r.unlinked := by
      unfold restate
      split <;> rfl
    unfold indexRecords at ih ⊢
    rw [List.foldl_cons, ih, modify_insert_of, List.map_cons, List.foldl_cons, hash_restate, hentry]

theorem indexRecords_append {β : Type*} (f : BlockRecord → β) (rs : List BlockRecord) (r : BlockRecord)
    (m : Std.ExtTreeMap Uint256 β compare) :
    (indexRecords getHash f rs m).insert (r.hash getHash) (f r) = indexRecords getHash f (rs ++ [r]) m := by
  unfold indexRecords
  rw [List.foldl_append]
  rfl

theorem indexRecords_restate (p : Uint256) (status : BlockStatus) (rs : List BlockRecord) :
    indexRecords getHash BlockRecord.prevHash (rs.map (restate getHash p status)) ∅ =
      indexRecords getHash BlockRecord.prevHash rs ∅ := by
  have hprev : ∀ r, (restate getHash p status r).prevHash = r.prevHash := fun r => by
    unfold restate
    split <;> rfl
  unfold indexRecords
  rw [List.foldl_map]
  simp only [hash_restate, hprev]

variable (getHash) in
theorem firstPass_scan : ∀ (js : List Json) (rs : List BlockRecord),
    firstPass getHash js (indexRecords getHash BlockRecord.unlinked rs ∅,
        indexRecords getHash BlockRecord.prevHash rs ∅) =
      ((indexRecords getHash BlockRecord.unlinked (scanRecords getHash rs js).1 ∅,
        indexRecords getHash BlockRecord.prevHash (scanRecords getHash rs js).1 ∅),
        (scanRecords getHash rs js).2) := by
  intro js
  induction js with
  | nil => intro rs; rfl
  | cons j js ih =>
    intro rs
    unfold firstPass scanRecords
    cases readHeader getHash j with
    | error stop => rfl
    | ok header => cases readStatus j with
      | error stop => rfl
      | ok status =>
        simp only []
        have hmem : getHash header ∈ indexRecords getHash BlockRecord.unlinked rs ∅ ↔
            getHash header ∈ rs.map (BlockRecord.hash getHash) := by
          rw [mem_indexRecords_empty, List.mem_map]
        by_cases hdup : getHash header ∈ rs.map (BlockRecord.hash getHash)
        · rw [if_pos hdup, if_pos (hmem.mpr hdup), modify_indexRecords, indexRecords_restate]
          congr 3
        · rw [if_neg hdup, if_neg (fun h => hdup (hmem.mp h))]
          cases readMetadata j with
          | error stop => rfl
          | ok hw =>
            obtain ⟨nHeight, nChainWork⟩ := hw
            have hnext := ih (rs ++ [⟨header, status, nHeight, nChainWork⟩])
            rw [← indexRecords_append, ← indexRecords_append] at hnext
            exact hnext

theorem scanRecords_nodup : ∀ (js : List Json) (rs : List BlockRecord), (rs.map (BlockRecord.hash getHash)).Nodup →
    ((scanRecords getHash rs js).1.map (BlockRecord.hash getHash)).Nodup := by
  intro js
  induction js with
  | nil => intro rs h; exact h
  | cons j js ih =>
    intro rs h
    unfold scanRecords
    cases readHeader getHash j with
    | error stop => exact h
    | ok header => cases readStatus j with
      | error stop => exact h
      | ok status =>
        simp only []
        split
        · rw [List.map_map, show BlockRecord.hash getHash ∘ restate getHash (getHash header) status =
            BlockRecord.hash getHash from funext (hash_restate _ _)]
          exact h
        · rename_i hnew
          cases readMetadata j with
          | error stop => exact h
          | ok hw =>
            refine ih _ ?_
            rw [List.map_append, List.nodup_append]
            refine ⟨h, by simp, fun x hx y hy => ?_⟩
            rw [List.map_singleton, List.mem_singleton] at hy
            have hy : y = getHash header := hy
            exact fun e => hnew (hy ▸ e ▸ hx)

/-! ## The blocks that a failed load leaves -/

/-- Two indexes with the same keys. -/
abbrev SameKeys (m m' : BlockMap) : Prop := SameBy (fun _ => ()) m m'

theorem sameKeys_modify (m : BlockMap) (p : BlockPtr) (f : CBlockIndex → CBlockIndex) : SameKeys m (m.modify p f) :=
  .modify m p f (fun _ => rfl)

theorem sameKeys_insert {m : BlockMap} {p : BlockPtr} {b : CBlockIndex} (hb : m[p]? = some b) (b' : CBlockIndex) :
    SameKeys m (m.insert p b') :=
  .insert hb rfl

theorem connectParents_keys : ∀ (l : List (Uint256 × Uint256)) (m : BlockMap), SameKeys m (connectParents l m).1 := by
  intro l
  induction l with
  | nil => intro m; exact .refl _ m
  | cons x l ih =>
    intro m
    obtain ⟨hash, prevHash⟩ := x
    unfold connectParents
    split
    · exact (sameKeys_modify m hash _).trans (ih _)
    · split
      · exact (sameKeys_modify m hash _).trans (ih _)
      · exact sameKeys_modify m hash _

theorem thirdPass_keys : ∀ (l : List BlockPtr) (m : BlockMap), SameKeys m (thirdPass l m).1 := by
  intro l
  induction l with
  | nil => intro m; exact .refl _ m
  | cons p l ih =>
    intro m
    unfold thirdPass
    cases hb : m[p]? with
    | none => exact ih m
    | some b =>
      simp only []
      split
      · exact .refl _ m
      · exact (sameKeys_insert hb _).trans (ih _)

theorem loadTip_frame (s : BlockManager) (tipHashStr : String) :
    (s.loadTip tipHashStr).1.blockIndex = s.blockIndex ∧
      ((s.loadTip tipHashStr).2 ≠ none → (s.loadTip tipHashStr).1.initialized = s.initialized) ∧
      (s.loadTip tipHashStr).2 ≠ some .threw := by
  unfold BlockManager.loadTip
  split
  · exact ⟨rfl, fun _ => rfl, by simp⟩
  · split
    · exact ⟨rfl, fun _ => rfl, by simp⟩
    · split
      · exact ⟨rfl, fun _ => rfl, by simp⟩
      · simp only []
        split
        · exact ⟨rfl, fun h => absurd rfl h, by simp⟩
        · exact ⟨rfl, fun _ => rfl, by simp⟩

variable (getHash genesis) in
/-- A load that reaches the records leaves the blocks of the accepted ones, unless it throws. -/
theorem loadBlocks_residue (s : BlockManager) (tipHashStr : String) (js : List Json) :
    SameKeys (indexRecords getHash BlockRecord.unlinked (scanRecords getHash [] js).1 ∅)
        (s.loadBlocks getHash genesis tipHashStr js).1.blockIndex ∧
      ((s.loadBlocks getHash genesis tipHashStr js).2 ≠ none →
        (s.loadBlocks getHash genesis tipHashStr js).1.initialized = s.initialized) ∧
      ((s.loadBlocks getHash genesis tipHashStr js).2 = some .threw ↔ (scanRecords getHash [] js).2 = some .threw) ∧
      ((s.loadBlocks getHash genesis tipHashStr js).2 = some .threw →
        (s.loadBlocks getHash genesis tipHashStr js).1.genesisHash = s.genesisHash) := by
  have hscan := firstPass_scan getHash js []
  rw [show (indexRecords getHash BlockRecord.unlinked [] ∅ : BlockMap) = ∅ from rfl,
    show (indexRecords getHash BlockRecord.prevHash [] ∅ : Std.ExtTreeMap Uint256 Uint256 compare) = ∅ from rfl] at hscan
  unfold BlockManager.loadBlocks
  rw [hscan]
  rcases scanRecords getHash [] js with ⟨rs, _ | stop⟩
  · simp only []
    have h2 := connectParents_keys (indexRecords getHash BlockRecord.prevHash rs ∅).toList
      (indexRecords getHash BlockRecord.unlinked rs ∅)
    generalize connectParents (indexRecords getHash BlockRecord.prevHash rs ∅).toList
      (indexRecords getHash BlockRecord.unlinked rs ∅) = r at h2 ⊢
    obtain ⟨m, _ | _⟩ := r
    · exact ⟨h2, fun _ => rfl, by simp, fun _ => rfl⟩
    · simp only []
      cases hg : genesisUnique m genesis with
      | false => exact ⟨h2, fun _ => rfl, by simp, fun _ => rfl⟩
      | true =>
        simp only [Bool.not_true, Bool.false_eq_true, if_false]
        have h3 := thirdPass_keys m.byHeight m
        generalize thirdPass m.byHeight m = r at h3 ⊢
        obtain ⟨m', _ | _⟩ := r
        · exact ⟨h2.trans h3, fun _ => rfl, by simp, fun _ => rfl⟩
        · obtain ⟨h4, h5, h6⟩ := loadTip_frame { s with blockIndex := m', genesisHash := genesis } tipHashStr
          exact ⟨by rw [h4]; exact h2.trans h3, h5, by simp [h6], fun h => absurd h h6⟩
  · exact ⟨.refl _ _, fun _ => rfl, by simp, fun _ => rfl⟩

/-! ## A single accepted record -/

theorem toList_single {β : Type*} (p : Uint256) (b : β) :
    ((∅ : Std.ExtTreeMap Uint256 β compare).insert p b).toList = [(p, b)] := by
  have hlen : ((∅ : Std.ExtTreeMap Uint256 β compare).insert p b).toList.length = 1 := by
    rw [Std.ExtTreeMap.length_toList, Std.ExtTreeMap.size_insert]
    simp
  obtain ⟨x, hx⟩ := List.length_eq_one_iff.mp hlen
  have hmem : (p, b) ∈ ((∅ : Std.ExtTreeMap Uint256 β compare).insert p b).toList :=
    Std.ExtTreeMap.mem_toList_iff_getElem?_eq_some.mpr Std.ExtTreeMap.getElem?_insert_self
  rw [hx, List.mem_singleton] at hmem
  rw [hx, hmem]

theorem keys_single (p : BlockPtr) (b : CBlockIndex) : ((∅ : BlockMap).insert p b).keys = [p] := by
  rw [← Std.ExtTreeMap.map_fst_toList_eq_keys, toList_single]
  rfl

theorem genesisUnique_single (p : BlockPtr) (b : CBlockIndex) :
    genesisUnique ((∅ : BlockMap).insert p b) genesis = true ↔ b.pprev = none ∧ p = genesis := by
  have hget : ((∅ : BlockMap).insert p b)[p]? = some b := by rw [getElem?_single, if_pos rfl]
  unfold genesisUnique
  rw [keys_single, beq_iff_eq, List.filter_cons, pprev_of_get hget]
  cases hb : b.pprev with
  | none => simp
  | some q => simp

theorem thirdPass_single (p : BlockPtr) (b : CBlockIndex) (hb : b.pprev = none) :
    thirdPass (byHeight ((∅ : BlockMap).insert p b)) ((∅ : BlockMap).insert p b) =
      if b.nHeight = 0 then ((∅ : BlockMap).insert p { b with nTimeMax := b.getBlockTime }, true)
      else ((∅ : BlockMap).insert p b, false) := by
  have hget : ((∅ : BlockMap).insert p b)[p]? = some b := by rw [getElem?_single, if_pos rfl]
  have hfits : heightFits ((∅ : BlockMap).insert p b) b = decide (b.nHeight = 0) := by
    unfold heightFits
    rw [hb]
    by_cases h : b.nHeight = 0 <;> simp [h]
  unfold byHeight
  rw [keys_single, List.insertionSort_cons, List.insertionSort_nil, List.orderedInsert_nil]
  unfold thirdPass
  simp only [hget, hfits]
  by_cases h : b.nHeight = 0
  · rw [if_pos h, decide_eq_true h, relink_genesis hb, insert_insert]
    rfl
  · rw [if_neg h, decide_eq_false h]
    rfl

theorem modify_single (p : BlockPtr) (b : CBlockIndex) (f : CBlockIndex → CBlockIndex) :
    ((∅ : BlockMap).insert p b).modify p f = (∅ : BlockMap).insert p (f b) := modify_insert _ _ _ _

theorem connectParents_single (p q : Uint256) (b : CBlockIndex) (hb : b.pprev = none) :
    connectParents [(p, q)] ((∅ : BlockMap).insert p b) =
      if q = 0 then ((∅ : BlockMap).insert p b, true)
      else if q = p then ((∅ : BlockMap).insert p { b with pprev := some q }, true)
      else ((∅ : BlockMap).insert p b, false) := by
  have hnone : { b with pprev := none } = b := by rw [← hb]
  unfold connectParents connectParents
  simp only [modify_single, mem_single, hnone]

/-- The single record is its own parent. -/
def loopsBack (getHash : CBlockHeader → Uint256) (r : BlockRecord) (stop : Option LoadStop) : Prop :=
  stop = none ∧ r.prevHash ≠ 0 ∧ r.prevHash = r.hash getHash

/-- The single record gets through the third pass. -/
def relinks (getHash : CBlockHeader → Uint256) (genesis : BlockPtr) (r : BlockRecord) (stop : Option LoadStop) :
    Prop :=
  stop = none ∧ r.prevHash = 0 ∧ r.hash getHash = genesis ∧ r.nHeight = 0

variable (getHash genesis) in
theorem loadBlocks_single (s : BlockManager) (tipHashStr : String) {js : List Json} {r : BlockRecord}
    {stop : Option LoadStop} (hscan : scanRecords getHash [] js = ([r], stop)) : ∃ parent timeMax,
    (s.loadBlocks getHash genesis tipHashStr js).1.blockIndex =
        (∅ : BlockMap).insert (r.hash getHash) { r.unlinked with pprev := parent, nTimeMax := timeMax } ∧
      (parent = none ↔ ¬ loopsBack getHash r stop) ∧
      (relinks getHash genesis r stop → timeMax = r.header.nTime.toNat) ∧
      (¬ relinks getHash genesis r stop → timeMax = 0) := by
  have hfirst := firstPass_scan getHash js []
  rw [show (indexRecords getHash BlockRecord.unlinked [] ∅ : BlockMap) = ∅ from rfl,
    show (indexRecords getHash BlockRecord.prevHash [] ∅ : Std.ExtTreeMap Uint256 Uint256 compare) = ∅ from rfl,
    hscan] at hfirst
  unfold BlockManager.loadBlocks loopsBack relinks
  rw [hfirst]
  cases stop with
  | some stop => exact ⟨none, 0, rfl, by simp, by simp, by simp⟩
  | none =>
    have hlist : (indexRecords getHash BlockRecord.prevHash [r] ∅).toList = [(r.hash getHash, r.prevHash)] :=
      toList_single _ _
    have hindex : (indexRecords getHash BlockRecord.unlinked [r] ∅ : BlockMap) =
      (∅ : BlockMap).insert (r.hash getHash) r.unlinked := rfl
    have hroot : r.unlinked.pprev = none := rfl
    simp only [hlist, hindex, connectParents_single _ _ _ hroot]
    by_cases h0 : r.prevHash = 0
    · simp only [if_pos h0]
      by_cases hg : r.hash getHash = genesis
      · rw [(genesisUnique_single _ _).mpr ⟨hroot, hg⟩, thirdPass_single _ _ hroot]
        simp only [Bool.not_true, Bool.false_eq_true, if_false]
        by_cases hh : r.nHeight = 0
        · rw [if_pos (show r.unlinked.nHeight = 0 from hh)]
          exact ⟨none, r.header.nTime.toNat, (loadTip_frame _ _).1, by simp only [h0]; tauto, fun _ => rfl, by tauto⟩
        · rw [if_neg (show ¬ r.unlinked.nHeight = 0 from hh)]
          exact ⟨none, 0, rfl, by simp only [h0]; tauto, by tauto, fun _ => rfl⟩
      · have huniq : genesisUnique ((∅ : BlockMap).insert (r.hash getHash) r.unlinked) genesis = false :=
          Bool.eq_false_iff.mpr (mt (genesisUnique_single _ _).mp (fun h => hg h.2))
        simp only [huniq, Bool.not_false, if_true]
        exact ⟨none, 0, rfl, by simp only [h0]; tauto, by tauto, fun _ => rfl⟩
    · simp only [if_neg h0]
      by_cases hself : r.prevHash = r.hash getHash
      · simp only [if_pos hself]
        rw [Bool.eq_false_iff.mpr (mt (genesisUnique_single _ _).mp (fun h => Option.some_ne_none _ h.1))]
        exact ⟨some r.prevHash, 0, rfl, iff_of_false (Option.some_ne_none _) (fun h => h ⟨trivial, h0, hself⟩), by tauto,
          fun _ => rfl⟩
      · simp only [if_neg hself]
        exact ⟨none, 0, rfl, by tauto, by tauto, fun _ => rfl⟩

/-! ## `BlockManager::Load` into a new manager -/

/-- A failed load leaves a new manager when it stops before the records or throws, and else
the manager in which it stopped. -/
theorem load_new_false {bm : BlockManager} (h : ({} : BlockManager).load getHash file genesis = (bm, false)) :
    (¬ file.Opens genesis ∨ (file.scan getHash).2 = some .threw) ∧ bm = {} ∨
      file.Opens genesis ∧ (file.scan getHash).2 ≠ some .threw ∧ bm.initialized = false ∧ ∃ tipHashStr,
        bm = (({} : BlockManager).loadBlocks getHash genesis tipHashStr file.blocks).1 := by
  unfold BlockManager.load at h
  cases file with
  | missing => exact .inl ⟨.inl (fun ⟨_, _, _, _, _, hr, _⟩ => nomatch hr), (congrArg Prod.fst h).symm⟩
  | malformed => exact .inl ⟨.inl (fun ⟨_, _, _, _, _, hr, _⟩ => nomatch hr), (congrArg Prod.fst h).symm⟩
  | doc root =>
    simp only [] at h
    by_cases hopens : (HeaderFile.doc root).Opens genesis
    · obtain ⟨root', version, genesisHashStr, tipHashStr, js, hr, hpre, hg, hjs⟩ := id hopens
      cases hr
      obtain ⟨hblocks, -⟩ := loadable_iff_of_opens (rfl : HeaderFile.doc root = _) hpre hjs
      have hdoc : ({} : BlockManager).loadDoc getHash root genesis =
          ({} : BlockManager).loadBlocks getHash genesis tipHashStr js := by
        unfold BlockManager.loadDoc
        rw [hpre]
        simp only [hg, ne_eq, not_true, if_false, hjs]
      obtain ⟨-, hinit, hthrow, hhash⟩ := loadBlocks_residue getHash genesis {} tipHashStr js
      unfold HeaderFile.scan
      rw [hblocks]
      rw [hdoc] at h
      generalize hres : ({} : BlockManager).loadBlocks getHash genesis tipHashStr js = res at h hinit hthrow hhash
      obtain ⟨bm', stop⟩ := res
      cases stop with
      | none => cases h
      | some stop => cases stop with
        | refused =>
          cases h
          exact .inr ⟨hopens, fun ht => by simpa using hthrow.mpr ht, hinit (by simp), tipHashStr, by rw [hres]⟩
        | threw =>
          refine .inl ⟨.inr (hthrow.mp rfl), ?_⟩
          have hbm : { bm' with blockIndex := ∅, activeChain := [], initialized := false } = bm := congrArg Prod.fst h
          rw [← hbm, hhash rfl]
    · refine .inl ⟨.inl hopens, ?_⟩
      have hdoc : ∃ stop, ({} : BlockManager).loadDoc getHash root genesis = ({}, some stop) := by
        unfold BlockManager.loadDoc
        cases hpre : BlockManager.readPreamble root with
        | error stop => exact ⟨stop, rfl⟩
        | ok x =>
          obtain ⟨version, genesisHashStr, tipHashStr⟩ := x
          simp only []
          split
          · exact ⟨_, rfl⟩
          · rename_i hg
            split
            · rename_i js hjs
              exact absurd ⟨root, version, genesisHashStr, tipHashStr, js, rfl, hpre, not_not.mp hg, hjs⟩ hopens
            · exact ⟨_, rfl⟩
      obtain ⟨stop, hdoc⟩ := hdoc
      rw [hdoc] at h
      cases stop <;> exact (congrArg Prod.fst h).symm

/-! ## `Initialize` on what is left -/

/-- An entry after `Initialize` has raised its validity. -/
def raised (b : CBlockIndex) : CBlockIndex := { b with status := b.status.raiseValidity ValidationLevel.TREE }

section
variable {s : ChainstateManager} {header : CBlockHeader} {b : CBlockIndex}

variable (getHash header) in
theorem addToBlockIndex_mem {bm : BlockManager} {p : BlockPtr} (hp : p ∈ bm.blockIndex) :
    p ∈ (bm.addToBlockIndex getHash header).1.blockIndex := by
  unfold BlockManager.addToBlockIndex
  simp only []
  split
  · exact hp
  · rename_i hnew
    have hne : getHash header ≠ p := fun e => hnew (e ▸ hp)
    split
    · exact mem_insert.mpr (.inr (mem_insert.mpr (.inr hp)))
    · split
      · rw [Std.ExtTreeMap.mem_erase]
        exact ⟨fun h => hne (Std.LawfulEqOrd.eq_of_compare h), mem_insert.mpr (.inr hp)⟩
      · exact mem_insert.mpr (.inr (mem_insert.mpr (.inr hp)))

theorem setup_mem {s' : ChainstateManager} (h : s.setup getHash header = (s', true)) {p : BlockPtr}
    (hp : p ∈ s.blockIndex) : p ∈ s'.blockIndex := by
  have hkeep : ∀ bm, s.toBlockManager.initializeWith getHash header = (bm, true) → p ∈ bm.blockIndex := by
    intro bm hinit
    have hadd := addToBlockIndex_mem getHash header hp
    unfold BlockManager.initializeWith at hinit
    split at hinit
    · cases congrArg Prod.snd hinit
    · generalize s.toBlockManager.addToBlockIndex getHash header = r at hadd hinit
      obtain ⟨bm', _ | q⟩ := r
      · cases congrArg Prod.snd hinit
      · simp only [] at hinit
        split at hinit
        · have hbm : _ = bm := congrArg Prod.fst hinit
          rw [← hbm]
          exact hadd
        · cases congrArg Prod.snd hinit
  unfold ChainstateManager.setup at h
  split at h
  · cases congrArg Prod.snd h
  · rename_i bm hinit
    have hm := hkeep bm hinit
    simp only [] at h
    split at h
    · have hs' : _ = s' := congrArg Prod.fst h
      rw [← hs']
      exact hm
    · have hs' : _ = s' := congrArg Prod.fst h
      rw [← hs']
      exact (sameKeys_modify _ _ _).mem_iff.mpr hm

theorem initializeWith_single (bm : BlockManager) (hs : bm.blockIndex = (∅ : BlockMap).insert (getHash header) b)
    (hi : bm.initialized = false) : ∃ c ok,
    bm.initializeWith getHash header =
      ({ blockIndex := (∅ : BlockMap).insert (getHash header) b
         activeChain := c
         genesisHash := getHash header
         initialized := ok }, ok) ∧
      (b.pprev = none → b.nHeight = 0 → ok = true ∧ c = [some (getHash header)]) := by
  have hget : ((∅ : BlockMap).insert (getHash header) b)[getHash header]? = some b := by
    rw [getElem?_single, if_pos rfl]
  have hadd : bm.addToBlockIndex getHash header = (bm, some (getHash header)) := by
    unfold BlockManager.addToBlockIndex
    simp only [hs, mem_single, if_true]
  refine ⟨bm.activeChain.setTip bm.blockIndex (getHash header),
    verifyChainContinuity bm.blockIndex (getHash header) (getHash header), ?_, fun hp hh => ?_⟩
  · have hcase : bm.initializeWith getHash header =
        if verifyChainContinuity bm.blockIndex (getHash header) (getHash header) = true then
          ({ bm.setActiveTip (getHash header) with genesisHash := getHash header, initialized := true }, true)
        else ({ bm.setActiveTip (getHash header) with genesisHash := getHash header }, false) := by
      unfold BlockManager.initializeWith
      rw [hi, hadd]
      rfl
    rw [hcase]
    unfold BlockManager.setActiveTip
    by_cases hv : verifyChainContinuity bm.blockIndex (getHash header) (getHash header) = true
    · rw [if_pos hv, hv, hs]
    · rw [if_neg hv, Bool.eq_false_iff.mpr hv, hs, hi]
  · have hh' := (nHeight_of_get hget).trans hh
    rw [hs]
    exact ⟨verifyChainContinuity_root hh' ((pprev_of_get hget).trans hp), setTip_root _ hh'⟩

theorem setup_single_entry (hs : s.blockIndex = (∅ : BlockMap).insert (getHash header) b) (hi : s.initialized = false)
    {s' : ChainstateManager} (h : s.setup getHash header = (s', true)) :
    s'.blockIndex[getHash header]? = some b ∨ s'.blockIndex[getHash header]? = some (raised b) := by
  obtain ⟨c, ok, hinit, -⟩ := initializeWith_single s.toBlockManager hs hi
  have hget : ((∅ : BlockMap).insert (getHash header) b)[getHash header]? = some b := by
    rw [getElem?_single, if_pos rfl]
  unfold ChainstateManager.setup at h
  rw [hinit] at h
  cases ok with
  | false => cases congrArg Prod.snd h
  | true =>
    simp only [] at h
    split at h
    · have hs' : _ = s' := congrArg Prod.fst h
      rw [← hs']
      exact .inl hget
    · rename_i tip _
      have hs' : _ = s' := congrArg Prod.fst h
      rw [← hs']
      simp only [addUnchecked]
      rw [Std.ExtTreeMap.getElem?_modify]
      split
      · rename_i hcmp
        rw [Std.LawfulEqOrd.eq_of_compare hcmp, hget]
        exact .inr rfl
      · exact .inl hget

theorem setup_single (hs : s.blockIndex = (∅ : BlockMap).insert (getHash header) b) (hi : s.initialized = false)
    (hc : s.candidates = []) (hp : b.pprev = none) (hh : b.nHeight = 0) :
    s.setup getHash header =
      ({ genesisState getHash s.testSkipPowChecks header with
         blockIndex := (∅ : BlockMap).insert (getHash header) (raised b)
         orphanHeaders := s.orphanHeaders
         peerOrphanCount := s.peerOrphanCount
         failedBlocks := s.failedBlocks
         cachedFinishedIbd := s.cachedFinishedIbd }, true) := by
  obtain ⟨c, ok, hinit, hroot⟩ := initializeWith_single s.toBlockManager hs hi
  obtain ⟨rfl, rfl⟩ := hroot hp hh
  unfold ChainstateManager.setup
  rw [hinit]
  simp only [BlockManager.getTip, CChain.tip, ChainstateManager.addUnchecked, ChainSelector.addCandidateUnchecked, hc,
    OrderedSet.insert, modify_single, List.getLast?_singleton, Option.join_some]
  rfl

end

/-! ## The condition on the file -/

/-- A record that gives the genesis block the entry `Initialize` would give it. -/
structure BlockRecord.DescribesGenesis (getHash : CBlockHeader → Uint256) (genesis : CBlockHeader) (r : BlockRecord) :
    Prop where
  hash : r.hash getHash = getHash genesis
  header : { r.header with hashPrevBlock := 0 } = { genesis with hashPrevBlock := 0 }
  nHeight : r.nHeight = 0
  nChainWork : r.nChainWork = getBlockProof genesis.nBits
  unfailed : r.status.failure = FailureState.NOT_FAILED
  validation : r.status.validation ≤ ValidationLevel.TREE

/-- The file stops `Load` before its records or by an exception, or no record is accepted, or
a single one that describes genesis, with the time maximum that genesis has. -/
def HeaderFile.LeavesNoResidue (getHash : CBlockHeader → Uint256) (genesis : CBlockHeader) (file : HeaderFile) :
    Prop :=
  ¬ file.Opens (getHash genesis) ∨ (file.scan getHash).2 = some .threw ∨ (file.scan getHash).1 = [] ∨
    ∃ r, (file.scan getHash).1 = [r] ∧ r.DescribesGenesis getHash genesis ∧ ¬ loopsBack getHash r (file.scan getHash).2 ∧
      (genesis.nTime = 0 ∨ (file.scan getHash).2 = none ∧ r.prevHash = 0)

theorem raiseValidity_iff (st : BlockStatus) :
    st.raiseValidity ValidationLevel.TREE = ⟨ValidationLevel.TREE, FailureState.NOT_FAILED⟩ ↔
      st.failure = FailureState.NOT_FAILED ∧ st.validation ≤ ValidationLevel.TREE := by
  obtain ⟨v, f⟩ := st
  unfold BlockStatus.raiseValidity BlockStatus.isFailed
  by_cases hf : f = FailureState.NOT_FAILED
  · subst hf
    simp only [bne_self_eq_false, Bool.false_eq_true, if_false, true_and]
    by_cases hv : v < ValidationLevel.TREE
    · simp [hv, BitVec.le_of_lt hv]
    · simp only [hv, if_false, BlockStatus.mk.injEq, and_true]
      constructor
      · rintro rfl
        exact BitVec.le_refl _
      · exact fun h => BitVec.le_antisymm h (BitVec.not_lt.mp hv)
  · simp [hf]

theorem raised_eq_genesisEntry {genesis : CBlockHeader} {r : BlockRecord} {parent : Option BlockPtr} {timeMax : Int}
    (hh : r.hash getHash = getHash genesis) :
    raised { r.unlinked with pprev := parent, nTimeMax := timeMax } = genesisEntry genesis ↔
      r.DescribesGenesis getHash genesis ∧ parent = none ∧ timeMax = genesis.nTime.toNat := by
  obtain ⟨⟨v, q, a, t, bits, n, x⟩, st, height, work⟩ := r
  obtain ⟨v', q', a', t', bits', n', x'⟩ := genesis
  constructor
  · intro h
    simp only [raised, BlockRecord.unlinked, genesisEntry, CBlockIndex.ofHeader, CBlockIndex.mk.injEq] at h
    obtain ⟨h1, h2, -, h4, h5, h6, h7, h8, h9, h10, h11, -, h13⟩ := h
    obtain ⟨hf, hv⟩ := (raiseValidity_iff st).mp h1
    subst h6 h7 h8 h9 h10 h11
    exact ⟨⟨hh, rfl, h4, h5, hf, hv⟩, h2, h13⟩
  · rintro ⟨⟨-, hheader, hheight, hwork, hf, hv⟩, rfl, rfl⟩
    simp only [CBlockHeader.mk.injEq, true_and] at hheader
    obtain ⟨rfl, rfl, rfl, rfl, rfl, rfl⟩ := hheader
    simp only [] at hheight hwork hf hv
    subst hheight hwork
    simp only [raised, BlockRecord.unlinked, genesisEntry, CBlockIndex.ofHeader, (raiseValidity_iff st).mpr ⟨hf, hv⟩]

theorem raised_raised (b : CBlockIndex) {genesis : CBlockHeader} (h : b = genesisEntry genesis) :
    raised b = genesisEntry genesis := by
  rw [h]
  rfl

/-- `Initialize` after a failed load gives the state of a new manager exactly for the files
that leave nothing it cannot use. -/
theorem failed_load_leaves_nothing {params : ConsensusParams} {env : Env} {skipPow : Bool} {genesis : CBlockHeader}
    {s : ChainstateManager} (h0 : genesis.hashPrevBlock = 0) (hh : getHash genesis ≠ 0)
    (hg : params.hashGenesisBlock = getHash genesis)
    (h : (fresh skipPow).load getHash params env file = (s, false)) :
    s.setup getHash genesis = (fresh skipPow).setup getHash genesis ↔ file.LeavesNoResidue getHash genesis := by
  rw [setup_fresh getHash genesis skipPow h0 hh]
  -- only the block manager of the new state has changed
  obtain ⟨bm, hload, rfl⟩ : ∃ bm, ({} : BlockManager).load getHash file (getHash genesis) = (bm, false) ∧
      s = { fresh skipPow with toBlockManager := bm } := by
    unfold ChainstateManager.load at h
    rw [hg] at h
    rcases hl : (fresh skipPow).toBlockManager.load getHash file (getHash genesis) with ⟨bm, _ | _⟩
    · rw [hl] at h
      exact ⟨bm, hl, (congrArg Prod.fst h).symm⟩
    · rw [hl] at h
      cases congrArg Prod.snd h
  have hempty : bm.blockIndex = ∅ → bm.initialized = false →
      ({ fresh skipPow with toBlockManager := bm }).setup getHash genesis = (genesisState getHash skipPow genesis, true) :=
    fun hm hi => setup_empty getHash genesis { fresh skipPow with toBlockManager := bm } hm hi rfl h0 hh
  unfold HeaderFile.LeavesNoResidue
  rcases load_new_false hload with ⟨hstop, rfl⟩ | ⟨hopens, hthrow, hinit, tipHashStr, hbm⟩
  · refine iff_of_true (hempty rfl rfl) ?_
    rcases hstop with h | h
    · exact .inl h
    · exact .inr (.inl h)
  · have hkeys := (loadBlocks_residue getHash (getHash genesis) {} tipHashStr file.blocks).1
    rw [← hbm, show (scanRecords getHash [] file.blocks) = file.scan getHash from rfl] at hkeys
    have hmem : ∀ p, p ∈ bm.blockIndex ↔ ∃ r ∈ (file.scan getHash).1, r.hash getHash = p := fun p => by
      rw [hkeys.mem_iff, mem_indexRecords_empty]
    constructor
    · intro heq
      by_cases hnil : (file.scan getHash).1 = []
      · exact .inr (.inr (.inl hnil))
      -- every accepted record names the genesis block, so there is one
      have hall : ∀ r ∈ (file.scan getHash).1, r.hash getHash = getHash genesis := fun r hr =>
        mem_single.mp (setup_mem heq ((hmem _).mpr ⟨r, hr, rfl⟩))
      obtain ⟨r, hr⟩ : ∃ r, (file.scan getHash).1 = [r] := by
        have hnd : ((file.scan getHash).1.map (BlockRecord.hash getHash)).Nodup :=
          scanRecords_nodup file.blocks [] List.nodup_nil
        match hrs : (file.scan getHash).1 with
        | [] => exact absurd hrs hnil
        | [r] => exact ⟨r, rfl⟩
        | r :: r' :: rs =>
          rw [hrs] at hnd hall
          have hdup : r.hash getHash ∈ (r' :: rs).map (BlockRecord.hash getHash) := by
            rw [hall r (by simp), ← hall r' (by simp)]
            exact List.mem_cons_self
          exact absurd hdup (List.nodup_cons.mp hnd).1
      obtain ⟨parent, timeMax, hindex, hparent, hpass, hnopass⟩ := loadBlocks_single getHash
        (getHash genesis) {} tipHashStr
        (show scanRecords getHash [] file.blocks = ([r], (file.scan getHash).2) from Prod.ext hr rfl)
      have hg' := hall r (by rw [hr]; exact List.mem_cons_self)
      rw [← hbm, hg'] at hindex
      have hentry : raised { r.unlinked with pprev := parent, nTimeMax := timeMax } = genesisEntry genesis := by
        have hgen : (genesisState getHash skipPow genesis).blockIndex[getHash genesis]? = some (genesisEntry genesis) := by
          rw [show (genesisState getHash skipPow genesis).blockIndex = (∅ : BlockMap).insert _ _ from rfl,
            getElem?_single, if_pos rfl]
        rcases setup_single_entry hindex hinit heq with he | he <;> rw [hgen] at he
        · exact raised_raised _ (Option.some.inj he).symm
        · exact (Option.some.inj he).symm
      obtain ⟨hdesc, hnone, htime⟩ := (raised_eq_genesisEntry hg').mp hentry
      refine .inr (.inr (.inr ⟨r, hr, hdesc, hparent.mp hnone, ?_⟩))
      by_cases hp : relinks getHash (getHash genesis) r (file.scan getHash).2
      · exact .inr ⟨hp.1, hp.2.1⟩
      · rw [hnopass hp] at htime
        exact .inl (BitVec.eq_of_toNat_eq (by simpa using htime.symm))
    · rintro (hno | hth | hnil | ⟨r, hr, hdesc, hloop, htime⟩)
      · exact absurd hopens hno
      · exact absurd hth hthrow
      · refine hempty (Std.ExtTreeMap.ext_getElem? (fun {p} => ?_)) hinit
        rw [get_of_notMem (fun hp => by
          obtain ⟨r, hr, -⟩ := (hmem p).mp hp
          rw [hnil] at hr
          cases hr)]
        simp
      · obtain ⟨parent, timeMax, hindex, hparent, hpass, hnopass⟩ := loadBlocks_single getHash
          (getHash genesis) {} tipHashStr
          (show scanRecords getHash [] file.blocks = ([r], (file.scan getHash).2) from Prod.ext hr rfl)
        have hnone := hparent.mpr hloop
        have hbits : r.header.nTime = genesis.nTime := by
          have := congrArg CBlockHeader.nTime hdesc.header
          exact this
        have htm : timeMax = genesis.nTime.toNat := by
          by_cases hp : relinks getHash (getHash genesis) r (file.scan getHash).2
          · rw [hpass hp, hbits]
          · rw [hnopass hp]
            rcases htime with h | ⟨h1, h2⟩
            · rw [h]; rfl
            · exact absurd ⟨h1, h2, hdesc.hash, hdesc.nHeight⟩ hp
        rw [← hbm, hdesc.hash] at hindex
        have he := (raised_eq_genesisEntry hdesc.hash).mpr ⟨hdesc, hnone, htm⟩
        rw [setup_single hindex hinit rfl hnone hdesc.nHeight, he]
        rfl

end

/-! ## Files on a small chain -/

/-- Two readable records and one that names the second block again. -/
def repeatingFile : HeaderFile :=
  shortFile 1 [shortRecord 0 1 0 0, shortRecord 1 2 1 0, shortRecord 1 2 1 0]

/-- The second block is in the index that `Initialize` sets up. -/
theorem failed_load_leaves_block :
    ¬ ∀ s, (fresh false).load shortHash shortParams {} repeatingFile = (s, false) →
      s.setup shortHash (nonceHeader 0 1) = (fresh false).setup shortHash (nonceHeader 0 1) := by
  intro h
  have heq := h ((fresh false).load shortHash shortParams {} repeatingFile).1 (Prod.ext rfl (by decide +kernel))
  have hleft : (((fresh false).load shortHash shortParams {} repeatingFile).1.setup shortHash
      (nonceHeader 0 1)).1.blockIndex.size = 2 := by decide +kernel
  have hnew : ((fresh false).setup shortHash (nonceHeader 0 1)).1.blockIndex.size = 1 := by decide +kernel
  rw [heq, hnew] at hleft
  cases hleft

/-- A file that is refused at its first record. -/
theorem failed_load_leaves_nothing_short :
    ((fresh false).load shortHash shortParams {} (shortFile 1 [.null])).1.setup shortHash (nonceHeader 0 1) =
        (fresh false).setup shortHash (nonceHeader 0 1) ↔
      (shortFile 1 [.null]).LeavesNoResidue shortHash (nonceHeader 0 1) :=
  failed_load_leaves_nothing (by decide) (by decide) (by decide) (Prod.ext rfl (by decide +kernel))

end UnicityPow
