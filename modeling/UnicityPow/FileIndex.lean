import UnicityPow.HeightOrder

/-!
# The records of a header file

`Load` builds its index in passes over the records. A file whose records can all be read,
name different blocks and name parents that are there stands for one index, and the
first two passes build it.
-/

namespace UnicityPow

open Forest BlockMap

/-! ## Records -/

/-- What one element of the `blocks` array says. -/
structure BlockRecord where
  header : CBlockHeader
  status : BlockStatus
  nHeight : Int
  nChainWork : ArithUint256

namespace BlockRecord

def pprev (r : BlockRecord) : Option BlockPtr :=
  if r.header.hashPrevBlock = 0 then none else some r.header.hashPrevBlock

/-- The entry made by the first pass, without its parent. -/
def unlinked (r : BlockRecord) : CBlockIndex :=
  { CBlockIndex.ofHeader r.header with status := r.status, nHeight := r.nHeight, nChainWork := r.nChainWork }

def entry (r : BlockRecord) : CBlockIndex := { r.unlinked with pprev := r.pprev }

theorem pprev_ne_null (r : BlockRecord) : r.pprev ≠ some 0 := by
  unfold pprev
  split
  · simp
  · rename_i h
    exact fun e => h (Option.some.inj e)

theorem getBlockHeader_entry (r : BlockRecord) : r.entry.getBlockHeader = r.header := by
  unfold entry pprev CBlockIndex.getBlockHeader
  split
  · rename_i h
    simp [unlinked, CBlockIndex.ofHeader, ← h]
  · simp [unlinked, CBlockIndex.ofHeader]

end BlockRecord

section
variable (getHash : CBlockHeader → Uint256)

def readRecord (j : Json) : Except LoadStop BlockRecord := do
  let header ← readHeader getHash j
  let status ← readStatus j
  let (nHeight, nChainWork) ← readMetadata j
  return { header, status, nHeight, nChainWork }

def readRecords (js : List Json) : List BlockRecord := js.filterMap (fun j => (readRecord getHash j).toOption)

def BlockRecord.hash (r : BlockRecord) : Uint256 := getHash r.header

/-- The map from the hashes of the records to what `f` makes of them. -/
def indexRecords {β : Type*} (f : BlockRecord → β) (rs : List BlockRecord)
    (m : Std.ExtTreeMap Uint256 β compare) : Std.ExtTreeMap Uint256 β compare :=
  rs.foldl (fun m r => m.insert (r.hash getHash) (f r)) m

/-- The index that the records stand for. -/
def fileIndex (rs : List BlockRecord) : BlockMap := indexRecords getHash BlockRecord.entry rs ∅

end

section
variable {getHash : CBlockHeader → Uint256} {rs : List BlockRecord} {m : BlockMap} {p : BlockPtr} {b : CBlockIndex}

theorem get_indexRecords {β : Type*} {b : β} (f : BlockRecord → β) : ∀ (rs : List BlockRecord)
    (m : Std.ExtTreeMap Uint256 β compare), (rs.map (BlockRecord.hash getHash)).Nodup →
    ((indexRecords getHash f rs m)[p]? = some b ↔
      (∃ r ∈ rs, r.hash getHash = p ∧ b = f r) ∨ p ∉ rs.map (BlockRecord.hash getHash) ∧ m[p]? = some b) := by
  intro rs
  induction rs with
  | nil => intro m _; simp [indexRecords]
  | cons r rs ih =>
    intro m hnd
    rw [List.map_cons] at hnd
    obtain ⟨hr, hnd⟩ := List.nodup_cons.mp hnd
    rw [show indexRecords getHash f (r :: rs) m = indexRecords getHash f rs (m.insert (r.hash getHash) (f r)) from rfl,
      ih _ hnd]
    by_cases hp : p = r.hash getHash
    · subst hp
      rw [Std.ExtTreeMap.getElem?_insert_self]
      constructor
      · rintro (⟨r', hr', he, -⟩ | ⟨-, h⟩)
        · exact absurd (List.mem_map.mpr ⟨r', hr', he⟩) hr
        · exact .inl ⟨r, List.mem_cons_self, rfl, (Option.some.inj h).symm⟩
      · rintro (⟨r', hr', he, hb⟩ | ⟨h, -⟩)
        · rcases List.mem_cons.mp hr' with rfl | hr'
          · exact .inr ⟨hr, by rw [hb]⟩
          · exact absurd (List.mem_map.mpr ⟨r', hr', he⟩) hr
        · simp at h
    · rw [getElem?_insert_ne _ _ (fun e => hp e.symm)]
      simp [hp, eq_comm]

theorem mem_indexRecords {β : Type*} (f : BlockRecord → β) :
    ∀ (rs : List BlockRecord) (m : Std.ExtTreeMap Uint256 β compare),
    p ∈ indexRecords getHash f rs m ↔ p ∈ rs.map (BlockRecord.hash getHash) ∨ p ∈ m := by
  intro rs
  induction rs with
  | nil => intro m; simp [indexRecords]
  | cons r rs ih =>
    intro m
    rw [show indexRecords getHash f (r :: rs) m = indexRecords getHash f rs (m.insert (r.hash getHash) (f r)) from rfl,
      ih, mem_insert, List.map_cons, List.mem_cons]
    tauto

theorem get_fileIndex (hnd : (rs.map (BlockRecord.hash getHash)).Nodup) :
    (fileIndex getHash rs)[p]? = some b ↔ ∃ r ∈ rs, r.hash getHash = p ∧ b = r.entry := by
  unfold fileIndex
  rw [get_indexRecords _ _ _ hnd]
  simp

theorem mem_indexRecords_empty {β : Type*} (f : BlockRecord → β) :
    p ∈ indexRecords getHash f rs ∅ ↔ ∃ r ∈ rs, r.hash getHash = p := by
  rw [mem_indexRecords]
  simp

theorem mem_fileIndex : p ∈ fileIndex getHash rs ↔ ∃ r ∈ rs, r.hash getHash = p := mem_indexRecords_empty _

/-! ## The first pass -/

theorem readRecord_ok {j : Json} {r : BlockRecord} : readRecord getHash j = .ok r ↔
    readHeader getHash j = .ok r.header ∧ readStatus j = .ok r.status ∧
      readMetadata j = .ok (r.nHeight, r.nChainWork) := by
  unfold readRecord
  cases readHeader getHash j with
  | error e => simp [bind, Except.bind]
  | ok h => cases readStatus j with
    | error e => simp [bind, Except.bind]
    | ok s => cases readMetadata j with
      | error e => simp [bind, Except.bind]
      | ok hw =>
        obtain ⟨a, w⟩ := hw
        obtain ⟨h', s', a', w'⟩ := r
        simp [bind, Except.bind, pure, Except.pure]

theorem readRecords_cons {j : Json} {js : List Json} {r : BlockRecord} (h : readRecord getHash j = .ok r) :
    readRecords getHash (j :: js) = r :: readRecords getHash js := by
  simp [readRecords, h, Except.toOption]

/-- All records can be read and none names a block already in the index. -/
structure FirstPassOk (getHash : CBlockHeader → Uint256) (js : List Json) (m : BlockMap) : Prop where
  readable : ∀ j ∈ js, ∃ r, readRecord getHash j = .ok r
  nodup : ((readRecords getHash js).map (BlockRecord.hash getHash)).Nodup
  disjoint : ∀ r ∈ readRecords getHash js, r.hash getHash ∉ m

theorem FirstPassOk.cons {j : Json} {js : List Json} {r : BlockRecord} (h : readRecord getHash j = .ok r) :
    FirstPassOk getHash (j :: js) m ↔
      r.hash getHash ∉ m ∧ FirstPassOk getHash js (m.insert (r.hash getHash) b) := by
  constructor
  · intro ⟨h1, h2, h3⟩
    rw [readRecords_cons h] at h2 h3
    rw [List.map_cons] at h2
    obtain ⟨hr, hnd⟩ := List.nodup_cons.mp h2
    refine ⟨h3 r List.mem_cons_self, fun j' hj' => h1 j' (List.mem_cons_of_mem _ hj'), hnd, fun r' hr' hm => ?_⟩
    rcases mem_insert.mp hm with he | hm
    · exact hr (List.mem_map.mpr ⟨r', hr', he⟩)
    · exact h3 r' (List.mem_cons_of_mem _ hr') hm
  · intro ⟨h0, h1, h2, h3⟩
    refine ⟨fun j' hj' => ?_, ?_, fun r' hr' => ?_⟩
    · rcases List.mem_cons.mp hj' with rfl | hj'
      · exact ⟨r, h⟩
      · exact h1 j' hj'
    · rw [readRecords_cons h, List.map_cons, List.nodup_cons]
      refine ⟨fun hm => ?_, h2⟩
      obtain ⟨r', hr', he⟩ := List.mem_map.mp hm
      exact h3 r' hr' (mem_insert.mpr (.inl he))
    · rw [readRecords_cons h] at hr'
      rcases List.mem_cons.mp hr' with rfl | hr'
      · exact h0
      · exact fun hm => h3 r' hr' (mem_insert.mpr (.inr hm))

/-- The parent that the second pass looks up. -/
def BlockRecord.prevHash (r : BlockRecord) : Uint256 := r.header.hashPrevBlock

theorem firstPass_none {m' : BlockMap} {prevs' : Std.ExtTreeMap Uint256 Uint256 compare} :
    ∀ (js : List Json) (m : BlockMap) (prevs : Std.ExtTreeMap Uint256 Uint256 compare),
      firstPass getHash js (m, prevs) = ((m', prevs'), none) ↔
        FirstPassOk getHash js m ∧ m' = indexRecords getHash BlockRecord.unlinked (readRecords getHash js) m ∧
          prevs' = indexRecords getHash BlockRecord.prevHash (readRecords getHash js) prevs := by
  intro js
  induction js with
  | nil =>
    intro m prevs
    constructor
    · intro h
      cases h
      exact ⟨⟨(fun j hj => nomatch hj), List.nodup_nil, (fun r hr => nomatch hr)⟩, rfl, rfl⟩
    · rintro ⟨-, rfl, rfl⟩
      rfl
  | cons j js ih =>
    intro m prevs
    have hbad : (∀ r, readRecord getHash j ≠ .ok r) → ¬ FirstPassOk getHash (j :: js) m := fun hn h => by
      obtain ⟨r, hr⟩ := h.readable j List.mem_cons_self
      exact hn r hr
    unfold firstPass
    cases h1 : readHeader getHash j with
    | error e => simp [hbad (fun r hr => by have := (readRecord_ok.mp hr).1; rw [h1] at this; cases this)]
    | ok header => cases h2 : readStatus j with
      | error e => simp [hbad (fun r hr => by have := (readRecord_ok.mp hr).2.1; rw [h2] at this; cases this)]
      | ok status =>
        simp only []
        by_cases hmem : getHash header ∈ m
        · have : ¬ FirstPassOk getHash (j :: js) m := fun h => by
            obtain ⟨r, hr⟩ := h.readable j List.mem_cons_self
            have hh := (readRecord_ok.mp hr).1
            rw [h1] at hh
            cases hh
            exact h.disjoint r (by rw [readRecords_cons hr]; exact List.mem_cons_self) hmem
          simp [hmem, this]
        · rw [if_neg hmem]
          cases h3 : readMetadata j with
          | error e =>
            simp [hbad (fun r hr => by have := (readRecord_ok.mp hr).2.2; rw [h3] at this; cases this)]
          | ok hw =>
            obtain ⟨height, chainwork⟩ := hw
            have hr : readRecord getHash j = .ok ⟨header, status, height, chainwork⟩ :=
              readRecord_ok.mpr ⟨h1, h2, h3⟩
            simp only []
            rw [ih, FirstPassOk.cons hr, readRecords_cons hr]
            constructor
            · exact fun ⟨h, hm, hp⟩ => ⟨⟨hmem, h⟩, hm, hp⟩
            · exact fun ⟨⟨_, h⟩, hm, hp⟩ => ⟨h, hm, hp⟩

/-! ## The second pass -/

/-- One round of the second pass, its parent found. -/
def linkParent (m : BlockMap) (x : Uint256 × Uint256) : BlockMap :=
  m.modify x.1 (fun b => { b with pprev := if x.2 = 0 then none else some x.2 })

theorem mem_linkParent {x : Uint256 × Uint256} : p ∈ linkParent m x ↔ p ∈ m := Std.ExtTreeMap.mem_modify

theorem connectParents_true {m' : BlockMap} : ∀ (l : List (Uint256 × Uint256)) (m : BlockMap),
    connectParents l m = (m', true) ↔ (∀ x ∈ l, x.2 ≠ 0 → x.2 ∈ m) ∧ m' = l.foldl linkParent m := by
  intro l
  induction l with
  | nil =>
    intro m
    constructor
    · intro h
      cases h
      exact ⟨(fun x hx => nomatch hx), rfl⟩
    · rintro ⟨-, rfl⟩
      rfl
  | cons x l ih =>
    intro m
    obtain ⟨hash, prevHash⟩ := x
    have hnext : (∀ y ∈ l, y.2 ≠ 0 → y.2 ∈ linkParent m (hash, prevHash)) ↔ ∀ y ∈ l, y.2 ≠ 0 → y.2 ∈ m := by
      simp only [mem_linkParent]
    unfold connectParents
    simp only [List.forall_mem_cons, List.foldl_cons]
    rw [← hnext]
    by_cases h0 : prevHash = 0
    · have hlink : linkParent m (hash, prevHash) = m.modify hash (fun b => { b with pprev := none }) := by
        simp only [linkParent, if_pos h0]
      rw [if_pos h0, ← hlink, ih]
      simp only [ne_eq, h0, not_true, false_implies, true_and]
    · have hlink : linkParent m (hash, prevHash) = m.modify hash (fun b => { b with pprev := some prevHash }) := by
        simp only [linkParent, if_neg h0]
      rw [if_neg h0]
      by_cases hm : prevHash ∈ m
      · rw [if_pos hm, ← hlink, ih]
        simp only [ne_eq, h0, not_false_eq_true, hm, implies_true, true_and]
      · rw [if_neg hm]
        constructor
        · intro h
          exact absurd (congrArg Prod.snd h) (by simp)
        · rintro ⟨⟨h, -⟩, -⟩
          exact absurd (h h0) hm

theorem get_linkParents_of_notMem : ∀ (l : List (Uint256 × Uint256)) (m : BlockMap), p ∉ l.map Prod.fst →
    (l.foldl linkParent m)[p]? = m[p]? := by
  intro l
  induction l with
  | nil => intro m _; rfl
  | cons x l ih =>
    intro m hp
    rw [List.map_cons, List.mem_cons, not_or] at hp
    rw [List.foldl_cons, ih _ hp.2]
    unfold linkParent
    rw [Std.ExtTreeMap.getElem?_modify, if_neg]
    exact fun h => hp.1 (Std.LawfulEqOrd.eq_of_compare h).symm

theorem get_linkParents {q : Uint256} : ∀ (l : List (Uint256 × Uint256)) (m : BlockMap), (l.map Prod.fst).Nodup →
    (p, q) ∈ l →
      (l.foldl linkParent m)[p]? = m[p]?.map (fun b => { b with pprev := if q = 0 then none else some q }) := by
  intro l
  induction l with
  | nil => intro m _ h; cases h
  | cons x l ih =>
    intro m hnd hx
    rw [List.map_cons] at hnd
    obtain ⟨hxl, hnd⟩ := List.nodup_cons.mp hnd
    rw [List.foldl_cons]
    rcases List.mem_cons.mp hx with rfl | hx
    · rw [get_linkParents_of_notMem _ _ hxl]
      unfold linkParent
      rw [Std.ExtTreeMap.getElem?_modify_self]
    · have hne : x.1 ≠ p := fun e => hxl (List.mem_map.mpr ⟨(p, q), hx, e.symm⟩)
      rw [ih _ hnd hx]
      unfold linkParent
      rw [Std.ExtTreeMap.getElem?_modify, if_neg (fun h => hne (Std.LawfulEqOrd.eq_of_compare h))]

theorem nodup_keys_toList (t : Std.ExtTreeMap Uint256 Uint256 compare) : (t.toList.map Prod.fst).Nodup := by
  rw [Std.ExtTreeMap.map_fst_toList_eq_keys]
  exact Std.ExtTreeMap.nodup_keys

theorem linkParents_eq (hnd : (rs.map (BlockRecord.hash getHash)).Nodup) :
    (indexRecords getHash BlockRecord.prevHash rs ∅).toList.foldl linkParent
      (indexRecords getHash BlockRecord.unlinked rs ∅) = fileIndex getHash rs := by
  apply Std.ExtTreeMap.ext_getElem?
  intro p
  by_cases hp : ∃ r ∈ rs, r.hash getHash = p
  · obtain ⟨r, hr, rfl⟩ := hp
    have h1 : (indexRecords getHash BlockRecord.unlinked rs ∅)[r.hash getHash]? = some r.unlinked :=
      (get_indexRecords _ _ _ hnd).mpr (.inl ⟨r, hr, rfl, rfl⟩)
    have h2 : (indexRecords getHash BlockRecord.prevHash rs ∅)[r.hash getHash]? = some r.prevHash :=
      (get_indexRecords _ _ _ hnd).mpr (.inl ⟨r, hr, rfl, rfl⟩)
    rw [(get_fileIndex hnd).mpr ⟨r, hr, rfl, rfl⟩,
      get_linkParents _ _ (nodup_keys_toList _) (Std.ExtTreeMap.mem_toList_iff_getElem?_eq_some.mpr h2), h1]
    rfl
  · have h2 : p ∉ indexRecords getHash BlockRecord.prevHash rs ∅ := fun h => hp ((mem_indexRecords_empty _).mp h)
    have h1 : p ∉ indexRecords getHash BlockRecord.unlinked rs ∅ := fun h => hp ((mem_indexRecords_empty _).mp h)
    rw [get_linkParents_of_notMem _ _ (by rwa [Std.ExtTreeMap.map_fst_toList_eq_keys, Std.ExtTreeMap.mem_keys]),
      get_of_notMem h1, get_of_notMem (fun h => hp (mem_fileIndex.mp h))]

/-- Both passes together: every record names a parent that another record describes. -/
theorem connectParents_records (m' : BlockMap) (hnd : (rs.map (BlockRecord.hash getHash)).Nodup) :
    connectParents (indexRecords getHash BlockRecord.prevHash rs ∅).toList
        (indexRecords getHash BlockRecord.unlinked rs ∅) = (m', true) ↔
      (∀ r ∈ rs, r.header.hashPrevBlock ≠ 0 → r.header.hashPrevBlock ∈ fileIndex getHash rs) ∧
        m' = fileIndex getHash rs := by
  rw [connectParents_true, linkParents_eq hnd]
  refine and_congr_left (fun _ => ?_)
  constructor
  · intro h r hr h0
    have h2 : (indexRecords getHash BlockRecord.prevHash rs ∅)[r.hash getHash]? = some r.prevHash :=
      (get_indexRecords _ _ _ hnd).mpr (.inl ⟨r, hr, rfl, rfl⟩)
    have := h (_, _) (Std.ExtTreeMap.mem_toList_iff_getElem?_eq_some.mpr h2) h0
    exact mem_fileIndex.mpr ((mem_indexRecords_empty _).mp this)
  · rintro h ⟨p, q⟩ hx h0
    rw [Std.ExtTreeMap.mem_toList_iff_getElem?_eq_some, get_indexRecords _ _ _ hnd] at hx
    rcases hx with ⟨r, hr, -, rfl⟩ | ⟨-, hx⟩
    · exact (mem_indexRecords_empty _).mpr (mem_fileIndex.mp (h r hr h0))
    · simp at hx

end

end UnicityPow
