import UnicityPow.CandidateSteps

/-!
# The order of the candidates over runs

What becomes of the entries of the candidates in a run, the stages of its loads included: their order
stays the true one exactly when no load gets to the index of a manager that holds candidates.
-/

namespace UnicityPow

open BlockMap

/-! ## The parents in a file -/

/-- Parents are blocks of the index. -/
def ParentsKnown (m : BlockMap) : Prop := ∀ p q, m.pprev p = some q → q ∈ m

section
variable {m m' : BlockMap} {genesis : Uint256} {getHash : CBlockHeader → Uint256}

theorem ParentsKnown.of_links (hm : ParentsKnown m) (h : SameLinks m m') : ParentsKnown m' := fun p q hq => by
  rw [h.pprev_eq] at hq
  exact h.mem_iff.mpr (hm p q hq)

theorem ParentsKnown.of_unlinked (h : ∀ p, m.pprev p = none) : ParentsKnown m := fun p q hq => by
  rw [h p] at hq
  cases hq

theorem ParentsKnown.link (hm : ParentsKnown m) (hash : BlockPtr) {prev : Option BlockPtr}
    (hprev : ∀ q, prev = some q → q ∈ m) : ParentsKnown (m.modify hash fun b => { b with pprev := prev }) := by
  intro p q hq
  refine Std.ExtTreeMap.mem_modify.mpr ?_
  obtain ⟨b, hb⟩ := mem_iff.mp (mem_of_pprev hq)
  rw [pprev_of_get hb] at hq
  rw [Std.ExtTreeMap.getElem?_modify] at hb
  split at hb
  · rename_i he
    cases Std.LawfulEqOrd.eq_of_compare he
    obtain ⟨b', -, rfl⟩ := Option.map_eq_some_iff.mp hb
    exact hprev q hq
  · exact hm p q ((pprev_of_get hb).trans hq)

theorem pprev_empty (p : BlockPtr) : (∅ : BlockMap).pprev p = none := by
  unfold BlockMap.pprev
  rw [Std.ExtTreeMap.getElem?_empty]
  rfl

/-- The first pass leaves every parent null. -/
theorem firstPass_unlinked : ∀ (js : List Json) (m : BlockMap) (prevs : Std.ExtTreeMap Uint256 Uint256 compare),
    (∀ p, m.pprev p = none) → ∀ p, (firstPass getHash js (m, prevs)).1.1.pprev p = none
  | [], m, prevs, hm => hm
  | j :: js, m, prevs, hm => by
    unfold firstPass
    split
    · exact hm
    rename_i header _
    split
    · exact hm
    rename_i status _
    split
    · have hsame : SameLinks m (m.modify (getHash header) fun b => { b with status := status }) :=
        .modify _ _ _ fun _ => rfl
      intro p
      dsimp only
      rw [hsame.pprev_eq]
      exact hm p
    split
    · exact hm
    · refine firstPass_unlinked js _ _ fun p => ?_
      unfold BlockMap.pprev
      by_cases hp : getHash header = p
      · subst hp
        rw [Std.ExtTreeMap.getElem?_insert_self]
        rfl
      · rw [getElem?_insert_ne _ _ hp]
        exact hm p

/-- The second pass links only to blocks it has found in the index. -/
theorem parentsKnown_connectParents (l : List (Uint256 × Uint256)) : ∀ {m : BlockMap}, ParentsKnown m →
    ParentsKnown (connectParents l m).1 := by
  induction l with
  | nil => exact fun hm => hm
  | cons x l ih =>
    intro m hm
    obtain ⟨hash, prevHash⟩ := x
    unfold connectParents
    have hnull : ParentsKnown (m.modify hash fun b => { b with pprev := none }) := by
      refine hm.link hash fun q hq => ?_
      cases hq
    split
    · exact ih hnull
    split
    · rename_i hprev
      exact ih (hm.link hash fun q hq => Option.some.inj hq ▸ hprev)
    · exact hnull

theorem thirdPass_links : ∀ (l : List BlockPtr) (m : BlockMap), SameLinks m (thirdPass l m).1
  | [], m => .refl _ m
  | p :: rest, m => by
    unfold thirdPass
    cases hb : m[p]? with
    | none => exact thirdPass_links rest m
    | some b =>
      have hsame : SameLinks m (m.insert p (m.buildSkip (setTimeMax m b))) :=
        .insert hb ((links_buildSkip _ _).trans (links_setTimeMax _ _))
      dsimp only
      split
      · exact .refl _ m
      · exact hsame.trans (thirdPass_links rest _)

theorem loadTip_blockIndex (s : BlockManager) (tipHashStr : String) :
    (s.loadTip tipHashStr).1.blockIndex = s.blockIndex := by
  unfold BlockManager.loadTip
  split
  · rfl
  split
  · rfl
  split
  · rfl
  · dsimp only
    split <;> rfl

variable (getHash) in
theorem parentsKnown_loadBlocks (s : BlockManager) (genesis : Uint256) (tipHashStr : String) (js : List Json) :
    ParentsKnown (s.loadBlocks getHash genesis tipHashStr js).1.blockIndex := by
  have hfirst : ParentsKnown (firstPass getHash js (∅, ∅)).1.1 :=
    .of_unlinked (firstPass_unlinked js ∅ ∅ pprev_empty)
  unfold BlockManager.loadBlocks
  generalize firstPass getHash js (∅, ∅) = r at hfirst ⊢
  obtain ⟨⟨m, prevs⟩, _ | stop⟩ := r
  swap
  · exact hfirst
  have hsecond := parentsKnown_connectParents prevs.toList hfirst
  dsimp only at hsecond ⊢
  generalize connectParents prevs.toList m = r at hsecond ⊢
  obtain ⟨m, _ | _⟩ := r
  · exact hsecond
  dsimp only at hsecond ⊢
  split
  · exact hsecond
  have hthird := hsecond.of_links (thirdPass_links m.byHeight m)
  generalize thirdPass m.byHeight m = r at hthird ⊢
  obtain ⟨m, _ | _⟩ := r
  · exact hthird
  · dsimp only
    rw [loadTip_blockIndex]
    exact hthird

theorem parentsKnown_empty : ParentsKnown (∅ : BlockMap) := .of_unlinked pprev_empty

variable (getHash) in
/-- Whatever comes of a load that clears the index, parents are blocks of the index. -/
theorem parentsKnown_load {file : HeaderFile} (h : file.clearsIndex genesis = true) (s : BlockManager) :
    ParentsKnown (s.load getHash file genesis).1.blockIndex := by
  unfold BlockManager.load
  cases file with
  | missing => cases h
  | malformed => exact parentsKnown_empty
  | doc root =>
    unfold HeaderFile.clearsIndex at h
    unfold BlockManager.loadDoc
    dsimp only at h ⊢
    generalize BlockManager.readPreamble root = r at h ⊢
    obtain (_ | _) | ⟨version, genesisHashStr, tipHashStr⟩ := r
    · cases h
    · exact parentsKnown_empty
    dsimp only at h ⊢
    rw [if_neg (not_not.mpr (beq_iff_eq.mp h))]
    have hblocks := parentsKnown_loadBlocks getHash { s with blockIndex := ∅, activeChain := [] } genesis tipHashStr
    split
    · rename_i bm heq
      split at heq
      · rename_i js _
        have hbm := hblocks js
        rw [heq] at hbm
        exact hbm
      · cases heq
    · rename_i bm heq
      split at heq
      · rename_i js _
        have hbm := hblocks js
        rw [heq] at hbm
        exact hbm
      · cases heq
        exact parentsKnown_empty
    · exact parentsKnown_empty

variable (getHash) in
theorem load_of_not_clears {file : HeaderFile} (h : file.clearsIndex genesis = false) (s : BlockManager) :
    s.load getHash file genesis = (s, false) := by
  unfold BlockManager.load
  cases file with
  | missing => rfl
  | malformed => cases h
  | doc root =>
    unfold HeaderFile.clearsIndex at h
    unfold BlockManager.loadDoc
    dsimp only at h ⊢
    generalize BlockManager.readPreamble root = r at h ⊢
    obtain (_ | _) | ⟨version, genesisHashStr, tipHashStr⟩ := r
    · rfl
    · cases h
    dsimp only at h ⊢
    rw [if_pos (ne_of_beq_false h)]

end

namespace ChainstateManager

/-! ## The stages of a load -/

/-- A block that is a candidate before and after a change is in the index both times, with the same
height and the same work. -/
def KeepsKeys (s s' : ChainstateManager) : Prop :=
  ∀ p ∈ s.candidates, p ∈ s'.candidates → p ∈ s.blockIndex ∧ p ∈ s'.blockIndex ∧
    s'.blockIndex.nHeight p = s.blockIndex.nHeight p ∧ s'.blockIndex.nChainWork p = s.blockIndex.nChainWork p

/-- The candidates are blocks of the index and stand in the order that their entries have now, and the
first one is the best. A new entry is thus no candidate's. -/
structure InOrder (s : ChainstateManager) : Prop where
  known : ∀ p ∈ s.candidates, p ∈ s.blockIndex
  sorted : OrderedSet.Sorted (workBefore s.blockIndex) s.candidates
  begin : ∀ p, s.candidates.head? = some p → ∀ q ∈ s.candidates, q = p ∨ workBefore s.blockIndex p q = true

/-- From one state of the list to the next no candidate has another place in the order. -/
def OrderKept (l : List ChainstateManager) : Prop := l.IsChain KeepsKeys ∧ ∀ s ∈ l, s.InOrder

section
variable {s s' : ChainstateManager}

theorem Ordered.inOrder (h : s.Ordered) : s.InOrder := by
  refine ⟨h.known, h.sorted, fun p hp q hq => ?_⟩
  have hsorted := h.sorted
  generalize s.candidates = l at hsorted hp hq
  cases l with
  | nil => cases hq
  | cons a l =>
    cases hp
    rcases List.mem_cons.mp hq with rfl | hq
    · exact .inl rfl
    · exact .inr ((List.pairwise_cons.mp hsorted).1 q hq)

theorem InOrder.of_empty (h : s.candidates = []) : s.InOrder := by
  constructor <;> simp [h, OrderedSet.sorted_nil]

theorem KeepsKeys.of_empty (h : s.candidates = []) : KeepsKeys s s' := fun p hp => by
  rw [h] at hp
  cases hp

theorem Keeps.keepsKeys (h : Keeps s s') (hs : s.Ordered) : KeepsKeys s s' := fun p hp hp' => by
  obtain ⟨hext, hs'⟩ := h hs
  have hmem := hs.known p hp
  exact ⟨hmem, hs'.known p hp', hext.nHeight p hmem, hext.nChainWork p hmem⟩

theorem Keeps.orderKept (h : Keeps s s') (hs : s.Ordered) : OrderKept [s, s'] := by
  refine ⟨List.isChain_pair.mpr (h.keepsKeys hs), fun t ht => ?_⟩
  rcases List.mem_pair.mp ht with rfl | rfl
  · exact hs.inOrder
  · exact (h hs).2.inOrder

theorem orderKept_of_empty {l : List ChainstateManager} (hl : ∀ t ∈ l, t.candidates = []) : OrderKept l := by
  refine ⟨List.isChain_iff_forall_rel_of_append_cons_cons.mpr fun t t' l₁ l₂ he => .of_empty (hl t ?_), ?_⟩
  · rw [he]
    exact List.mem_append_right l₁ List.mem_cons_self
  · exact fun t ht => .of_empty (hl t ht)

/-- Managers without candidates may come before any change. -/
theorem OrderKept.append {l l' : List ChainstateManager} (h : OrderKept l') (hl : ∀ t ∈ l, t.candidates = []) :
    OrderKept (l ++ l') := by
  obtain ⟨hchain, horder⟩ := orderKept_of_empty hl
  refine ⟨hchain.append h.1 fun t ht _ _ => .of_empty (hl t (List.mem_of_getLast? ht)), fun t ht => ?_⟩
  rcases List.mem_append.mp ht with ht | ht
  · exact horder t ht
  · exact h.2 t ht

theorem keeps_addLoadedLeaf {p : BlockPtr} (hp : p ∈ s.blockIndex) : Keeps s (s.addLoadedLeaf p) := by
  unfold addLoadedLeaf
  split
  · refine (keeps_addUnchecked hp).trans (.of_frame rfl ?_)
    dsimp only
    rw [updateBestHeader_frame]
  · exact .refl s

theorem keeps_foldl_addLoadedLeaf : ∀ (l : List BlockPtr) (s : ChainstateManager), (∀ p ∈ l, p ∈ s.blockIndex) →
    Keeps s (l.foldl addLoadedLeaf s)
  | [], s, _ => .refl s
  | p :: l, s, hl => by
    obtain ⟨cs, best, hleaf, -⟩ := addLoadedLeaf_spec s p
    refine (keeps_addLoadedLeaf (hl p List.mem_cons_self)).trans (keeps_foldl_addLoadedLeaf l _ fun q hq => ?_)
    rw [hleaf]
    exact hl q (List.mem_cons_of_mem p hq)

/-- Rebuilding the candidates fills an empty set from the index. -/
theorem keeps_rebuildCandidates (s : ChainstateManager) :
    Keeps { s with candidates := [], bestHeader := none } s.rebuildCandidates :=
  keeps_foldl_addLoadedLeaf _ _ fun _ hp => Std.ExtTreeMap.mem_keys.mp hp

theorem keeps_selectTip (s : ChainstateManager) : Keeps s s.selectTip := by
  have h := keeps_resolveCandidate s none
  unfold selectTip
  generalize s.resolveCandidate none = r at h ⊢
  obtain ⟨s', _ | best⟩ := r
  · exact h
  dsimp only at h ⊢
  split
  · exact h
  · exact h.trans (.of_frame rfl (List.Sublist.refl _))

variable {env : Env}

theorem revalidate_candidates (s : ChainstateManager) (p : BlockPtr) :
    (s.revalidate env p).candidates = s.candidates := by
  unfold revalidate
  split <;> rfl

theorem scanl_revalidate_candidates : ∀ (l : List BlockPtr) (s t : ChainstateManager),
    t ∈ l.scanl (revalidate env) s → t.candidates = s.candidates
  | [], s, t, ht => by rw [List.scanl_nil, List.mem_singleton] at ht; rw [ht]
  | p :: l, s, t, ht => by
    rw [List.scanl_cons, List.mem_cons] at ht
    rcases ht with rfl | ht
    · rfl
    · exact (scanl_revalidate_candidates l _ t ht).trans (revalidate_candidates s p)

theorem ordered_of_empty (h : s.candidates = []) (hp : ParentsKnown s.blockIndex) : s.Ordered where
  known := fun p hm => by
    rw [h] at hm
    cases hm
  sorted := h ▸ OrderedSet.sorted_nil _
  parents := hp

variable (env) in
/-- From the loaded index on: the set is empty until it is rebuilt, which is after the last change of
the index. -/
theorem revalidated_kept (hc : s.candidates = []) (hp : ParentsKnown s.blockIndex) {revalidated : ChainstateManager}
    (hr : revalidated = s.blockIndex.byHeight.foldl (revalidate env) s) :
    OrderKept (s.blockIndex.byHeight.scanl (revalidate env) s ++
        [{ revalidated with candidates := [], bestHeader := none }, revalidated.rebuildCandidates,
          revalidated.rebuildCandidates.selectTip]) ∧
      revalidated.rebuildCandidates.selectTip.Ordered := by
  have hparents : ParentsKnown revalidated.blockIndex := by
    obtain ⟨failed, hfold⟩ := foldl_revalidate env s.blockIndex.byHeight s
    rw [hr, hfold]
    exact hp.of_links (sameBy_rebuild links_revalidateEntry _ _)
  have hempty : ({ revalidated with candidates := [], bestHeader := none } : ChainstateManager).Ordered :=
    ordered_of_empty rfl hparents
  obtain ⟨-, hrebuilt⟩ := keeps_rebuildCandidates revalidated hempty
  have hselect := keeps_selectTip revalidated.rebuildCandidates
  refine ⟨?_, (hselect hrebuilt).2⟩
  rw [List.append_cons]
  refine (hselect.orderKept hrebuilt).append fun t ht => ?_
  rcases List.mem_append.mp ht with ht | ht
  · exact (scanl_revalidate_candidates _ s t ht).trans hc
  · rw [List.mem_singleton.mp ht]

variable {getHash : CBlockHeader → Uint256} {params : ConsensusParams}

variable (getHash params env) in
/-- A load that finds no candidates keeps the order at each stage, and one that is refused before it
clears the index changes nothing. -/
theorem loadStages_kept (file : HeaderFile) (hs : s.Ordered)
    (hempty : file.clearsIndex params.hashGenesisBlock = true → s.candidates = []) :
    OrderKept (s :: s.loadStages getHash params env file) ∧ (s.load getHash params env file).1.Ordered := by
  unfold loadStages load
  by_cases hclear : file.clearsIndex params.hashGenesisBlock = true
  swap
  · rw [if_neg hclear, load_of_not_clears getHash (Bool.eq_false_iff.mpr hclear)]
    exact ⟨(Keeps.refl s).orderKept hs, hs⟩
  rw [if_pos hclear]
  have hc := hempty hclear
  have hparents := parentsKnown_load getHash hclear s.toBlockManager
  generalize s.toBlockManager.load getHash file params.hashGenesisBlock = r at hparents ⊢
  obtain ⟨bm, _ | _⟩ := r
  · refine ⟨orderKept_of_empty fun t ht => ?_, ordered_of_empty hc hparents⟩
    rcases List.mem_cons.mp ht with rfl | ht
    · exact hc
    rcases List.mem_pair.mp ht with rfl | rfl <;> exact hc
  have hkept := revalidated_kept env (s := { s with toBlockManager := bm }) hc hparents rfl
  refine ⟨hkept.1.append (l := [s, { s with blockIndex := ∅, activeChain := [] }]) fun t ht => ?_, hkept.2⟩
  rcases List.mem_pair.mp ht with rfl | rfl <;> exact hc

/-- A load that clears the index leaves the candidates of the manager without their entries. -/
theorem loadStages_broken {file : HeaderFile} (hclear : file.clearsIndex params.hashGenesisBlock = true)
    (hc : s.candidates ≠ []) :
    ¬ OrderKept (s :: s.loadStages getHash params env file) := by
  rintro ⟨hchain, -⟩
  unfold loadStages at hchain
  rw [if_pos hclear] at hchain
  obtain ⟨p, hp⟩ := List.exists_mem_of_ne_nil _ hc
  obtain ⟨-, hmem, -⟩ := (List.isChain_cons_cons.mp hchain).1 p hp hp
  exact absurd hmem Std.ExtTreeMap.not_mem_empty

/-! ## Runs -/

/-- The load, if the call is one, is refused before it clears the index or finds no candidates. -/
def LoadsEmpty (params : ConsensusParams) (s : ChainstateManager) : ChainOp → Prop
  | .load _ file => file.clearsIndex params.hashGenesisBlock = true → s.candidates = []
  | _ => True

variable (getHash params) in
theorem keeps_call (s : ChainstateManager) {op : ChainOp} (hload : ∀ env file, op ≠ .load env file)
    (hrestart : ∀ env, op ≠ .restart env) : Keeps s (s.call getHash params op) := by
  cases op with
  | setup genesis => exact keeps_setup s genesis
  | acceptBlockHeader env header minPow => exact keeps_acceptBlockHeader getHash params env s header minPow
  | tryAddBlockIndexCandidate p =>
    change Keeps s (if p ∈ s.blockIndex then s.tryAddCandidate p else s)
    split
    · exact keeps_tryAddCandidate s p
    · exact .refl s
  | acceptAndTryAdd env header minPow => exact keeps_acceptAndTryAdd s header minPow
  | processNewBlockHeader env header minPow => exact keeps_processNewBlockHeader s header minPow
  | activateBestChain given =>
    cases given with
    | none => exact keeps_activateBestChain s none
    | some p =>
      change Keeps s (if p ∈ s.blockIndex then (activateBestChain params s (some p)).1 else s)
      split
      · exact keeps_activateBestChain s (some p)
      · exact .refl s
  | invalidateBlock hash => exact keeps_invalidateBlock s hash
  | addOrphanHeader env header peerId =>
    obtain ⟨o, c, h⟩ := addOrphanHeader_pool getHash params env s header peerId
    change Keeps s (s.addOrphanHeader getHash params env header peerId).1
    rw [h]
    exact .of_frame rfl (List.Sublist.refl _)
  | evictOrphanHeaders env =>
    obtain ⟨o, c, h⟩ := evictOrphanHeaders_pool params env s
    change Keeps s (s.evictOrphanHeaders params env).1
    rw [h]
    exact .of_frame rfl (List.Sublist.refl _)
  | load env file => exact absurd rfl (hload env file)
  | restart env => exact absurd rfl (hrestart env)

/-- One call. -/
theorem stages_kept (hs : s.Ordered) (op : ChainOp) (hop : LoadsEmpty params s op) :
    OrderKept (s :: s.stages getHash params op) ∧ (s.call getHash params op).Ordered := by
  have hcall (hload : ∀ env file, op ≠ .load env file) (hrestart : ∀ env, op ≠ .restart env) :
      OrderKept [s, s.call getHash params op] ∧ (s.call getHash params op).Ordered := by
    have h := keeps_call getHash params s hload hrestart
    exact ⟨h.orderKept hs, (h hs).2⟩
  cases op with
  | load env file => exact loadStages_kept env getHash params file hs hop
  | restart env =>
    have hfresh : (fresh s.testSkipPowChecks).Ordered := ordered_of_empty rfl parentsKnown_empty
    obtain ⟨hstages, hlast⟩ := loadStages_kept env getHash params s.save hfresh fun _ => rfl
    refine ⟨⟨List.isChain_cons_cons.mpr ⟨fun p _ hp => (nomatch hp), hstages.1⟩, ?_⟩, hlast⟩
    exact List.forall_mem_cons.mpr ⟨hs.inOrder, hstages.2⟩
  | _ => exact hcall (fun _ _ => nofun) (fun _ => nofun)

variable (getHash params) in
/-- Where no load clears the index of a manager that holds candidates, every state of the run is
ordered. -/
theorem ordered_run (skipPow : Bool) : ∀ (l : List ChainOp),
    (∀ before op after, l = before ++ op :: after →
      LoadsEmpty params (before.foldl (call getHash params) (fresh skipPow)) op) →
    (l.foldl (call getHash params) (fresh skipPow)).Ordered := by
  intro l
  induction l using List.reverseRecOn with
  | nil => exact fun _ => ordered_of_empty rfl parentsKnown_empty
  | append_singleton l op ih =>
    intro hl
    rw [List.foldl_append]
    have hbefore := ih fun before op' after he => hl before op' (after ++ [op]) (by rw [he]; simp)
    exact (stages_kept hbefore op (hl l op [] rfl)).2

variable (getHash params) in
/-- The comparator tells any two blocks apart, and a run of calls keeps the candidates in its order,
at every stage of every call, if and only if each of its loads that gets to the index is of a manager
without candidates. -/
theorem candidate_order_iff (skipPow : Bool) (l : List ChainOp) :
    (∀ m, OrderedSet.StrictTotal (workBefore m)) ∧
      ((∀ before op after, l = before ++ op :: after →
          OrderKept (before.foldl (call getHash params) (fresh skipPow) ::
            (before.foldl (call getHash params) (fresh skipPow)).stages getHash params op)) ↔
        ∀ before op after, l = before ++ op :: after →
          LoadsEmpty params (before.foldl (call getHash params) (fresh skipPow)) op) := by
  refine ⟨workBefore_strictTotal, fun h before op after hl => ?_, fun h before op after hl => ?_⟩
  · have hkept := h before op after hl
    cases op with
    | load env file =>
      intro hclear
      by_contra hc
      exact loadStages_broken hclear hc hkept
    | _ => trivial
  · have hordered := ordered_run getHash params skipPow before fun before' op' after' he =>
      h before' op' (after' ++ op :: after) (by rw [hl, he]; simp)
    exact (stages_kept hordered op (h before op after hl)).1

end

/-- `Load` of a file that is no JSON, after `Initialize`: its `catch` clears the index, and genesis is
left a candidate. -/
theorem failed_load_strands_genesis :
    (¬ ∀ before op after, [ChainOp.setup (nonceHeader 0 1), .load {} .malformed] = before ++ op :: after →
      OrderKept (before.foldl (call nonceHash nonceParams) (fresh false) ::
        (before.foldl (call nonceHash nonceParams) (fresh false)).stages nonceHash nonceParams op)) ∧
      (call nonceHash nonceParams nonceStart (.load {} .malformed)).candidates = [1] ∧
      (call nonceHash nonceParams nonceStart (.load {} .malformed)).blockIndex = ∅ := by
  have hcand : nonceStart.candidates = [1] := by decide +kernel
  refine ⟨fun h => ?_, hcand, rfl⟩
  have hkept := h [.setup (nonceHeader 0 1)] (.load {} .malformed) [] rfl
  refine loadStages_broken rfl (fun he => ?_) hkept
  change nonceStart.candidates = [] at he
  rw [hcand] at he
  cases he

end ChainstateManager

end UnicityPow
