import UnicityPow.HeaderTree
import UnicityPow.Chainstate

/-!
# Accepting headers keeps the state well formed

`acceptOne_cases _ _` says once what one round of `AcceptBlockHeader` can do to a well-formed
state; `acceptBlockHeader_induct` carries what single rounds preserve through the
resolution of orphans.
-/

namespace UnicityPow

open Forest BlockMap

/-! ## The candidate order -/

theorem workBefore_iff {m : BlockMap} {a b : BlockPtr} : workBefore m a b = true ↔
    m.nChainWork b < m.nChainWork a ∨ m.nChainWork a = m.nChainWork b ∧
      (m.nHeight b < m.nHeight a ∨ m.nHeight a = m.nHeight b ∧ a < b) := by
  unfold workBefore
  split
  · rename_i h; simp [h]
  · rename_i h
    rw [not_not] at h
    split
    · rename_i hh; simp [h, hh]
    · rename_i hh; simp [h, not_not.mp hh]

theorem workBefore_strictTotal (m : BlockMap) : OrderedSet.StrictTotal (workBefore m) where
  irrefl a := by simp [workBefore]
  trans a b c hab hbc := by
    rw [workBefore_iff] at *
    rcases hab with h1 | ⟨e1, h1 | ⟨f1, h1⟩⟩ <;> rcases hbc with h2 | ⟨e2, h2 | ⟨f2, h2⟩⟩
    · exact .inl (BitVec.lt_trans h2 h1)
    · exact .inl (e2 ▸ h1)
    · exact .inl (e2 ▸ h1)
    · exact .inl (e1 ▸ h2)
    · exact .inr ⟨e1.trans e2, .inl (lt_trans h2 h1)⟩
    · exact .inr ⟨e1.trans e2, .inl (f2 ▸ h1)⟩
    · exact .inl (e1 ▸ h2)
    · exact .inr ⟨e1.trans e2, .inl (f1 ▸ h2)⟩
    · exact .inr ⟨e1.trans e2, .inr ⟨f1.trans f2, BitVec.lt_trans h1 h2⟩⟩
  total a b hab hba := by
    rw [← Bool.not_eq_true, workBefore_iff] at hab hba
    push Not at hab hba
    obtain ⟨h1, h1'⟩ := hab
    obtain ⟨h2, h2'⟩ := hba
    have hw : m.nChainWork a = m.nChainWork b := BitVec.le_antisymm (BitVec.not_lt.mp h1) (BitVec.not_lt.mp h2)
    obtain ⟨h3, h3'⟩ := h1' hw
    obtain ⟨h4, h4'⟩ := h2' hw.symm
    have hh : m.nHeight a = m.nHeight b := le_antisymm h3 h4
    exact BitVec.le_antisymm (BitVec.not_lt.mp (h4' hh.symm)) (BitVec.not_lt.mp (h3' hh))

theorem workBefore_work {m : BlockMap} {a b : BlockPtr} (h : workBefore m a b = true) :
    m.nChainWork b ≤ m.nChainWork a := by
  rcases workBefore_iff.mp h with h | ⟨h, -⟩
  · exact BitVec.le_of_lt h
  · rw [h]; exact BitVec.le_refl _

theorem sorted_extends {m m' : BlockMap} {l : List BlockPtr} (hE : Extends m m') (hl : ∀ p ∈ l, p ∈ m)
    (h : OrderedSet.Sorted (workBefore m) l) : OrderedSet.Sorted (workBefore m') l :=
  h.congr (fun a ha b hb => by
    unfold workBefore
    rw [hE.nChainWork a (hl a ha), hE.nChainWork b (hl b hb), hE.nHeight a (hl a ha), hE.nHeight b (hl b hb)])

/-! ## Well-formed states -/

/-- The invariant of every state in use: the index is a tree of headers, the chain vector a
path in it, and the candidates an ordered set of indexed blocks. A block is valid to
`TREE` unless it is failed. -/
structure Wf (getHash : CBlockHeader → Uint256) (genesis : BlockPtr) (s : ChainstateManager) : Prop where
  tree : HeaderTree getHash s.blockIndex genesis
  active : ∃ tip ∈ s.blockIndex, CChain.IsPath s.blockIndex s.activeChain tip
  genesisHash : s.genesisHash = genesis
  initialized : s.initialized = true
  valid : ∀ (p : BlockPtr) (b : CBlockIndex), s.blockIndex[p]? = some b → b.isValid = !b.isFailed
  candidates : ∀ p ∈ s.candidates, p ∈ s.blockIndex
  sorted : OrderedSet.Sorted (workBefore s.blockIndex) s.candidates

namespace Wf

variable {getHash : CBlockHeader → Uint256} {genesis : BlockPtr} {s : ChainstateManager}
  (W : Wf getHash genesis s)
include W

theorem tip_exists : ∃ tip ∈ s.blockIndex, s.getTip = some tip ∧
    CChain.IsPath s.blockIndex s.activeChain tip := by
  obtain ⟨tip, ht, hp⟩ := W.active
  exact ⟨tip, ht, hp.tip_eq, hp⟩

theorem isPath {tip : BlockPtr} (h : s.getTip = some tip) : CChain.IsPath s.blockIndex s.activeChain tip := by
  obtain ⟨tip', -, ht, hp⟩ := W.tip_exists
  rw [h] at ht
  cases ht
  exact hp

theorem tip_mem {tip : BlockPtr} (h : s.getTip = some tip) : tip ∈ s.blockIndex := by
  obtain ⟨tip', hm, ht, -⟩ := W.tip_exists
  rw [h] at ht
  cases ht
  exact hm

theorem isValid_iff {p : BlockPtr} (hp : p ∈ s.blockIndex) :
    s.blockIndex.isValid p = true ↔ s.blockIndex.isFailed p = false := by
  obtain ⟨b, hb⟩ := mem_iff.mp hp
  rw [isValid_of_get hb, isFailed_of_get hb, W.valid p b hb]
  simp

theorem contains_iff {tip p : BlockPtr} (h : s.getTip = some tip) :
    s.activeChain.contains s.blockIndex p = true ↔ Anc s.blockIndex.pprev p tip :=
  (W.isPath h).contains_iff W.tree.toTreeShape

end Wf

/-- Changes of the orphan pool, and nothing else. -/
def ChainstateManager.withPool (s : ChainstateManager)
    (orphans : Std.ExtTreeMap Uint256 OrphanHeader compare) (counts : Std.ExtTreeMap Int Int compare) :
    ChainstateManager :=
  { s with orphanHeaders := orphans, peerOrphanCount := counts }

theorem Wf.withPool {getHash : CBlockHeader → Uint256} {genesis : BlockPtr} {s : ChainstateManager}
    (W : Wf getHash genesis s) (o : Std.ExtTreeMap Uint256 OrphanHeader compare)
    (c : Std.ExtTreeMap Int Int compare) : Wf getHash genesis (s.withPool o c) :=
  ⟨W.tree, W.active, W.genesisHash, W.initialized, W.valid, W.candidates, W.sorted⟩

/-! ## One header -/

/-- What is known of a header that step 10 inserts: a new leaf below an unfailed parent,
valid to `TREE`, and nothing else of the chain state changed. -/
structure Inserted (getHash : CBlockHeader → Uint256) (genesis : BlockPtr) (env : Env) (s : ChainstateManager)
    (header : CBlockHeader) (s' : ChainstateManager) (b : CBlockIndex) : Prop where
  tree : HeaderTree getHash s'.blockIndex genesis
  isNew : getHash header ∉ s.blockIndex
  prev_mem : header.hashPrevBlock ∈ s.blockIndex
  prev_unfailed : s.blockIndex.isFailed header.hashPrevBlock = false
  checked : s.checkProofOfWork env header .COMMITMENT_ONLY = true ∧
    ChainstateManager.contextualCheck env s.blockIndex header header.hashPrevBlock = none ∧
    s.checkBlockHeaderWrapper env header = true
  index : s'.blockIndex = s.blockIndex.insert (getHash header) b
  pprev : b.pprev = some header.hashPrevBlock
  getBlockHeader : b.getBlockHeader = header
  status : b.status = ⟨ValidationLevel.TREE, FailureState.NOT_FAILED⟩
  nHeight : b.nHeight = s.blockIndex.nHeight header.hashPrevBlock + 1
  nChainWork : b.nChainWork = s.blockIndex.nChainWork header.hashPrevBlock + getBlockProof header.nBits
  nTimeReceived : b.nTimeReceived = env.time
  frame : s' =
    { s with
      blockIndex := s'.blockIndex
      bestHeader := s'.bestHeader
      cachedFinishedIbd := s'.cachedFinishedIbd }

theorem modify_insert (m : BlockMap) (p : BlockPtr) (b : CBlockIndex) (f : CBlockIndex → CBlockIndex) :
    (m.insert p b).modify p f = m.insert p (f b) := by
  apply Std.ExtTreeMap.ext_getElem?
  intro k
  rw [Std.ExtTreeMap.getElem?_modify, Std.ExtTreeMap.getElem?_insert_self, Std.ExtTreeMap.getElem?_insert,
    Std.ExtTreeMap.getElem?_insert]
  split <;> rfl

section
variable {getHash : CBlockHeader → Uint256} {params : ConsensusParams} {env : Env} {genesis : BlockPtr}
  {s : ChainstateManager}

theorem isInitialBlockDownload_frame (s : ChainstateManager) :
    (s.isInitialBlockDownload params env).1 =
      { s with cachedFinishedIbd := (s.isInitialBlockDownload params env).1.cachedFinishedIbd } := by
  unfold ChainstateManager.isInitialBlockDownload
  split
  · rfl
  · split <;> rfl

theorem updateBestHeader_frame (c : ChainSelector) (m : BlockMap) (p : BlockPtr) :
    c.updateBestHeader m p = { c with bestHeader := (c.updateBestHeader m p).bestHeader } := by
  unfold ChainSelector.updateBestHeader
  split
  · rfl
  · split <;> rfl

theorem registerHeader_frame (p : BlockPtr) :
    ChainstateManager.registerHeader params env s p =
      { s with
        blockIndex := s.blockIndex.modify p (fun b =>
          { b with nTimeReceived := env.time, status := b.status.raiseValidity ValidationLevel.TREE })
        bestHeader := (ChainstateManager.registerHeader params env s p).bestHeader
        cachedFinishedIbd := (ChainstateManager.registerHeader params env s p).cachedFinishedIbd } := by
  unfold ChainstateManager.registerHeader
  rw [isInitialBlockDownload_frame, updateBestHeader_frame]

variable (params env) in
/-- One round of `AcceptBlockHeader` on a well-formed state: a refusal or a known header
changes nothing, and otherwise the header is inserted. The walk of step 6 is never
taken, since an unfailed parent is valid to `TREE`. -/
theorem acceptOne_cases (W : Wf getHash genesis s) (header : CBlockHeader) (minPowChecked : Bool) :
    (∃ state, s.acceptOne getHash params env header minPowChecked = (s, .refused state)) ∨
    (s.acceptOne getHash params env header minPowChecked = (s, .known (getHash header)) ∧
      getHash header ∈ s.blockIndex ∧ s.blockIndex.isFailed (getHash header) = false) ∨
    (∃ s' b, s.acceptOne getHash params env header minPowChecked = (s', .inserted (getHash header)) ∧
      minPowChecked = true ∧ header.hashPrevBlock ≠ 0 ∧ Inserted getHash genesis env s header s' b) := by
  unfold ChainstateManager.acceptOne
  simp only []
  split
  · rename_i b hb
    split
    · exact .inl ⟨_, rfl⟩
    · rename_i hf
      exact .inr (.inl ⟨rfl, mem_of_get hb, by rw [isFailed_of_get hb]; simpa using hf⟩)
  · rename_i hnone
    have hnew : getHash header ∉ s.blockIndex := fun h => by
      obtain ⟨b, hb⟩ := mem_iff.mp h
      rw [hnone] at hb
      cases hb
    split
    · exact .inl ⟨_, rfl⟩
    · rename_i hpow
      split
      · split <;> exact .inl ⟨_, rfl⟩
      · rename_i hprev0
        split
        · exact .inl ⟨_, rfl⟩
        · rename_i prev hprev
          have hpm := mem_of_get hprev
          split
          · exact .inl ⟨_, rfl⟩
          · rename_i hpf
            have hpf' : s.blockIndex.isFailed header.hashPrevBlock = false := by
              rw [isFailed_of_get hprev]; simpa using hpf
            have hdead : s.failedAncestor header.hashPrevBlock = none := by
              unfold ChainstateManager.failedAncestor
              rw [if_pos ((W.isValid_iff hpm).mpr hpf')]
            rw [hdead]
            simp only []
            split
            · exact .inl ⟨_, rfl⟩
            · rename_i hctx
              split
              · exact .inl ⟨_, rfl⟩
              · rename_i hfull
                split
                · exact .inl ⟨_, rfl⟩
                · rename_i hmin
                  obtain ⟨b, hadd, hpp, hst, hhdr, hh, hw, hT⟩ :=
                    addToBlockIndex_spec W.tree header hnew hpm hprev0
                  rw [hadd]
                  refine .inr (.inr ⟨_,
                    { b with
                      nTimeReceived := env.time
                      status := b.status.raiseValidity ValidationLevel.TREE }, rfl, by simpa using hmin, hprev0,
                    ⟨?_, hnew, hpm, hpf', ⟨by simpa using hpow, hctx, by simpa using hfull⟩, ?_, hpp, hhdr,
                      by simp only [hst]; rfl, hh, hw, rfl, ?_⟩⟩)
                  · rw [registerHeader_frame]
                    exact hT.sameCore (.modify _ _ _ (fun _ => rfl))
                  · rw [registerHeader_frame]
                    exact modify_insert _ _ _ _
                  · rw [registerHeader_frame]

theorem Inserted.extends {header : CBlockHeader} {s' : ChainstateManager} {b : CBlockIndex}
    (h : Inserted getHash genesis env s header s' b) : Extends s.blockIndex s'.blockIndex := by
  rw [h.index]
  exact extends_insert b h.isNew

theorem Inserted.get {header : CBlockHeader} {s' : ChainstateManager} {b : CBlockIndex}
    (h : Inserted getHash genesis env s header s' b) : s'.blockIndex[getHash header]? = some b := by
  rw [h.index]
  exact Std.ExtTreeMap.getElem?_insert_self

theorem Inserted.get_old {header : CBlockHeader} {s' : ChainstateManager} {b c : CBlockIndex} {p : BlockPtr}
    (h : Inserted getHash genesis env s header s' b) (hc : s'.blockIndex[p]? = some c) :
    (p = getHash header ∧ c = b) ∨ (p ≠ getHash header ∧ s.blockIndex[p]? = some c) := by
  rw [h.index] at hc
  exact get_insert hc

theorem Inserted.isFailed_old {header : CBlockHeader} {s' : ChainstateManager} {b : CBlockIndex} {p : BlockPtr}
    (h : Inserted getHash genesis env s header s' b) :
    s'.blockIndex.isFailed p = s.blockIndex.isFailed p := by
  by_cases hp : p = getHash header
  · subst hp
    rw [isFailed_of_get h.get, CBlockIndex.isFailed, h.status]
    unfold BlockMap.isFailed
    rw [get_of_notMem h.isNew]
    rfl
  · unfold BlockMap.isFailed
    rw [h.index, getElem?_insert_ne _ _ (fun e => hp e.symm)]

theorem Inserted.isValid {header : CBlockHeader} {s' : ChainstateManager} {b : CBlockIndex}
    (h : Inserted getHash genesis env s header s' b) : b.isValid = true := by
  rw [CBlockIndex.isValid, h.status]
  rfl

theorem Inserted.wf {header : CBlockHeader} {s' : ChainstateManager} {b : CBlockIndex} (W : Wf getHash genesis s)
    (h : Inserted getHash genesis env s header s' b) : Wf getHash genesis s' := by
  have hactive : s'.activeChain = s.activeChain := by rw [h.frame]
  have hcand : s'.candidates = s.candidates := by rw [h.frame]
  refine ⟨h.tree, ?_, by rw [h.frame]; exact W.genesisHash, by rw [h.frame]; exact W.initialized, ?_, ?_, ?_⟩
  · obtain ⟨tip, ht, hp⟩ := W.active
    exact ⟨tip, h.extends.mem _ ht, by rw [hactive]; exact hp.extends W.tree.toTreeShape h.extends ht⟩
  · intro p c hc
    rcases h.get_old hc with ⟨rfl, rfl⟩ | ⟨-, hc⟩
    · rw [h.isValid, CBlockIndex.isFailed_of_isValid h.isValid]; rfl
    · exact W.valid p c hc
  · intro p hp
    rw [hcand] at hp
    exact h.extends.mem _ (W.candidates p hp)
  · rw [hcand]
    exact sorted_extends h.extends W.candidates W.sorted

end

/-! ## The orphan pool -/

namespace ChainstateManager

section
variable {getHash : CBlockHeader → Uint256} {params : ConsensusParams} {env : Env}

theorem dropOrphan_pool (s : ChainstateManager) (hash : Uint256) (orphan : OrphanHeader) :
    ∃ c, s.dropOrphan hash orphan = s.withPool (s.orphanHeaders.erase hash) c := by
  unfold dropOrphan decrementPeerCount
  split
  · exact ⟨_, rfl⟩
  · split <;> exact ⟨_, rfl⟩

theorem mem_orphansOf {s : ChainstateManager} {hash parent : Uint256} {orphan : OrphanHeader}
    (h : s.orphanHeaders[hash]? = some orphan) : hash ∈ s.orphansOf parent ↔ orphan.header.hashPrevBlock = parent := by
  unfold orphansOf
  simp only [List.mem_map, List.mem_filter, Prod.exists, exists_and_right, exists_eq_right,
    Std.ExtTreeMap.mem_toList_iff_getElem?_eq_some, h, beq_iff_eq]
  constructor
  · rintro ⟨orphan', ho, hp⟩
    cases ho
    exact hp
  · exact fun hp => ⟨orphan, rfl, hp⟩

variable (params env) in
theorem evictOrphanHeaders_pool (s : ChainstateManager) :
    ∃ o c, (s.evictOrphanHeaders params env).1 = s.withPool o c := by
  have hfold : ∀ (l : List (Uint256 × OrphanHeader)),
      ∃ o c, l.foldl (fun s kv => s.dropOrphan kv.1 kv.2) s = s.withPool o c := fun l =>
    List.foldlRecOn (motive := fun r => ∃ o c, r = s.withPool o c) l _ ⟨_, _, rfl⟩
      (fun r ⟨o, c, hr⟩ kv _ => by
        obtain ⟨c', hc'⟩ := dropOrphan_pool r kv.1 kv.2
        exact ⟨_, c', by rw [hc', hr]; rfl⟩)
  obtain ⟨o, c, h⟩ := hfold (s.orphanHeaders.toList.filter
    (fun kv => decide (params.nOrphanHeaderExpireTime < env.time - kv.2.nTimeReceived)))
  unfold evictOrphanHeaders
  simp only [h]
  split
  · split
    · exact ⟨_, _, rfl⟩
    · rename_i kv _
      obtain ⟨c', hc'⟩ := dropOrphan_pool (s.withPool o c) kv.1 kv.2
      exact ⟨_, c', by rw [hc']; rfl⟩
  · exact ⟨_, _, rfl⟩

variable (getHash params env) in
theorem addOrphanHeader_pool (s : ChainstateManager) (header : CBlockHeader) (peerId : Int) :
    ∃ o c, (s.addOrphanHeader getHash params env header peerId).1 = s.withPool o c := by
  unfold addOrphanHeader
  simp only []
  split
  · exact ⟨_, _, rfl⟩
  · split
    · exact ⟨_, _, rfl⟩
    · obtain ⟨o, c, h⟩ := evictOrphanHeaders_pool params env
        { s with peerOrphanCount := s.peerOrphanCount.insertIfNew peerId 0 }
      by_cases hfull : MAX_ORPHAN_HEADERS ≤ s.orphanHeaders.size
      · simp only [hfull, if_true]
        split
        · exact ⟨_, _, h⟩
        · rw [h]
          exact ⟨_, _, rfl⟩
      · simp only [hfull, if_false]
        exact ⟨_, _, rfl⟩

/-- What changes of the pool and single rounds preserve, the resolution of orphans
preserves. -/
theorem processOrphanHeaders_induct {P : ChainstateManager → Prop}
    (hpool : ∀ s o c, P s → P (s.withPool o c))
    (hone : ∀ s header, P s → P (s.acceptOne getHash params env header true).1) :
    ∀ (fuel : Nat) (s : ChainstateManager) (parent : Uint256), P s →
      P (processOrphanHeaders getHash params env fuel s parent) := by
  intro fuel
  induction fuel with
  | zero => intro s _ h; exact h
  | succ fuel ih =>
    intro s parent h
    unfold processOrphanHeaders
    refine List.foldlRecOn _ _ h (fun s hs hash _ => ?_)
    split
    · exact hs
    · rename_i orphan _
      obtain ⟨c, hc⟩ := dropOrphan_pool s hash orphan
      have h1 := hone (s.dropOrphan hash orphan) orphan.header (by rw [hc]; exact hpool s _ c hs)
      split
      · rename_i heq
        rw [heq] at h1
        exact ih _ _ h1
      · rename_i s' step _ heq
        rw [heq] at h1
        exact h1

theorem acceptBlockHeader_induct {P : ChainstateManager → Prop} (hpool : ∀ s o c, P s → P (s.withPool o c))
    (hone : ∀ s header minPow, P s → P (s.acceptOne getHash params env header minPow).1)
    {s : ChainstateManager} (h : P s) (header : CBlockHeader) (minPowChecked : Bool) :
    P (s.acceptBlockHeader getHash params env header minPowChecked).1 := by
  have h1 := hone s header minPowChecked h
  unfold acceptBlockHeader
  split
  · rename_i heq; rw [heq] at h1; exact h1
  · rename_i heq; rw [heq] at h1; exact h1
  · rename_i heq
    rw [heq] at h1
    exact processOrphanHeaders_induct hpool (fun s header => hone s header true) _ _ _ h1

end

end ChainstateManager

section
variable {getHash : CBlockHeader → Uint256} {params : ConsensusParams} {env : Env} {genesis : BlockPtr}
  {s : ChainstateManager}

theorem Wf.acceptOne (W : Wf getHash genesis s) (header : CBlockHeader) (minPowChecked : Bool) :
    Wf getHash genesis (s.acceptOne getHash params env header minPowChecked).1 := by
  rcases acceptOne_cases params env W header minPowChecked with
    ⟨state, h⟩ | ⟨h, -⟩ | ⟨s', b, h, -, -, hins⟩
  · rw [h]; exact W
  · rw [h]; exact W
  · rw [h]; exact hins.wf W

variable (params env) in
theorem Wf.acceptBlockHeader (W : Wf getHash genesis s) (header : CBlockHeader) (minPowChecked : Bool) :
    Wf getHash genesis (s.acceptBlockHeader getHash params env header minPowChecked).1 :=
  ChainstateManager.acceptBlockHeader_induct (fun _ o c h => h.withPool o c)
    (fun _ header minPow h => h.acceptOne header minPow) W header minPowChecked

theorem Wf.addOrphanHeader (W : Wf getHash genesis s) (header : CBlockHeader) (peerId : Int) :
    Wf getHash genesis (s.addOrphanHeader getHash params env header peerId).1 := by
  obtain ⟨o, c, h⟩ := ChainstateManager.addOrphanHeader_pool getHash params env s header peerId
  rw [h]
  exact W.withPool o c

theorem Wf.evictOrphanHeaders (W : Wf getHash genesis s) :
    Wf getHash genesis (s.evictOrphanHeaders params env).1 := by
  obtain ⟨o, c, h⟩ := ChainstateManager.evictOrphanHeaders_pool params env s
  rw [h]
  exact W.withPool o c

end

end UnicityPow
