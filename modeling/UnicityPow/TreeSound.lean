import UnicityPow.InvalidateSound
import UnicityPow.LoadedState
import UnicityPow.SetupSound

/-!
# The index is a tree of headers

Headers enter the index one at a time or from a file. Both ways leave a tree rooted in
genesis, in every state that any order of calls reaches.
-/

namespace UnicityPow

open Forest BlockMap

/-- What the index stands for: every entry lies under the hash of its header, genesis is the
only entry without a parent, and the other fields follow from the parent. -/
structure IndexTree (getHash : CBlockHeader → Uint256) (m : BlockMap) (genesis : BlockPtr) : Prop where
  root : ∀ p, (p ∈ m ∧ m.pprev p = none) ↔ p = genesis
  key : ∀ (p : BlockPtr) (b : CBlockIndex), m[p]? = some b → getHash b.getBlockHeader = p
  genesisEntry : ∀ b, m[genesis]? = some b →
    b.nHeight = 0 ∧ b.nChainWork = getBlockProof b.nBits ∧ b.nTimeMax = b.getBlockTime
  child : ∀ (p : BlockPtr) (b : CBlockIndex), m[p]? = some b → p ≠ genesis →
    ∃ q c, b.pprev = some q ∧ q = b.getBlockHeader.hashPrevBlock ∧ m[q]? = some c ∧
      b.nHeight = c.nHeight + 1 ∧ b.nChainWork = c.nChainWork + getBlockProof b.nBits ∧
      b.nTimeMax = max c.nTimeMax b.getBlockTime ∧
      ∃ r, b.pskip = some r ∧ Anc m.pprev r p ∧ m.nHeight r = getSkipHeight b.nHeight
  acyclic : WellFounded (fun q p => m.pprev p = some q)
  reaches : ∀ p ∈ m, Anc m.pprev genesis p

theorem HeaderTree.indexTree {getHash : CBlockHeader → Uint256} {m : BlockMap} {genesis : BlockPtr}
    (T : HeaderTree getHash m genesis) : IndexTree getHash m genesis where
  root p := by
    constructor
    · rintro ⟨hp, hr⟩
      exact T.eq_genesis_of_root hp hr
    · rintro rfl
      exact ⟨T.genesis_mem, T.genesis_root⟩
  key := T.hash
  genesisEntry b hb := by
    obtain ⟨hp, hh⟩ := T.genesis_entry hb
    have hw := T.work genesis b hb
    have ht := T.timeMax genesis b hb
    rw [hp] at hw ht
    exact ⟨hh, by simpa using hw, ht⟩
  child p b hb hne := by
    obtain ⟨q, hq⟩ : ∃ q, b.pprev = some q := by
      cases hq : b.pprev with
      | none => exact absurd (T.root p b hb hq).1 hne
      | some q => exact ⟨q, rfl⟩
    obtain ⟨hqm, hh⟩ := T.parent p b q hb hq
    obtain ⟨c, hc⟩ := mem_iff.mp hqm
    obtain ⟨r, hr⟩ := Option.ne_none_iff_exists'.mp (T.skipSet p b hb (by rw [hq]; simp))
    have hw := T.work p b hb
    have ht := T.timeMax p b hb
    rw [hq] at hw ht
    refine ⟨q, c, hq, ?_, hc, ?_, ?_, ?_, r, hr, T.skip p b r hb hr⟩
    · simp [CBlockIndex.getBlockHeader, hq]
    · rw [hh, nHeight_of_get hc]
    · simpa only [Option.elim_some, nChainWork_of_get hc] using hw
    · simpa only [Option.elim_some, nTimeMax, hc] using ht
  acyclic := Subrelation.wf (r := fun q p => m.rank q < m.rank p)
    (fun {q p} h => by have := T.ranked p q h; omega) (InvImage.wf m.rank Nat.lt_wfRel.wf)
  reaches p hp := T.anc_genesis hp

/-! ## Before the first `Initialize` or `Load` -/

namespace ChainstateManager

/-- A manager that knows no block yet. -/
structure Blank (s : ChainstateManager) : Prop where
  manager : s.toBlockManager = {}
  candidates : s.candidates = []

variable {getHash : CBlockHeader → Uint256} {params : ConsensusParams} {env : Env} {s : ChainstateManager}

theorem Blank.get (h : s.Blank) (p : BlockPtr) : s.blockIndex[p]? = none := by
  rw [h.manager]
  simp

theorem Blank.withPool (h : s.Blank) (o : Std.ExtTreeMap Uint256 OrphanHeader compare)
    (c : Std.ExtTreeMap Int Int compare) : (s.withPool o c).Blank := ⟨h.manager, h.candidates⟩

variable (getHash params env) in
theorem Blank.acceptBlockHeader (h : s.Blank) (header : CBlockHeader) (minPow : Bool) :
    ∃ state, s.acceptBlockHeader getHash params env header minPow = (s, .error state) := by
  have hone : ∃ state, s.acceptOne getHash params env header minPow = (s, .refused state) := by
    unfold acceptOne
    simp only [h.get]
    split
    · exact ⟨_, rfl⟩
    · split
      · split <;> exact ⟨_, rfl⟩
      · exact ⟨_, rfl⟩
  obtain ⟨state, hone⟩ := hone
  unfold ChainstateManager.acceptBlockHeader
  rw [hone]
  exact ⟨state, rfl⟩

theorem Blank.activateBestChain (h : s.Blank) : (activateBestChain params s none).1 = s := by
  unfold ChainstateManager.activateBestChain activateLoop resolveCandidate ChainSelector.findMostWorkChain
  obtain ⟨bm, ⟨cs, best⟩, o, c, f, l, t⟩ := s
  cases h.candidates
  rfl

/-- Set up, a manager in its first state is the one that knows genesis only, but for the pools it
came with. -/
theorem Blank.setup_eq (h : s.Blank) {header : CBlockHeader} {s' : ChainstateManager}
    (hs : s.setup getHash header = (s', true)) :
    header.hashPrevBlock = 0 ∧ s' =
      { genesisState getHash s.testSkipPowChecks header with
        orphanHeaders := s.orphanHeaders
        peerOrphanCount := s.peerOrphanCount
        failedBlocks := s.failedBlocks
        cachedFinishedIbd := s.cachedFinishedIbd } := by
  have hinit := initializeWith_of_setup getHash header hs
  rw [h.manager] at hinit
  obtain ⟨h0, hh⟩ := initializeWith_empty_true getHash header hinit
  have he := setup_empty getHash header s (by rw [h.manager]) (by rw [h.manager]) h.candidates h0 hh
  rw [hs] at he
  exact ⟨h0, congrArg Prod.fst he⟩

theorem Blank.setup (h : s.Blank) {header : CBlockHeader} {s' : ChainstateManager}
    (hs : s.setup getHash header = (s', true)) : Wf getHash (getHash header) s' := by
  obtain ⟨h0, rfl⟩ := h.setup_eq hs
  have W := genesisState_wf getHash header s.testSkipPowChecks h0
  exact ⟨W.tree, W.active, W.genesisHash, W.initialized, W.valid, W.candidates, W.sorted⟩

end ChainstateManager

/-! ## Every step keeps the tree -/

open ChainstateManager

/-- A manager in use, whatever its genesis block. -/
def InUse (getHash : CBlockHeader → Uint256) (s : ChainstateManager) : Prop := ∃ genesis, Wf getHash genesis s

section
variable {getHash : CBlockHeader → Uint256} {params : ConsensusParams} {genesis : BlockPtr} {s : ChainstateManager}

theorem Wf.processNewBlockHeader {env : Env} (W : Wf getHash genesis s) (header : CBlockHeader) (minPow : Bool) :
    Wf getHash genesis (processNewBlockHeader params getHash env s header minPow).1 := by
  have W1 := W.acceptBlockHeader params env header minPow
  unfold ChainstateManager.processNewBlockHeader
  rcases he : s.acceptBlockHeader getHash params env header minPow with ⟨s1, _ | p⟩ <;> rw [he] at W1
  · exact W1
  · exact (Wf.tryAddCandidate W1 p).activateBestChain none (fun _ h => by cases h)

theorem Wf.acceptAndTryAdd {env : Env} (W : Wf getHash genesis s) (header : CBlockHeader) (minPow : Bool) :
    Wf getHash genesis (s.acceptAndTryAdd getHash params env header minPow) := by
  have W1 := W.acceptBlockHeader params env header minPow
  unfold ChainstateManager.acceptAndTryAdd
  rcases he : s.acceptBlockHeader getHash params env header minPow with ⟨s1, _ | p⟩ <;> rw [he] at W1
  · exact W1
  · exact W1.tryAddCandidate p

theorem Wf.setup (W : Wf getHash genesis s) (header : CBlockHeader) : (s.setup getHash header).2 = false := by
  unfold ChainstateManager.setup BlockManager.initializeWith
  rw [W.initialized]
  rfl

variable (params) in
/-- No call changes the genesis block, except that a loaded file has that of the parameters. -/
theorem Wf.step (W : Wf getHash genesis s) (a : ChainOp) :
    Wf getHash genesis (step getHash params s a) ∨ Wf getHash params.hashGenesisBlock (step getHash params s a) := by
  cases a with
  | setup header =>
    rw [step_setup]
    exact ifSucceeds_induct (P := fun s => Wf getHash genesis s ∨ _) (.inl W) (fun s' h => by
      have := W.setup header
      rw [h] at this
      cases this)
  | acceptBlockHeader env header minPow => exact .inl (W.acceptBlockHeader _ _ header minPow)
  | tryAddBlockIndexCandidate p =>
    rw [step_tryAddBlockIndexCandidate]
    split
    · exact .inl (W.tryAddCandidate p)
    · exact .inl W
  | acceptAndTryAdd env header minPow => exact .inl (W.acceptAndTryAdd header minPow)
  | processNewBlockHeader env header minPow => exact .inl (W.processNewBlockHeader header minPow)
  | activateBestChain given =>
    cases given with
    | none => exact .inl (W.activateBestChain none (fun _ h => by cases h))
    | some p =>
      rw [step_activateBestChain_some]
      split
      · rename_i hp
        exact .inl (W.activateBestChain (some p) (fun q hq => by cases hq; exact hp))
      · exact .inl W
  | invalidateBlock hash => exact .inl (W.invalidateBlock hash)
  | addOrphanHeader env header peerId => exact .inl (W.addOrphanHeader header peerId)
  | evictOrphanHeaders env => exact .inl (W.evictOrphanHeaders)
  | load env file =>
    rw [step_load]
    exact ifSucceeds_induct (P := fun s => Wf getHash genesis s ∨ Wf getHash params.hashGenesisBlock s) (.inl W)
      (fun s' h => .inr (load_loaded h).wf)
  | restart env =>
    rw [step_restart]
    exact ifSucceeds_induct (P := fun s => Wf getHash genesis s ∨ Wf getHash params.hashGenesisBlock s) (.inl W)
      (fun s' h => .inr (load_loaded h).wf)

variable (params) in
theorem InUse.step (h : InUse getHash s) (a : ChainOp) : InUse getHash (ChainstateManager.step getHash params s a) := by
  obtain ⟨genesis, W⟩ := h
  rcases W.step params a with W | W
  · exact ⟨_, W⟩
  · exact ⟨_, W⟩

variable (getHash params) in
theorem ChainstateManager.Blank.step_runtime (h : s.Blank) (a : ChainOp) (ha : IsRuntimeOp a) :
    (step getHash params s a).Blank := by
  have hnone : ∀ p, p ∉ s.blockIndex := fun p hp => by simpa [h.get] using mem_iff.mp hp
  cases a with
  | acceptBlockHeader env header minPow =>
    obtain ⟨state, he⟩ := h.acceptBlockHeader getHash params env header minPow
    rw [step_acceptBlockHeader, he]
    exact h
  | tryAddBlockIndexCandidate p =>
    rw [step_tryAddBlockIndexCandidate, if_neg (hnone p)]
    exact h
  | acceptAndTryAdd env header minPow =>
    obtain ⟨state, he⟩ := h.acceptBlockHeader getHash params env header minPow
    rw [step_acceptAndTryAdd, ChainstateManager.acceptAndTryAdd, he]
    exact h
  | processNewBlockHeader env header minPow =>
    obtain ⟨state, he⟩ := h.acceptBlockHeader getHash params env header minPow
    rw [step_processNewBlockHeader, ChainstateManager.processNewBlockHeader, he]
    exact h
  | activateBestChain given =>
    cases given with
    | none =>
      rw [step_activateBestChain_none, h.activateBestChain]
      exact h
    | some p =>
      rw [step_activateBestChain_some, if_neg (hnone p)]
      exact h
  | invalidateBlock hash =>
    rw [step_invalidateBlock, ChainstateManager.invalidateBlock, h.get]
    exact h
  | addOrphanHeader env header peerId =>
    obtain ⟨o, c, he⟩ := addOrphanHeader_pool getHash params env s header peerId
    rw [step_addOrphanHeader, he]
    exact h.withPool o c
  | evictOrphanHeaders env =>
    obtain ⟨o, c, he⟩ := evictOrphanHeaders_pool params env s
    rw [step_evictOrphanHeaders, he]
    exact h.withPool o c
  | setup _ => exact ha.elim
  | load _ _ => exact ha.elim
  | restart _ => exact ha.elim

theorem ChainstateManager.Blank.step (h : s.Blank) (a : ChainOp) :
    (step getHash params s a).Blank ∨ InUse getHash (step getHash params s a) := by
  cases a with
  | setup header =>
    rw [step_setup]
    exact ifSucceeds_induct (P := fun s => s.Blank ∨ InUse getHash s) (.inl h) (fun s' hs => .inr ⟨_, h.setup hs⟩)
  | load env file =>
    rw [step_load]
    exact ifSucceeds_induct (P := fun s => s.Blank ∨ InUse getHash s) (.inl h)
      (fun s' hs => .inr ⟨_, (load_loaded hs).wf⟩)
  | restart env =>
    rw [step_restart]
    exact ifSucceeds_induct (P := fun s => s.Blank ∨ InUse getHash s) (.inl h)
      (fun s' hs => .inr ⟨_, (load_loaded hs).wf⟩)
  | _ => exact .inl (h.step_runtime _ _ _ trivial)

theorem reaches_blank_or_inUse {skipPow : Bool}
    (hrun : Run.Reaches (step getHash params) (fun _ _ => True) (fresh skipPow) s) :
    s.Blank ∨ InUse getHash s :=
  hrun.invariant (P := fun s => s.Blank ∨ InUse getHash s) (.inl ⟨rfl, rfl⟩) (fun s a h _ => by
    rcases h with h | h
    · exact h.step a
    · exact .inr (h.step _ a))

/-- In every state that any calls reach from a new manager, the index is empty, and the manager
not set up, or it is a tree of headers. -/
theorem index_is_tree {skipPow : Bool}
    (hrun : Run.Reaches (step getHash params) (fun _ _ => True) (fresh skipPow) s) :
    (s.blockIndex = ∅ ∧ s.initialized = false) ∨
      s.initialized = true ∧ ∃ genesis, IndexTree getHash s.blockIndex genesis := by
  rcases reaches_blank_or_inUse hrun with h | ⟨genesis, W⟩
  · exact .inl ⟨by rw [h.manager], by rw [h.manager]⟩
  · exact .inr ⟨W.initialized, genesis, W.tree.indexTree⟩

end

/-- Genesis, one header, and a restart. -/
theorem index_is_tree_nonce :
    ∃ s, s = step nonceHash nonceParams (step nonceHash nonceParams (step nonceHash nonceParams (fresh false)
        (.setup (nonceHeader 0 1))) (.processNewBlockHeader {} (nonceHeader 1 2) true)) (.restart {}) ∧
      ((s.blockIndex = ∅ ∧ s.initialized = false) ∨
        s.initialized = true ∧ ∃ genesis, IndexTree nonceHash s.blockIndex genesis) :=
  ⟨_, rfl, index_is_tree (.next (.next (.next .start trivial) trivial) trivial)⟩

end UnicityPow
