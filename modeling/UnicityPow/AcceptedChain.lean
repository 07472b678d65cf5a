import UnicityPow.AncestrySound
import UnicityPow.LoadedBranches
import UnicityPow.TreeSound
import UnicityPow.Validation

/-!
# Trees of accepted headers

The contextual check of a header depends on the headers of its ancestors only. An index whose blocks
passed it below their parents stays one when headers are accepted and statuses change.
-/

namespace UnicityPow

open Forest BlockMap

/-! ## Ancestor headers -/

namespace BlockMap

section
variable {m : BlockMap} {genesis p : BlockPtr} (T : TreeShape m genesis)
include T

theorem length_ancestry (fuel : Nat) (hp : p ∈ m) (hf : m.rank p < fuel) :
    (m.ancestry fuel (some p)).length = m.rank p + 1 := by
  induction fuel generalizing p with
  | zero => omega
  | succ fuel ih =>
    obtain ⟨b, hb⟩ := mem_iff.mp hp
    rw [ancestry_of_get hb, List.length_cons]
    cases hq : b.pprev with
    | none =>
      have hzero : m.rank p = 0 := by
        unfold rank
        rw [nHeight_of_get hb, (T.root p b hb hq).2]
        rfl
      rw [hzero]
      cases fuel <;> rfl
    | some q =>
      have hpq : m.pprev p = some q := by rw [pprev_of_get hb, hq]
      have hrank := T.ranked p q hpq
      have hrank' : m.rank p = m.rank q + 1 := by
        have h1 := T.rank_cast p
        have h2 := T.rank_cast q
        have h3 := (T.parent p b q hb hq).2
        rw [← nHeight_of_get hb] at h3
        omega
      rw [ih (T.mem_parent hpq) (by omega), hrank']

theorem ancestry_take (k : Nat) : ∀ (fuel : Nat) (p : BlockPtr), p ∈ m → m.rank p < fuel →
    m.ancestry k (some p) = (m.ancestry fuel (some p)).take k := by
  induction k with
  | zero => intro fuel p _ _; rfl
  | succ k ih =>
    intro fuel p hp hf
    obtain ⟨f, rfl⟩ : ∃ f, fuel = f + 1 := ⟨fuel - 1, by omega⟩
    obtain ⟨b, hb⟩ := mem_iff.mp hp
    rw [ancestry_of_get hb, ancestry_of_get hb, List.take_succ_cons]
    cases hq : b.pprev with
    | none => cases k <;> cases f <;> rfl
    | some q =>
      have hpq : m.pprev p = some q := by rw [pprev_of_get hb, hq]
      have hrank := T.ranked p q hpq
      rw [ih f q (T.mem_parent hpq) (by omega)]

theorem ancestry_getElem? (n : Nat) : ∀ (fuel : Nat) (p a : BlockPtr), p ∈ m → n < fuel →
    climb m.pprev n p = some a →
    (m.ancestry fuel (some p))[n]? = m[a]?.map CBlockIndex.getBlockHeader := by
  induction n with
  | zero =>
    intro fuel p a hp hf h
    obtain ⟨f, rfl⟩ : ∃ f, fuel = f + 1 := ⟨fuel - 1, by omega⟩
    obtain ⟨b, hb⟩ := mem_iff.mp hp
    obtain rfl : p = a := Option.some.inj h
    rw [ancestry_of_get hb, hb]
    rfl
  | succ n ih =>
    intro fuel p a hp hf h
    obtain ⟨f, rfl⟩ : ∃ f, fuel = f + 1 := ⟨fuel - 1, by omega⟩
    obtain ⟨b, hb⟩ := mem_iff.mp hp
    cases hq : m.pprev p with
    | none => simp [climb, hq] at h
    | some q =>
      rw [climb_succ hq] at h
      rw [ancestry_of_get hb, List.getElem?_cons_succ, ← pprev_of_get hb, hq]
      exact ih f q a (T.mem_parent hq) (by omega) h

/-! ## The checks on the list -/

theorem getNextWorkRequired_past (params : PowParams) (hp : p ∈ m) : getNextWorkRequired params m (some p) =
    pastWorkRequired params (m.ancestry (m.size + 1) (some p)) := by
  obtain ⟨b, hb⟩ := mem_iff.mp hp
  have hsize := rank_lt_size T hp
  have hlen := length_ancestry T (m.size + 1) hp (by omega)
  have hcast := T.rank_cast p
  have hnth := ancestry_getElem? T
  rw [ancestry_of_get hb] at hlen
  rw [List.length_cons] at hlen
  have hheight : ((m.ancestry m.size b.pprev).length : Int) = m.nHeight p := by omega
  unfold getNextWorkRequired
  rw [ancestry_of_get hb]
  unfold pastWorkRequired
  dsimp only
  rw [hheight]
  by_cases hreg : params.chainType = .REGTEST
  · rw [if_pos hreg, if_pos hreg]
  · rw [if_neg hreg, if_neg hreg]
    by_cases hbelow : m.nHeight p < params.nASERTAnchorHeight
    · rw [if_pos hbelow, if_pos hbelow]
    · rw [if_neg hbelow, if_neg hbelow]
      by_cases hneg : params.nASERTAnchorHeight < 0
      · have hnone : m.getAncestor p params.nASERTAnchorHeight = none := by
          unfold getAncestor
          rw [if_pos (.inr hneg)]
        rw [if_pos hneg, hnone]
      · obtain ⟨a, ha, hanc, hah⟩ := T.getAncestor_spec hp (not_lt.mp hneg) (not_lt.mp hbelow)
        obtain ⟨c, hc⟩ := mem_iff.mp (T.mem_anc hanc hp)
        have hcasta := T.rank_cast a
        have hdist : (m.nHeight p - params.nASERTAnchorHeight).toNat = m.rank p - m.rank a := by omega
        have hget := hnth _ (m.size + 1) p a hp (by omega) (hanc.climb T.ranked)
        rw [ancestry_of_get hb, hc, ← hdist] at hget
        rw [if_neg hneg, ha, hget]
        dsimp only [Option.map_some]
        rw [if_neg (not_not.mpr hah)]
        unfold BlockMap.nBits BlockMap.nTime
        rw [hb, hc]
        rfl

theorem getMedianTimePast_past (hp : p ∈ m) :
    some (m.getMedianTimePast p) = pastMedianTime (m.ancestry (m.size + 1) (some p)) := by
  obtain ⟨b, hb⟩ := mem_iff.mp hp
  have hsize := rank_lt_size T hp
  unfold pastMedianTime getMedianTimePast
  rw [ancestry_take T MEDIAN_TIME_SPAN (m.size + 1) p hp (by omega), ancestry_of_get hb]
  rfl

theorem contextualCheckBlockHeader_past (params : PowParams) (header : CBlockHeader) (hp : p ∈ m)
    (adjusted_time : Int) :
    contextualCheckBlockHeader params m header (some p) adjusted_time =
      (pastWorkRequired params (m.ancestry (m.size + 1) (some p))).map (fun expected_bits =>
        checkContext header expected_bits (pastMedianTime (m.ancestry (m.size + 1) (some p))) adjusted_time) := by
  unfold contextualCheckBlockHeader
  rw [getNextWorkRequired_past T params hp, Option.map_some, getMedianTimePast_past T hp]

/-- The check made by `AcceptBlockHeader` lets a header pass when `ContextualCheckBlockHeader` does. -/
theorem contextualCheckPast_none (params : PowParams) (header : CBlockHeader) (hp : p ∈ m) (adjusted_time : Int) :
    contextualCheckPast params header (m.ancestry (m.size + 1) (some p)) adjusted_time = none ↔
      contextualCheckBlockHeader params m header (some p) adjusted_time = some (.ok ()) := by
  rw [contextualCheckBlockHeader_past T params header hp]
  unfold contextualCheckPast
  cases pastWorkRequired params (m.ancestry (m.size + 1) (some p)) with
  | none => simp
  | some expected_bits =>
    dsimp only [Option.map_some]
    cases checkContext header expected_bits (pastMedianTime (m.ancestry (m.size + 1) (some p))) adjusted_time with
    | ok _ => simp
    | error _ => simp

end

end BlockMap

/-! ## Accepted trees -/

/-- An index in which every block passed `ContextualCheckBlockHeader` below its parent, at some time. -/
structure AcceptedTree (getHash : CBlockHeader → Uint256) (params : PowParams) (m : BlockMap)
    (genesis : BlockPtr) :
    Prop extends HeaderTree getHash m genesis where
  accepted : ∀ (p : BlockPtr) (b : CBlockIndex) (q : BlockPtr), m[p]? = some b → b.pprev = some q →
    ∃ adjusted_time, contextualCheckBlockHeader params m b.getBlockHeader (some q) adjusted_time = some (.ok ())

section
variable {getHash : CBlockHeader → Uint256} {pow : PowParams} {m m' : BlockMap} {genesis : BlockPtr}

theorem contextualCheckBlockHeader_congr {q : BlockPtr} (T : TreeShape m genesis) (T' : TreeShape m' genesis)
    (hq : q ∈ m) (hq' : q ∈ m')
    (h : m'.ancestry (m'.size + 1) (some q) = m.ancestry (m.size + 1) (some q)) (header : CBlockHeader)
    (adjusted_time : Int) : contextualCheckBlockHeader pow m' header (some q) adjusted_time =
      contextualCheckBlockHeader pow m header (some q) adjusted_time := by
  rw [contextualCheckBlockHeader_past T' pow header hq', contextualCheckBlockHeader_past T pow header hq, h]

theorem AcceptedTree.sameCore (A : AcceptedTree getHash pow m genesis) (h : SameCore m m') :
    AcceptedTree getHash pow m' genesis where
  toHeaderTree := A.toHeaderTree.sameCore h
  accepted p b' q hb' hpp := by
    obtain ⟨b, hb, hc⟩ := h.get hb'
    have hpprev : b'.pprev = b.pprev := CBlockIndex.of_core hc CBlockIndex.pprev
    obtain ⟨t, ht⟩ := A.accepted p b q hb (hpprev ▸ hpp)
    have hq := (A.parent p b q hb (hpprev ▸ hpp)).1
    have hsize : m'.size = m.size := by
      rw [← Std.ExtTreeMap.length_keys, ← Std.ExtTreeMap.length_keys, h.keys_eq]
    refine ⟨t, ?_⟩
    rw [show b'.getBlockHeader = b.getBlockHeader from CBlockIndex.of_core hc CBlockIndex.getBlockHeader,
      contextualCheckBlockHeader_congr A.toTreeShape (A.toTreeShape.sameCore h) hq (h.mem_iff.mpr hq)
        (by rw [hsize, ancestry_links h.toLinks]), ht]

theorem AcceptedTree.insert (A : AcceptedTree getHash pow m genesis) {p q : BlockPtr} {b : CBlockIndex}
    (hp : p ∉ m)
    (T' : HeaderTree getHash (m.insert p b) genesis) (hq : q ∈ m) (hpp : b.pprev = some q) {t : Int}
    (hcheck : contextualCheckBlockHeader pow m b.getBlockHeader (some q) t = some (.ok ())) :
    AcceptedTree getHash pow (m.insert p b) genesis where
  toHeaderTree := T'
  accepted x c y hc hy := by
    have hkeep : ∀ z ∈ m, (m.insert p b)[z]? = m[z]? :=
      fun z hz => getElem?_insert_ne _ _ (fun h => hp (h ▸ hz))
    have hcongr : ∀ z ∈ m, ∀ header t, contextualCheckBlockHeader pow (m.insert p b) header (some z) t =
        contextualCheckBlockHeader pow m header (some z) t := fun z hz header t =>
      contextualCheckBlockHeader_congr A.toTreeShape T'.toTreeShape hz (mem_insert.mpr (.inr hz))
        (ancestry_size_agree A.toTreeShape T'.toTreeShape hz (.of_forall A.toTreeShape hkeep hz)) header t
    rcases get_insert hc with ⟨rfl, rfl⟩ | ⟨-, hc⟩
    · obtain rfl : q = y := Option.some.inj (hpp.symm.trans hy)
      exact ⟨t, by rw [hcongr q hq, hcheck]⟩
    · obtain ⟨u, hu⟩ := A.accepted x c y hc hy
      exact ⟨u, by rw [hcongr y (A.parent x c y hc hy).1, hu]⟩

/-! ## Acceptance -/

/-- The environment checks headers by `ContextualCheckBlockHeader`. -/
def Env.Checks (env : Env) (pow : PowParams) : Prop := env.contextualCheckBlockHeader = contextualCheckPast pow

/-- A manager in use whose blocks all passed the contextual check. -/
def CheckedState (getHash : CBlockHeader → Uint256) (pow : PowParams) (s : ChainstateManager) : Prop :=
  ∃ genesis, Wf getHash genesis s ∧ AcceptedTree getHash pow s.blockIndex genesis

variable {params : ConsensusParams} {env : Env} {s s' : ChainstateManager}

theorem Inserted.acceptedTree {header : CBlockHeader} {b : CBlockIndex}
    (h : Inserted getHash genesis env s header s' b) (henv : env.Checks pow)
    (A : AcceptedTree getHash pow s.blockIndex genesis) : AcceptedTree getHash pow s'.blockIndex genesis := by
  have hcheck := h.checked.2.1
  unfold ChainstateManager.contextualCheck at hcheck
  rw [henv, contextualCheckPast_none A.toTreeShape pow header h.prev_mem] at hcheck
  have htree := h.tree
  rw [h.index] at htree ⊢
  exact A.insert h.isNew htree h.prev_mem h.pprev (by rw [h.getBlockHeader]; exact hcheck)

variable (params) in
theorem CheckedState.acceptBlockHeader (h : CheckedState getHash pow s) (henv : env.Checks pow)
    (header : CBlockHeader)
    (minPow : Bool) : CheckedState getHash pow (s.acceptBlockHeader getHash params env header minPow).1 := by
  obtain ⟨genesis, W, A⟩ := h
  refine ⟨genesis, ChainstateManager.acceptBlockHeader_induct
    (P := fun u => Wf getHash genesis u ∧ AcceptedTree getHash pow u.blockIndex genesis)
    (fun u o c hu => ⟨hu.1.withPool o c, hu.2⟩) (fun u header minPow hu => ?_) ⟨W, A⟩ header minPow⟩
  rcases acceptOne_cases params env hu.1 header minPow with
    ⟨state, he⟩ | ⟨he, -⟩ | ⟨u', b, he, -, -, hins⟩ <;> rw [he]
  · exact hu
  · exact hu
  · exact ⟨hins.wf hu.1, hins.acceptedTree henv hu.2⟩

theorem CheckedState.sameIndex (h : CheckedState getHash pow s) (hi : s'.blockIndex = s.blockIndex)
    (W : ∀ genesis, Wf getHash genesis s → Wf getHash genesis s') : CheckedState getHash pow s' := by
  obtain ⟨genesis, hs, A⟩ := h
  exact ⟨genesis, W genesis hs, by rw [hi]; exact A⟩

theorem checkedState_genesis (skipPow : Bool) (header : CBlockHeader) (h0 : header.hashPrevBlock = 0) :
    CheckedState getHash pow (genesisState getHash skipPow header) := by
  have W := genesisState_wf getHash header skipPow h0
  refine ⟨getHash header, W, W.tree, fun p b q hb hq => ?_⟩
  have hget : ((∅ : BlockMap).insert (getHash header) (genesisEntry header))[p]? = some b := hb
  rw [getElem?_single] at hget
  split at hget
  · cases hget
    cases hq
  · cases hget

/-! ## Runs -/

/-- Calls that look up the context of a header by `ContextualCheckBlockHeader`; no file is read. -/
def ChecksContext (pow : PowParams) : ChainOp → Prop
  | .acceptBlockHeader env _ _ => env.Checks pow
  | .acceptAndTryAdd env _ _ => env.Checks pow
  | .processNewBlockHeader env _ _ => env.Checks pow
  | .load _ _ => False
  | .restart _ => False
  | _ => True

open ChainstateManager

theorem ChainstateManager.Blank.setup_checked (h : s.Blank) {header : CBlockHeader}
    (hs : s.setup getHash header = (s', true)) : CheckedState getHash pow s' := by
  obtain ⟨h0, rfl⟩ := h.setup_eq hs
  refine (checkedState_genesis s.testSkipPowChecks header h0).sameIndex rfl (fun genesis hg => ?_)
  exact ⟨hg.tree, hg.active, hg.genesisHash, hg.initialized, hg.valid, hg.candidates, hg.sorted⟩

variable (params) in
theorem CheckedState.activateBestChain (h : CheckedState getHash pow s) (given : Option BlockPtr)
    (hgiven : ∀ q, given = some q → q ∈ s.blockIndex) :
    CheckedState getHash pow (ChainstateManager.activateBestChain params s given).1 := by
  obtain ⟨genesis, W, A⟩ := h
  refine ⟨genesis, W.activateBestChain given hgiven, ?_⟩
  rw [activateBestChain_index params W given hgiven]
  exact A

variable (params) in
theorem CheckedState.step (h : CheckedState getHash pow s) (a : ChainOp) (ha : ChecksContext pow a) :
    CheckedState getHash pow (step getHash params s a) := by
  cases a with
  | setup header =>
    obtain ⟨genesis, W, A⟩ := h
    rw [step_setup]
    refine ifSucceeds_induct (P := CheckedState getHash pow) ⟨genesis, W, A⟩ (fun s' hs => ?_)
    have hfalse := W.setup header
    rw [hs] at hfalse
    cases hfalse
  | acceptBlockHeader env header minPow => exact h.acceptBlockHeader params ha header minPow
  | tryAddBlockIndexCandidate p =>
    rw [step_tryAddBlockIndexCandidate]
    split
    · exact h.sameIndex rfl (fun _ W => W.tryAddCandidate p)
    · exact h
  | acceptAndTryAdd env header minPow =>
    have h1 := h.acceptBlockHeader params ha header minPow
    rw [step_acceptAndTryAdd, ChainstateManager.acceptAndTryAdd]
    split <;> rename_i heq <;> rw [heq] at h1
    · exact h1
    · exact h1.sameIndex rfl (fun _ W => W.tryAddCandidate _)
  | processNewBlockHeader env header minPow =>
    have h1 := h.acceptBlockHeader params ha header minPow
    rw [step_processNewBlockHeader, ChainstateManager.processNewBlockHeader]
    rcases he : s.acceptBlockHeader getHash params env header minPow with ⟨s1, state | p⟩ <;> rw [he] at h1
    · exact h1
    · have h2 : CheckedState getHash pow (s1.tryAddCandidate p) :=
        h1.sameIndex rfl (fun _ W => W.tryAddCandidate p)
      exact h2.activateBestChain params none (fun _ h => by cases h)
  | activateBestChain given =>
    cases given with
    | none => exact h.activateBestChain params none (fun _ h => by cases h)
    | some p =>
      rw [step_activateBestChain_some]
      split
      · rename_i hp
        exact h.activateBestChain params (some p) (fun q hq => by cases hq; exact hp)
      · exact h
  | invalidateBlock hash =>
    obtain ⟨genesis, W, A⟩ := h
    rw [step_invalidateBlock]
    rcases invalidateBlock_spec W hash with ⟨he, -⟩ | ⟨s', events, he, -, -, W', hinv, -, -⟩ <;> rw [he]
    · exact ⟨genesis, W, A⟩
    · exact ⟨genesis, W', A.sameCore hinv.core⟩
  | addOrphanHeader env header peerId =>
    obtain ⟨o, c, he⟩ := addOrphanHeader_pool getHash params env s header peerId
    rw [step_addOrphanHeader, he]
    exact h.sameIndex rfl (fun _ W => W.withPool o c)
  | evictOrphanHeaders env =>
    obtain ⟨o, c, he⟩ := evictOrphanHeaders_pool params env s
    rw [step_evictOrphanHeaders, he]
    exact h.sameIndex rfl (fun _ W => W.withPool o c)
  | load _ _ => exact ha.elim
  | restart _ => exact ha.elim

/-- In a run without a load, every block of the index passed the check of its context. -/
theorem reaches_checked {skipPow : Bool}
    (hrun : Run.Reaches (step getHash params) (fun _ a => ChecksContext pow a) (fresh skipPow) s) :
    s.Blank ∨ CheckedState getHash pow s := by
  refine hrun.invariant (P := fun s => s.Blank ∨ CheckedState getHash pow s) (.inl ⟨rfl, rfl⟩) (fun s a h ha => ?_)
  rcases h with h | h
  · by_cases hr : IsRuntimeOp a
    · exact .inl (h.step_runtime getHash params a hr)
    · cases a with
      | setup header =>
        rw [step_setup]
        exact ifSucceeds_induct (P := fun s => s.Blank ∨ CheckedState getHash pow s) (.inl h)
          (fun s' hs => .inr (h.setup_checked hs))
      | load _ _ => exact ha.elim
      | restart _ => exact ha.elim
      | _ => exact absurd trivial hr
  · exact .inr (h.step params a ha)

end

/-! ## A short chain -/

/-- Two days to halve, blocks of ten minutes, and the first block as anchor. -/
def asertParams : PowParams :=
  { powLimit := arithToUint256 (BitVec.ofNat 256 (2 ^ 255 - 1)), nPowTargetSpacing := 600,
    nASERTHalfLife := 172800,
    nASERTAnchorHeight := 1 }

def asertEnv : Env := { time := 100, contextualCheckBlockHeader := contextualCheckPast asertParams }

def minedHeader (prev nonce time : Nat) (nBits : BitVec 32) : CBlockHeader :=
  { nVersion := 1, hashPrevBlock := BitVec.ofNat 256 prev, nTime := BitVec.ofNat 32 time, nBits := nBits,
    nNonce := BitVec.ofNat 32 nonce, hashRandomX := 1 }

/-- The time of the last block is below that of its parent. -/
def minedOps : List ChainOp :=
  [.setup (minedHeader 0 1 10 0x207fffff#32),
    .acceptBlockHeader asertEnv (minedHeader 1 2 20 0x207fffff#32) true,
    .acceptBlockHeader asertEnv (minedHeader 2 3 30 0x207fb1bf#32) true,
    .acceptBlockHeader asertEnv (minedHeader 3 4 25 0x207f647f#32) true]

def minedChain : ChainstateManager :=
  minedOps.foldl (ChainstateManager.step nonceHash nonceParams) (ChainstateManager.fresh false)

theorem minedChain_checked : CheckedState nonceHash asertParams minedChain := by
  have hrun : Run.Reaches (ChainstateManager.step nonceHash nonceParams) (fun _ a => ChecksContext asertParams a)
      (ChainstateManager.fresh false) minedChain := Run.Reaches.start.foldl (fun a ha s => by
    simp only [minedOps, List.mem_cons, List.not_mem_nil, or_false] at ha
    rcases ha with rfl | rfl | rfl | rfl
    · trivial
    all_goals rfl)
  rcases reaches_checked hrun with h | h
  · have hmem : (2 : BlockPtr) ∈ minedChain.blockIndex := by decide +kernel
    obtain ⟨b, hb⟩ := BlockMap.mem_iff.mp hmem
    rw [h.get] at hb
    cases hb
  · exact h

end UnicityPow
