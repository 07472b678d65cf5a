import UnicityPow.ReorgGuardSound

/-!
# The active chain as a list of blocks

Below every tip lies one list of blocks from genesis up, and the active chain vector holds
just that list. Away from loads it is traded for one with more work, or cut by
`InvalidateBlock`.
-/

namespace UnicityPow

open Forest BlockMap

namespace ChainstateManager

/-- `l` runs from genesis along the parents to `tip`, its entry `i` at height `i`. -/
structure IsPprevPath (m : BlockMap) (genesis tip : BlockPtr) (l : List BlockPtr) : Prop where
  head : l.head? = some genesis
  last : l.getLast? = some tip
  root : m.pprev genesis = none
  parents : l.IsChain (fun q p => m.pprev p = some q)
  heights : ∀ (i : Nat) (p : BlockPtr), l[i]? = some p → m.nHeight p = i

/-- The vector is the path to the tip. -/
def IsCoherent (s : ChainstateManager) : Prop :=
  ∃ tip l, s.getTip = some tip ∧ s.activeChain = l.map some ∧ IsPprevPath s.blockIndex s.genesisHash tip l

/-- The tip stays, or moves to a block with strictly more work. -/
def TipGains (s s' : ChainstateManager) : Prop :=
  s'.getTip = s.getTip ∨ ∃ old new, s.getTip = some old ∧ s'.getTip = some new ∧
    s'.blockIndex.nChainWork old < s'.blockIndex.nChainWork new

/-- The operations that may not lower the tip: all but those that start a manager and
`InvalidateBlock`. -/
def IsForwardOp : ChainOp → Prop
  | .setup _ => False
  | .invalidateBlock _ => False
  | .load _ _ => False
  | .restart _ => False
  | _ => True

end ChainstateManager

open ChainstateManager

/-! ## Paths as lists -/

section
variable {m : BlockMap} {genesis p q f : BlockPtr} {c : CChain} (T : TreeShape m genesis)
include T

theorem CChain.IsPath.concat (hc : CChain.IsPath m c q) (hp : m.pprev p = some q) :
    CChain.IsPath m (c ++ [some p]) p := by
  have hrank := T.ranked p q hp
  have hlen := hc.length
  refine ⟨by simp only [List.length_append, List.length_singleton, hlen, hrank], fun a ha => ?_⟩
  rcases (anc_child hp).mp ha with rfl | ha
  · rw [List.getElem?_append_right (by omega), show m.rank a - c.length = 0 by omega]
    rfl
  · have := ha.rank_le T.ranked
    rw [List.getElem?_append_left (by omega)]
    exact hc.entry a ha

theorem CChain.IsPath.append {l : List BlockPtr} (hc : CChain.IsPath m c f) (hl : Segment m.pprev f l p) :
    CChain.IsPath m (c ++ l.map some) p := by
  induction hl with
  | nil => simpa using hc
  | snoc _ hq ih =>
    rw [List.map_append, ← List.append_assoc]
    exact ih.concat T hq

theorem genesis_isPath : CChain.IsPath m [some genesis] genesis := by
  have hrank : m.rank genesis = 0 := by
    rw [rank, T.nHeight_genesis]
    rfl
  refine ⟨by rw [hrank]; rfl, fun a ha => ?_⟩
  rw [(anc_root T.genesis_root).mp ha, hrank]
  rfl

theorem exists_segment (hp : p ∈ m) : ∃ l, Segment m.pprev genesis l p := by
  have hanc := T.anc_genesis hp
  induction hanc with
  | refl => exact ⟨[], .nil⟩
  | step hq _ ih =>
    obtain ⟨l, hl⟩ := ih (T.mem_parent hq)
    exact ⟨l ++ [_], .snoc hl hq⟩

theorem isPprevPath_of_segment {l : List BlockPtr} (hl : Segment m.pprev genesis l p) :
    IsPprevPath m genesis p (genesis :: l) := by
  refine ⟨rfl, ?_, T.genesis_root, ?_, ?_⟩
  · rw [List.getLast?_eq_some_getLast (List.cons_ne_nil genesis l), hl.getLast]
  · induction hl with
    | nil => exact .singleton genesis
    | @snoc l p q hl hq ih =>
      rw [← List.cons_append]
      refine ih.append (.singleton p) (fun x hx y hy => ?_)
      rw [List.getLast?_eq_some_getLast (List.cons_ne_nil genesis l), hl.getLast] at hx
      cases hx
      cases hy
      exact hq
  · intro i a hi
    have hpath := (genesis_isPath T).append T hl
    have hia : ([some genesis] ++ l.map some)[i]? = some (some a) := by
      rw [show [some genesis] ++ l.map some = (genesis :: l).map some from rfl, List.getElem?_map, hi]
      rfl
    have hlt := (List.getElem?_eq_some_iff.mp hia).1
    obtain ⟨b, hb, rfl⟩ := Anc.exists_rank T.ranked T.rooted (b := p) (n := i) (by have := hpath.length; omega)
    rw [hpath.entry b hb] at hia
    cases hia
    exact (T.rank_cast a).symm

end

section
variable {getHash : CBlockHeader → Uint256} {params : ConsensusParams} {env : Env} {genesis : BlockPtr}
  {s s' : ChainstateManager}

theorem Wf.isCoherent (W : Wf getHash genesis s) : s.IsCoherent := by
  have T := W.tree.toTreeShape
  obtain ⟨tip, htm, ht, hpath⟩ := W.tip_exists
  obtain ⟨l, hl⟩ := exists_segment T htm
  refine ⟨tip, genesis :: l, ht, hpath.unique T ((genesis_isPath T).append T hl), ?_⟩
  rw [W.genesisHash]
  exact isPprevPath_of_segment T hl

/-! ## What a call does to the tip -/

theorem ChainstateManager.TipGains.of_chain (h : s'.activeChain = s.activeChain) : TipGains s s' := .inl (congrArg CChain.tip h)

variable (params) in
theorem activateBestChain_tipGains (W : Wf getHash genesis s) (given : Option BlockPtr)
    (hgiven : ∀ p, given = some p → p ∈ s.blockIndex) : TipGains s (activateBestChain params s given).1 := by
  have hact := activateBestChain_spec params W given hgiven
  rcases hact.chain with hc | ⟨old, p, -, hold, -, -, hwork, -, -, -, hpath⟩
  · exact .of_chain hc
  · refine .inr ⟨old, p, hold, hpath.tip_eq, ?_⟩
    rw [activateBestChain_index _ W given hgiven]
    exact hwork

theorem processNewBlockHeader_tipGains (W : Wf getHash genesis s) (header : CBlockHeader) (minPow : Bool) :
    TipGains s (processNewBlockHeader params getHash env s header minPow).1 := by
  have hchain := acceptBlockHeader_activeChain params env W header minPow
  have W1 := W.acceptBlockHeader params env header minPow
  unfold processNewBlockHeader
  rcases he : s.acceptBlockHeader getHash params env header minPow with ⟨s1, _ | p⟩ <;> rw [he] at hchain W1
  · exact .of_chain hchain
  · have htip : (s1.tryAddCandidate p).getTip = s.getTip := congrArg CChain.tip hchain
    have hgain := activateBestChain_tipGains params (W1.tryAddCandidate p) none (fun _ h => by cases h)
    unfold TipGains at hgain
    rw [htip] at hgain
    exact hgain

theorem step_tipGains (W : Wf getHash genesis s) (a : ChainOp) (ha : IsForwardOp a) :
    TipGains s (step getHash params s a) := by
  cases a with
  | acceptBlockHeader env header minPow => exact .of_chain (acceptBlockHeader_activeChain _ _ W header minPow)
  | tryAddBlockIndexCandidate p =>
    rw [step_tryAddBlockIndexCandidate]
    split <;> exact .of_chain rfl
  | acceptAndTryAdd env header minPow => exact .of_chain (acceptAndTryAdd_activeChain W header minPow)
  | processNewBlockHeader env header minPow => exact processNewBlockHeader_tipGains W header minPow
  | activateBestChain given =>
    cases given with
    | none => exact activateBestChain_tipGains _ W none (fun _ h => by cases h)
    | some p =>
      rw [step_activateBestChain_some]
      split
      · rename_i hp
        exact activateBestChain_tipGains _ W (some p) (fun q hq => by cases hq; exact hp)
      · exact .of_chain rfl
  | addOrphanHeader env header peerId =>
    obtain ⟨o, c, he⟩ := addOrphanHeader_pool getHash params env s header peerId
    rw [step_addOrphanHeader, he]
    exact .of_chain rfl
  | evictOrphanHeaders env =>
    obtain ⟨o, c, he⟩ := evictOrphanHeaders_pool params env s
    rw [step_evictOrphanHeaders, he]
    exact .of_chain rfl
  | setup _ => exact ha.elim
  | invalidateBlock _ => exact ha.elim
  | load _ _ => exact ha.elim
  | restart _ => exact ha.elim

theorem ChainstateManager.Blank.step_tipGains (h : s.Blank) (a : ChainOp) (ha : IsForwardOp a) :
    TipGains s (ChainstateManager.step getHash params s a) := by
  have hrun : IsRuntimeOp a := by cases a <;> first | exact ha.elim | trivial
  have h' := h.step_runtime getHash params a hrun
  exact .of_chain (by rw [h'.manager, h.manager])

/-! ## Runs -/

/-- In every state that any calls reach from a new manager, the chain vector is empty, before the
start, or the path from genesis to the tip; and no call but the starting ones and
`InvalidateBlock` moves the tip to a block without strictly more work. -/
theorem active_chain_coherent {skipPow : Bool}
    (hrun : Run.Reaches (step getHash params) (fun _ _ => True) (fresh skipPow) s) :
    ((s.activeChain = [] ∧ s.blockIndex = ∅) ∨ s.IsCoherent) ∧
      ∀ a, IsForwardOp a → TipGains s (step getHash params s a) := by
  rcases reaches_blank_or_inUse hrun with h | ⟨genesis, W⟩
  · exact ⟨.inl ⟨by rw [h.manager], by rw [h.manager]⟩, h.step_tipGains⟩
  · exact ⟨.inr W.isCoherent, fun a ha => step_tipGains W a ha⟩

end

theorem active_chain_coherent_nonce :
    ∃ s, s = step nonceHash nonceParams (step nonceHash nonceParams (fresh false) (.setup (nonceHeader 0 1)))
        (.processNewBlockHeader {} (nonceHeader 1 2) true) ∧
      ((s.activeChain = [] ∧ s.blockIndex = ∅) ∨ s.IsCoherent) ∧
      ∀ a, IsForwardOp a → TipGains s (step nonceHash nonceParams s a) :=
  ⟨_, rfl, active_chain_coherent (.next (.next .start trivial) trivial)⟩

end UnicityPow
