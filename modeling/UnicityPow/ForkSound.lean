import UnicityPow.RestartSound

/-!
# Forks and tips of the active chain

The vector of the active chain against the order of the tree: where a block leaves the chain,
and what `SetTip` makes of a vector that already lists some path.
-/

namespace UnicityPow

open Forest BlockMap

/-! ## `FindFork` -/

section
variable {m : BlockMap} {genesis tip : BlockPtr} {v : CChain}

/-- A block that `a` does not descend from forks from `a` where its parent does. -/
theorem isFork_of_parent {a p q f : BlockPtr} (hq : m.pprev p = some q) (hno : ¬ Anc m.pprev p a)
    (hf : IsFork m.pprev a q f) : IsFork m.pprev a p f := by
  refine .of_ancestors .refl (.parent hq) hf ?_
  intro x hxa hxp
  rcases (anc_child hq).mp hxp with rfl | hxq
  · exact absurd hxa hno
  · exact ⟨hxa, hxq⟩

variable (T : TreeShape m genesis)
include T

theorem findForkWalk_spec (hv : CChain.IsPath m v tip) (ht : tip ∈ m) : ∀ (fuel : Nat) (p : BlockPtr), p ∈ m →
    m.rank p < fuel → ∃ f, v.findForkWalk m fuel (some p) = some f ∧ IsFork m.pprev tip p f := by
  intro fuel
  induction fuel with
  | zero => intro p _ hf; omega
  | succ fuel ih =>
    intro p hp hf
    unfold CChain.findForkWalk
    by_cases hc : Anc m.pprev p tip
    · rw [if_pos ((hv.contains_iff T).mpr hc)]
      exact ⟨p, rfl, (IsFork.of_anc hc).symm⟩
    · rw [if_neg (fun h => hc ((hv.contains_iff T).mp h))]
      -- genesis is in the chain, so the walk has not passed it
      have hpos : 0 < m.nHeight p := by
        by_contra hn
        have h0 : m.nHeight p = 0 := by have := T.nHeight_nonneg p; omega
        rw [T.genesis_of_height hp h0] at hc
        exact hc (T.anc_genesis ht)
      obtain ⟨q, hq⟩ := T.exists_parent hpos
      have hk := T.ranked p q hq
      obtain ⟨f, hf, hfork⟩ := ih q (T.mem_parent hq) (by omega)
      exact ⟨f, by rw [hq, hf], isFork_of_parent hq hc hfork⟩

theorem findFork_spec (hv : CChain.IsPath m v tip) (ht : tip ∈ m) {b : BlockPtr} (hb : b ∈ m) :
    ∃ f, v.findFork m (some b) = some f ∧ IsFork m.pprev tip b f := by
  have hheight : v.height = m.nHeight tip := by
    unfold CChain.height
    rw [hv.length, ← T.rank_cast tip]
    omega
  unfold CChain.findFork
  simp only [hheight]
  split
  · rename_i hlt
    obtain ⟨b', hb', hanc, hh⟩ := T.getAncestor_spec hb (T.nHeight_nonneg tip) (le_of_lt hlt)
    have hrank := hanc.rank_le T.ranked
    obtain ⟨f, hf, hfork⟩ := findForkWalk_spec T hv ht ((m.nHeight b).toNat + 1) b' (T.mem_anc hanc hb)
      (Nat.lt_succ_of_le hrank)
    exact ⟨f, by rw [hb', hf], T.isFork_of_height hanc hh hfork⟩
  · exact findForkWalk_spec T hv ht _ b hb (Nat.lt_succ_self _)

/-- The last common ancestor is the highest block below both, whichever comes first, and the
block where one of them leaves the active chain that ends in the other. -/
theorem lastCommonAncestor_is_fork {a b : BlockPtr} (ha : a ∈ m) (hb : b ∈ m) :
    ∃ f, m.lastCommonAncestor (some a) (some b) = some f ∧
      (Anc m.pprev f a ∧ Anc m.pprev f b ∧
        ∀ x, Anc m.pprev x a → Anc m.pprev x b → x = f ∨ m.nHeight x < m.nHeight f) ∧
      m.lastCommonAncestor (some b) (some a) = some f ∧
      ∀ v, CChain.IsPath m v a → v.findFork m (some b) = some f := by
  obtain ⟨f, hf, hfork⟩ := T.lastCommonAncestor_spec ha hb
  refine ⟨f, hf, ⟨hfork.left, hfork.right, fun x hxa hxb => ?_⟩, ?_, fun v hv => ?_⟩
  · have hx := hfork.last x hxa hxb
    by_cases hxf : x = f
    · exact .inl hxf
    · have := hx.rank_lt T.ranked hxf
      have := T.rank_cast x
      have := T.rank_cast f
      exact .inr (by omega)
  · obtain ⟨g, hg, hgork⟩ := T.lastCommonAncestor_spec hb ha
    rw [hg, hgork.symm.unique T.ranked hfork]
  · obtain ⟨g, hg, hgork⟩ := findFork_spec T hv ha hb
    rw [hg, hgork.unique T.ranked hfork]

end

/-! ## `SetTip` -/

/-- The blocks from genesis to `p`, by height. -/
def CChain.pathTo (m : BlockMap) (p : BlockPtr) : CChain :=
  (List.range (m.rank p + 1)).map (fun i => climb m.pprev (m.rank p - i) p)

section
variable {m : BlockMap} {genesis : BlockPtr} {v : CChain} (T : TreeShape m genesis)
include T

theorem CChain.pathTo_isPath (p : BlockPtr) : CChain.IsPath m (.pathTo m p) p := by
  refine ⟨by simp [CChain.pathTo], fun a ha => ?_⟩
  have hle := ha.rank_le T.ranked
  unfold CChain.pathTo
  rw [List.getElem?_map, List.getElem?_range (by omega), Option.map_some, ha.climb T.ranked]

/-- Whatever path the vector lists before, `SetTip` leaves the path to the new tip, as it
does from an empty vector. -/
theorem setTip_yields_path (hv : v = [] ∨ ∃ q ∈ m, CChain.IsPath m v q) {p : BlockPtr} (hp : p ∈ m) :
    v.setTip m p = CChain.pathTo m p ∧ v.setTip m p = CChain.setTip [] m p ∧
      (v.setTip m p).genesis = some genesis ∧ (v.setTip m p).tip = some p := by
  have hcoh : CChain.Coherent m v := by
    rcases hv with rfl | ⟨q, -, hq⟩
    · exact CChain.coherent_nil m
    · exact hq.coherent T
  have hpath := CChain.setTip_isPath T hcoh p
  have hscratch := CChain.setTip_isPath T (CChain.coherent_nil m) p
  refine ⟨hpath.unique T (CChain.pathTo_isPath T p), hpath.unique T hscratch, ?_, hpath.tip_eq⟩
  have h0 := hpath.entry genesis (T.anc_genesis hp)
  rw [show m.rank genesis = 0 by simp [rank, T.nHeight_genesis]] at h0
  unfold CChain.genesis
  rw [List.head?_eq_getElem?, h0]
  rfl

end

/-! ## A chain and a branch -/

/-- The active chain 1, 2, 3, and a branch 4 from genesis. -/
def branchedState : ChainstateManager :=
  [ChainOp.processNewBlockHeader {} (nonceHeader 1 2) true, .processNewBlockHeader {} (nonceHeader 2 3) true,
    .processNewBlockHeader {} (nonceHeader 1 4) true].foldl (ChainstateManager.step nonceHash nonceParams) nonceStart

theorem branchedState_wf : Wf nonceHash nonceParams.hashGenesisBlock branchedState := by
  have hrun : Run.Reaches (ChainstateManager.step nonceHash nonceParams) (fun _ _ => True) nonceStart branchedState :=
    Run.Reaches.foldl .start fun _ _ _ => trivial
  exact reaches_wf (show nonceHash (nonceHeader 0 1) = _ from rfl) nonceStart_setup hrun

theorem lastCommonAncestor_is_fork_branched :
    ∃ f, branchedState.blockIndex.lastCommonAncestor (some 3) (some 4) = some f ∧
      branchedState.activeChain.findFork branchedState.blockIndex (some 4) = some f := by
  have ht : branchedState.getTip = some 3 := by decide +kernel
  obtain ⟨f, hf, -, -, hchain⟩ := lastCommonAncestor_is_fork branchedState_wf.tree.toTreeShape
    (show 3 ∈ branchedState.blockIndex by decide +kernel) (show 4 ∈ branchedState.blockIndex by decide +kernel)
  exact ⟨f, hf, hchain _ (branchedState_wf.isPath ht)⟩

theorem setTip_yields_path_branched :
    branchedState.activeChain.setTip branchedState.blockIndex 4 = CChain.pathTo branchedState.blockIndex 4 := by
  have ht : branchedState.getTip = some 3 := by decide +kernel
  exact (setTip_yields_path branchedState_wf.tree.toTreeShape
    (.inr ⟨3, by decide +kernel, branchedState_wf.isPath ht⟩) (by decide +kernel)).1

end UnicityPow
