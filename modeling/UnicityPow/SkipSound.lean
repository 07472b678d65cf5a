import UnicityPow.LoadedState
import UnicityPow.Runs

/-!
# Ancestor lookup

`BuildSkip` finds the target of a skip pointer with the lookup that will use it. In every
index that is built one header at a time, or read from a file in height order, the lookup
answers the block that following `pprev` reaches.
-/

namespace UnicityPow

open Forest BlockMap

namespace BlockMap

/-! ## What the lookup relies on -/

/-- Above height zero there is a parent one below, and a skip pointer points as far up the
`pprev` path as its height says. A header that hashes to its own parent hash makes an entry
at height one that is its own parent. -/
structure SkipShape (m : BlockMap) : Prop where
  nonneg : ∀ (p : BlockPtr) (b : CBlockIndex), m[p]? = some b → 0 ≤ b.nHeight
  closed : ∀ (p : BlockPtr) (b : CBlockIndex) (q : BlockPtr), m[p]? = some b → b.pprev = some q → q ∈ m
  parent : ∀ (p : BlockPtr) (b : CBlockIndex), m[p]? = some b → 0 < b.nHeight →
    ∃ q, b.pprev = some q ∧ (b.nHeight = 1 ∨ b.nHeight = m.nHeight q + 1)
  skip : ∀ (p : BlockPtr) (b : CBlockIndex) (s : BlockPtr), m[p]? = some b → 0 < b.nHeight → b.pskip = some s →
    climb m.pprev (b.nHeight - getSkipHeight b.nHeight).toNat p = some s

namespace SkipShape

variable {m : BlockMap} (S : SkipShape m)
include S

theorem mem_parent (p : BlockPtr) (q : BlockPtr) (_ : p ∈ m) (h : m.pprev p = some q) : q ∈ m := by
  obtain ⟨b, hb⟩ := mem_iff.mp (mem_of_pprev h)
  exact S.closed p b q hb (by rw [← pprev_of_get hb, h])

theorem exists_parent {p : BlockPtr} (hp : p ∈ m) (h : 0 < m.nHeight p) :
    ∃ q ∈ m, m.pprev p = some q ∧ (m.nHeight p = 1 ∨ m.nHeight p = m.nHeight q + 1) := by
  obtain ⟨b, hb⟩ := mem_iff.mp hp
  rw [nHeight_of_get hb] at h
  obtain ⟨q, hq, hh⟩ := S.parent p b hb h
  rw [nHeight_of_get hb, pprev_of_get hb]
  exact ⟨q, S.closed p b q hb hq, hq, hh⟩

theorem nHeight_nonneg {p : BlockPtr} (hp : p ∈ m) : 0 ≤ m.nHeight p := by
  obtain ⟨b, hb⟩ := mem_iff.mp hp
  rw [nHeight_of_get hb]
  exact S.nonneg p b hb

/-- Short of the last step, each step up is one height down. -/
theorem climb_height : ∀ (n : Nat) (p a : BlockPtr), p ∈ m → (n : Int) < m.nHeight p →
    climb m.pprev n p = some a → a ∈ m ∧ m.nHeight a = m.nHeight p - n := by
  intro n
  induction n with
  | zero =>
    intro p a hp _ h
    cases h
    exact ⟨hp, by simp⟩
  | succ n ih =>
    intro p a hp hn h
    obtain ⟨q, hq, hpq, hh⟩ := S.exists_parent hp (by omega)
    rw [climb_succ hpq] at h
    obtain ⟨ha, hah⟩ := ih q a hq (by omega) h
    exact ⟨ha, by omega⟩

theorem climb_mem (n : Nat) (p a : BlockPtr) (hp : p ∈ m) (h : climb m.pprev n p = some a) : a ∈ m := by
  induction n generalizing p with
  | zero => cases h; exact hp
  | succ n ih =>
    cases hq : m.pprev p with
    | none => simp [climb, hq] at h
    | some q =>
      rw [climb_succ hq] at h
      exact ih q (S.mem_parent p q hp hq) h

/-! ## The loop -/

/-- Whichever of `pskip` and `pprev` each step follows, the steps together climb the
difference of the heights. -/
theorem getAncestorWalk_climb {height : Int} (h0 : 0 ≤ height) :
    ∀ (fuel : Nat) (w : BlockPtr) (heightWalk : Int), w ∈ m → (heightWalk = m.nHeight w ∨ heightWalk = 0) →
      height ≤ heightWalk → heightWalk - height < fuel →
      ∃ a, getAncestorWalk m height fuel w heightWalk = some a ∧
        climb m.pprev (heightWalk - height).toNat w = some a := by
  intro fuel
  induction fuel with
  | zero => intro w k _ _ _ hf; omega
  | succ fuel ih =>
    intro w k hw hk hle hf
    by_cases hlt : height < k
    · obtain rfl : k = m.nHeight w := by omega
      obtain ⟨b, hb⟩ := mem_iff.mp hw
      have hbh := nHeight_of_get hb
      have hskip := getSkipHeight_bounds (h := m.nHeight w) (by omega)
      obtain ⟨q, hq, hwq, hqh⟩ := S.exists_parent hw (by omega)
      have hqb : b.pprev = some q := by rw [← pprev_of_get hb, hwq]
      have hprev : ∃ a, getAncestorWalk m height fuel q (m.nHeight w - 1) = some a ∧
          climb m.pprev (m.nHeight w - height).toNat w = some a := by
        obtain ⟨a, ha, hc⟩ := ih q (m.nHeight w - 1) hq (by omega) (by omega) (by omega)
        refine ⟨a, ha, ?_⟩
        rw [show (m.nHeight w - height).toNat = (m.nHeight w - 1 - height).toNat + 1 by omega, climb_succ hwq, hc]
      unfold getAncestorWalk
      rw [if_pos hlt, hb]
      simp only [hqb]
      cases hs : b.pskip with
      | none => exact hprev
      | some sk =>
        have hclimb := S.skip w b sk hb (by omega) hs
        rw [← hbh] at hclimb
        simp only []
        split
        · rename_i huse
          have hge : height ≤ getSkipHeight (m.nHeight w) := by
            rcases huse with h | h
            · omega
            · exact le_of_lt h.1
          have hsk : getSkipHeight (m.nHeight w) = m.nHeight sk ∨ getSkipHeight (m.nHeight w) = 0 := by
            by_cases hz : getSkipHeight (m.nHeight w) = 0
            · exact .inr hz
            · have := (S.climb_height _ w sk hw (by omega) hclimb).2
              omega
          obtain ⟨a, ha, hc⟩ := ih sk _ (S.climb_mem _ w sk hw hclimb) hsk hge (by omega)
          refine ⟨a, ha, ?_⟩
          rw [show (m.nHeight w - height).toNat = (m.nHeight w - getSkipHeight (m.nHeight w)).toNat +
            (getSkipHeight (m.nHeight w) - height).toNat by omega, climb_add, hclimb]
          exact hc
        · exact hprev
    · unfold getAncestorWalk
      rw [if_neg hlt, show (k - height).toNat = 0 by omega]
      exact ⟨w, rfl, rfl⟩

theorem getAncestor_climb {p : BlockPtr} {height : Int} (hp : p ∈ m) (h0 : 0 ≤ height)
    (hle : height ≤ m.nHeight p) :
    ∃ a, m.getAncestor p height = some a ∧ climb m.pprev (m.nHeight p - height).toNat p = some a := by
  unfold getAncestor
  rw [if_neg (by omega)]
  exact S.getAncestorWalk_climb h0 _ p _ hp (.inl rfl) hle (by omega)

/-! ## One more entry -/

theorem insert {p : BlockPtr} {b : CBlockIndex} (hp : p ∉ m) (h0 : 0 ≤ b.nHeight)
    (hclosed : ∀ q, b.pprev = some q → q ∈ m.insert p b)
    (hparent : 0 < b.nHeight → ∃ q, b.pprev = some q ∧
      (b.nHeight = 1 ∨ b.nHeight = BlockMap.nHeight (m.insert p b) q + 1))
    (hskip : ∀ s, 0 < b.nHeight → b.pskip = some s →
      climb (BlockMap.pprev (m.insert p b)) (b.nHeight - getSkipHeight b.nHeight).toNat p = some s) :
    SkipShape (m.insert p b) := by
  have hE := extends_insert b hp
  refine ⟨?_, ?_, ?_, ?_⟩
  · intro x d hd
    rcases get_insert hd with ⟨rfl, rfl⟩ | ⟨-, hd⟩
    · exact h0
    · exact S.nonneg x d hd
  · intro x d q hd hq
    rcases get_insert hd with ⟨rfl, rfl⟩ | ⟨-, hd⟩
    · exact hclosed q hq
    · exact hE.mem q (S.closed x d q hd hq)
  · intro x d hd hpos
    rcases get_insert hd with ⟨rfl, rfl⟩ | ⟨-, hd⟩
    · exact hparent hpos
    · obtain ⟨q, hq, hh⟩ := S.parent x d hd hpos
      exact ⟨q, hq, by rwa [hE.nHeight q (S.closed x d q hd hq)]⟩
  · intro x d s hd hpos hs
    rcases get_insert hd with ⟨rfl, rfl⟩ | ⟨-, hd⟩
    · exact hskip s hpos hs
    · rw [climb_congr (S := (· ∈ m)) S.mem_parent hE.pprev _ (mem_of_get hd)]
      exact S.skip x d s hd hpos hs

end SkipShape

theorem skipShape_empty : SkipShape ∅ := by
  refine ⟨?_, ?_, ?_, ?_⟩ <;> intro p b <;> simp

theorem TreeShape.skipShape {m : BlockMap} {genesis : BlockPtr} (T : TreeShape m genesis) : SkipShape m where
  nonneg := T.nonneg
  closed p b q hb hq := (T.parent p b q hb hq).1
  parent p b hb hpos := by
    rw [← nHeight_of_get hb] at hpos
    obtain ⟨q, hq⟩ := T.exists_parent hpos
    rw [pprev_of_get hb] at hq
    exact ⟨q, hq, .inr (T.parent p b q hb hq).2⟩
  skip p b s hb _ hs := by
    obtain ⟨hanc, hh⟩ := T.skip p b s hb hs
    have h1 := T.rank_cast p
    have h2 := T.rank_cast s
    rw [nHeight_of_get hb] at h1
    rw [show (b.nHeight - getSkipHeight b.nHeight).toNat = m.rank p - m.rank s by omega]
    exact hanc.climb T.ranked

theorem SkipShape.sameCore {m m' : BlockMap} (S : SkipShape m) (h : SameCore m m') : SkipShape m' where
  nonneg p b' hb' := by
    obtain ⟨b, hb, hc⟩ := h.get hb'
    rw [show b'.nHeight = b.nHeight from CBlockIndex.of_core hc CBlockIndex.nHeight]
    exact S.nonneg p b hb
  closed p b' q hb' hq := by
    obtain ⟨b, hb, hc⟩ := h.get hb'
    rw [h.mem_iff]
    exact S.closed p b q hb ((CBlockIndex.of_core hc CBlockIndex.pprev).symm.trans hq)
  parent p b' hb' := by
    obtain ⟨b, hb, hc⟩ := h.get hb'
    rw [show b'.nHeight = b.nHeight from CBlockIndex.of_core hc CBlockIndex.nHeight,
      show b'.pprev = b.pprev from CBlockIndex.of_core hc CBlockIndex.pprev, h.nHeight_eq]
    exact S.parent p b hb
  skip p b' s hb' := by
    obtain ⟨b, hb, hc⟩ := h.get hb'
    rw [show b'.nHeight = b.nHeight from CBlockIndex.of_core hc CBlockIndex.nHeight,
      show b'.pskip = b.pskip from CBlockIndex.of_core hc CBlockIndex.pskip, h.pprev_eq]
    exact S.skip p b s hb

end BlockMap

/-! ## `AddToBlockIndex` -/

section
variable {getHash : CBlockHeader → Uint256}

theorem erase_insert {m : BlockMap} {p : BlockPtr} (b : CBlockIndex) (hp : p ∉ m) :
    (m.insert p b).erase p = m := by
  apply Std.ExtTreeMap.ext_getElem?
  intro k
  rw [Std.ExtTreeMap.getElem?_erase]
  split
  · rename_i h
    cases Std.LawfulEqOrd.eq_of_compare h
    rw [get_of_notMem hp]
  · rename_i h
    rw [Std.ExtTreeMap.getElem?_insert, if_neg h]

theorem BlockMap.SkipShape.newIndex {m : BlockMap} (S : SkipShape m) {header : CBlockHeader} {p q : BlockPtr}
    {c : CBlockIndex} (hp : p ∉ m) (hc : c = CBlockIndex.ofHeader header) (hq : q ∈ m.insert p c) :
    SkipShape (m.insert p (BlockManager.newIndex (m.insert p c) header (some q))) := by
  have S' : SkipShape (m.insert p c) := S.insert hp (by subst hc; exact le_rfl) (by subst hc; intro _ h; cases h)
    (by subst hc; intro h; cases h) (by subst hc; intro _ h; cases h)
  -- the parent's height is that of the entry just made, zero, when it is the header itself
  have hpar : q = p ∧ BlockMap.nHeight (m.insert p c) q = 0 ∨ q ∈ m := by
    rcases mem_insert.mp hq with rfl | h
    · refine .inl ⟨rfl, ?_⟩
      rw [nHeight_of_get Std.ExtTreeMap.getElem?_insert_self, hc]
      rfl
    · exact .inr h
  have hn := S'.nHeight_nonneg hq
  have hj := getSkipHeight_bounds (h := BlockMap.nHeight (m.insert p c) q + 1) (by omega)
  obtain ⟨a, ha, hclimb⟩ := S'.getAncestor_climb hq hj.1 (by omega)
  generalize hb : BlockManager.newIndex (m.insert p c) header (some q) = b
  have hbp : b.pprev = some q := by rw [← hb]; rfl
  have hbh : b.nHeight = BlockMap.nHeight (m.insert p c) q + 1 := by rw [← hb]; rfl
  have hbs : b.pskip = some a := by rw [← hb, ← ha]; rfl
  have hE := extends_insert b hp
  have hE' := extends_insert c hp
  have hself : BlockMap.pprev (m.insert p b) p = some q := by
    rw [pprev_of_get Std.ExtTreeMap.getElem?_insert_self, hbp]
  refine S.insert hp (by omega) ?_ ?_ ?_
  · intro r hr
    rw [hbp] at hr
    cases hr
    exact mem_insert.mpr (mem_insert.mp hq)
  · intro _
    refine ⟨q, hbp, ?_⟩
    rcases hpar with ⟨-, h0⟩ | h
    · exact .inl (by omega)
    · exact .inr (by rw [hbh, hE.nHeight q h, hE'.nHeight q h])
  · intro s _ hs
    rw [hbs] at hs
    cases hs
    rw [show (b.nHeight - getSkipHeight b.nHeight).toNat = (BlockMap.nHeight (m.insert p c) q -
      getSkipHeight (BlockMap.nHeight (m.insert p c) q + 1)).toNat + 1 by rw [hbh]; omega,
        climb_succ hself, ← hclimb]
    rcases hpar with ⟨-, h0⟩ | h
    · rw [show (BlockMap.nHeight (m.insert p c) q -
          getSkipHeight (BlockMap.nHeight (m.insert p c) q + 1)).toNat = 0 by
        omega]
      rfl
    · rw [climb_congr (S := (· ∈ m)) S.mem_parent hE.pprev _ h,
        climb_congr (S := (· ∈ m)) S.mem_parent hE'.pprev _ h]

theorem BlockMap.SkipShape.addToBlockIndex {s : BlockManager} (S : SkipShape s.blockIndex)
    (header : CBlockHeader) :
    SkipShape (s.addToBlockIndex getHash header).1.blockIndex := by
  unfold BlockManager.addToBlockIndex
  simp only []
  split
  · exact S
  · rename_i hp
    split
    · rename_i hq
      simp only [insert_insert]
      exact S.newIndex hp rfl hq
    · split
      · simp only [erase_insert _ hp]
        exact S
      · simp only [insert_insert]
        exact S.insert hp le_rfl (fun _ h => by cases h) (fun h => by cases h) (fun _ h => by cases h)

/-! ## Indexes that are built -/

/-- The indexes that insertions, loads and changes of status leave. -/
inductive BuiltIndex (getHash : CBlockHeader → Uint256) : BlockMap → Prop
  | empty : BuiltIndex getHash ∅
  | addToBlockIndex {s : BlockManager} (header : CBlockHeader) :
    BuiltIndex getHash s.blockIndex → BuiltIndex getHash (s.addToBlockIndex getHash header).1.blockIndex
  | load {s bm : BlockManager} {file : HeaderFile} {genesis : Uint256} :
    s.load getHash file genesis = (bm, true) → BuiltIndex getHash bm.blockIndex
  | loadChainstate {s s' : ChainstateManager} {params : ConsensusParams} {env : Env} {file : HeaderFile} :
    s.load getHash params env file = (s', true) → BuiltIndex getHash s'.blockIndex
  | status {m m' : BlockMap} : BuiltIndex getHash m → SameCore m m' → BuiltIndex getHash m'

theorem BuiltIndex.skipShape {m : BlockMap} (h : BuiltIndex getHash m) : SkipShape m := by
  induction h with
  | empty => exact skipShape_empty
  | addToBlockIndex header _ ih => exact ih.addToBlockIndex header
  | load h =>
    obtain ⟨hload, rfl⟩ := BlockManager.load_true.mp h
    exact hload.relinked_shape.skipShape
  | loadChainstate h => exact (load_loaded h).wf.tree.skipShape
  | status _ hs ih => exact ih.sameCore hs

/-- `GetAncestor` answers no block exactly outside the heights of the path, and otherwise the
one that following `pprev` reaches. -/
theorem getAncestor_follows_pprev {m : BlockMap} (h : BuiltIndex getHash m) {p : BlockPtr} (hp : p ∈ m)
    (height : Int) :
    (m.getAncestor p height = none ↔ height < 0 ∨ m.nHeight p < height) ∧
    (0 ≤ height → height ≤ m.nHeight p → ∃ a ∈ m, m.getAncestor p height = some a ∧
      climb m.pprev (m.nHeight p - height).toNat p = some a) := by
  have hin : 0 ≤ height → height ≤ m.nHeight p → ∃ a ∈ m, m.getAncestor p height = some a ∧
      climb m.pprev (m.nHeight p - height).toNat p = some a := by
    intro h0 hle
    obtain ⟨a, ha, hclimb⟩ := h.skipShape.getAncestor_climb hp h0 hle
    exact ⟨a, h.skipShape.climb_mem _ p a hp hclimb, ha, hclimb⟩
  refine ⟨⟨fun hnone => ?_, fun hout => ?_⟩, hin⟩
  · by_contra hr
    obtain ⟨a, -, ha, -⟩ := hin (by omega) (by omega)
    rw [ha] at hnone
    cases hnone
  · unfold getAncestor
    rw [if_pos (by omega)]

/-- Genesis and two headers above it. -/
def shortChain : BlockManager :=
  [nonceHeader 0 1, nonceHeader 1 2, nonceHeader 2 3].foldl
    (fun s header => (s.addToBlockIndex nonceHash header).1) {}

theorem getAncestor_follows_pprev_nonce :
    ∃ a ∈ shortChain.blockIndex, shortChain.blockIndex.getAncestor 3 0 = some a ∧
      climb shortChain.blockIndex.pprev 2 3 = some a := by
  have h : BuiltIndex nonceHash shortChain.blockIndex :=
    .addToBlockIndex (nonceHeader 2 3) (.addToBlockIndex (nonceHeader 1 2) (.addToBlockIndex (nonceHeader 0 1) .empty))
  have hh : shortChain.blockIndex.nHeight 3 = 2 := by decide +kernel
  have := (getAncestor_follows_pprev h (show 3 ∈ shortChain.blockIndex by decide +kernel) 0).2 le_rfl (by omega)
  rw [hh] at this
  exact this

end

end UnicityPow
