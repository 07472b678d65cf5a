import UnicityPow.Forest
import UnicityPow.Chain

/-!
# The block tree

The parent pointers of a well-formed index are a forest with one root, ranked by height.
Ancestor lookup through skip pointers, the last common ancestor and the active chain
vector are then what their names say.
-/

namespace UnicityPow

open Forest

namespace BlockMap

/-! ## Reading fields -/

section
variable {m : BlockMap} {p q : BlockPtr} {b : CBlockIndex}

theorem mem_iff : p ∈ m ↔ ∃ b, m[p]? = some b := by
  rw [Std.ExtTreeMap.mem_iff_isSome_getElem?, Option.isSome_iff_exists]

theorem mem_of_get (h : m[p]? = some b) : p ∈ m := mem_iff.mpr ⟨b, h⟩

theorem get_of_notMem (h : p ∉ m) : m[p]? = none := by
  cases hb : m[p]? with
  | none => rfl
  | some b => exact absurd (mem_of_get hb) h

theorem pprev_of_get (h : m[p]? = some b) : m.pprev p = b.pprev := by simp [pprev, h]

theorem nHeight_of_get (h : m[p]? = some b) : m.nHeight p = b.nHeight := by simp [nHeight, h]

theorem nChainWork_of_get (h : m[p]? = some b) : m.nChainWork p = b.nChainWork := by simp [nChainWork, h]

theorem isFailed_of_get (h : m[p]? = some b) : m.isFailed p = b.isFailed := by simp [isFailed, h]

theorem isValid_of_get (h : m[p]? = some b) : m.isValid p = b.isValid := by simp [isValid, h]

theorem mem_of_pprev (h : m.pprev p = some q) : p ∈ m := by
  cases hb : m[p]? with
  | none => simp [pprev, hb] at h
  | some b => exact mem_of_get hb

theorem mem_of_isValid (h : m.isValid p = true) : p ∈ m := by
  cases hb : m[p]? with
  | none => simp [isValid, hb] at h
  | some b => exact mem_of_get hb

theorem mem_of_isFailed (h : m.isFailed p = true) : p ∈ m := by
  cases hb : m[p]? with
  | none => simp [isFailed, hb] at h
  | some b => exact mem_of_get hb

theorem isFailed_of_isValid (h : m.isValid p = true) : m.isFailed p = false := by
  obtain ⟨b, hb⟩ := mem_iff.mp (mem_of_isValid h)
  rw [isFailed_of_get hb]
  rw [isValid_of_get hb] at h
  exact CBlockIndex.isFailed_of_isValid h

theorem hasChildren_iff : m.hasChildren p = true ↔ ∃ q, m.pprev q = some p := by
  unfold hasChildren
  rw [List.any_eq_true]
  constructor
  · rintro ⟨⟨q, b⟩, hq, hb⟩
    refine ⟨q, ?_⟩
    rw [pprev_of_get (Std.ExtTreeMap.mem_toList_iff_getElem?_eq_some.mp hq)]
    simpa using hb
  · rintro ⟨q, hq⟩
    obtain ⟨b, hb⟩ := mem_iff.mp (mem_of_pprev hq)
    rw [pprev_of_get hb] at hq
    exact ⟨(q, b), Std.ExtTreeMap.mem_toList_iff_getElem?_eq_some.mpr hb, by simp [hq]⟩

theorem mem_byHeight : p ∈ m.byHeight ↔ p ∈ m := by
  unfold byHeight
  rw [List.mem_insertionSort, Std.ExtTreeMap.mem_keys]

end

/-! ## The shape of the tree -/

def rank (m : BlockMap) (p : BlockPtr) : Nat := (m.nHeight p).toNat

/-- The links of a well-formed index. A skip pointer may be missing, never wrong. -/
structure TreeShape (m : BlockMap) (genesis : BlockPtr) : Prop where
  genesis_mem : genesis ∈ m
  genesis_root : m.pprev genesis = none
  root : ∀ (p : BlockPtr) (b : CBlockIndex), m[p]? = some b → b.pprev = none → p = genesis ∧ b.nHeight = 0
  parent : ∀ (p : BlockPtr) (b : CBlockIndex) (q : BlockPtr), m[p]? = some b → b.pprev = some q →
    q ∈ m ∧ b.nHeight = m.nHeight q + 1
  nonneg : ∀ (p : BlockPtr) (b : CBlockIndex), m[p]? = some b → 0 ≤ b.nHeight
  skip : ∀ (p : BlockPtr) (b : CBlockIndex) (q : BlockPtr), m[p]? = some b → b.pskip = some q →
    Anc m.pprev q p ∧ m.nHeight q = getSkipHeight b.nHeight

namespace TreeShape

variable {m : BlockMap} {genesis : BlockPtr} (T : TreeShape m genesis)
include T

theorem nHeight_nonneg (p : BlockPtr) : 0 ≤ m.nHeight p := by
  cases hb : m[p]? with
  | none => simp [nHeight, hb]
  | some b => rw [nHeight_of_get hb]; exact T.nonneg p b hb

theorem rank_cast (p : BlockPtr) : (m.rank p : Int) = m.nHeight p :=
  Int.toNat_of_nonneg (T.nHeight_nonneg p)

theorem mem_parent {p q : BlockPtr} (h : m.pprev p = some q) : q ∈ m := by
  obtain ⟨b, hb⟩ := mem_iff.mp (mem_of_pprev h)
  rw [pprev_of_get hb] at h
  exact (T.parent p b q hb h).1

theorem nHeight_parent {p q : BlockPtr} (h : m.pprev p = some q) : m.nHeight p = m.nHeight q + 1 := by
  obtain ⟨b, hb⟩ := mem_iff.mp (mem_of_pprev h)
  rw [pprev_of_get hb] at h
  rw [nHeight_of_get hb]
  exact (T.parent p b q hb h).2

theorem ranked : Ranked m.pprev m.rank := by
  intro p q h
  have := T.nHeight_parent h
  have := T.rank_cast p
  have := T.rank_cast q
  omega

theorem eq_genesis_of_root {p : BlockPtr} (hp : p ∈ m) (h : m.pprev p = none) : p = genesis := by
  obtain ⟨b, hb⟩ := mem_iff.mp hp
  rw [pprev_of_get hb] at h
  exact (T.root p b hb h).1

theorem nHeight_root {p : BlockPtr} (h : m.pprev p = none) : m.nHeight p = 0 := by
  cases hb : m[p]? with
  | none => simp [nHeight, hb]
  | some b =>
    rw [pprev_of_get hb] at h
    rw [nHeight_of_get hb]
    exact (T.root p b hb h).2

theorem rooted : Rooted m.pprev m.rank := by
  intro p h
  simp [rank, T.nHeight_root h]

theorem nHeight_genesis : m.nHeight genesis = 0 := T.nHeight_root T.genesis_root

theorem mem_anc {a p : BlockPtr} (h : Anc m.pprev a p) (hp : p ∈ m) : a ∈ m :=
  Anc.mem (S := (· ∈ m)) (fun _ _ _ hq => T.mem_parent hq) h hp

theorem genesis_of_height {p : BlockPtr} (hp : p ∈ m) (h : m.nHeight p = 0) : p = genesis := by
  cases hq : m.pprev p with
  | none => exact T.eq_genesis_of_root hp hq
  | some q =>
    have := T.nHeight_parent hq
    have := T.nHeight_nonneg q
    omega

theorem anc_genesis {p : BlockPtr} (hp : p ∈ m) : Anc m.pprev genesis p := by
  obtain ⟨a, ha, hk⟩ := Anc.exists_rank T.ranked T.rooted (b := p) (Nat.zero_le _)
  have h0 : m.nHeight a = 0 := by have := T.rank_cast a; omega
  rw [← T.genesis_of_height (T.mem_anc ha hp) h0]
  exact ha

end TreeShape

/-! ## Ancestors through skip pointers -/

theorem invertLowestOne_lt {n : Nat} (h : 0 < n) : invertLowestOne n < n := by
  have : n &&& (n - 1) ≤ n - 1 := Nat.and_le_right
  unfold invertLowestOne
  omega

theorem getSkipHeight_bounds {h : Int} (hh : 1 ≤ h) : 0 ≤ getSkipHeight h ∧ getSkipHeight h < h := by
  unfold getSkipHeight
  split
  · omega
  · simp only []
    split
    · have h1 := invertLowestOne_lt (n := h.toNat - 1) (by omega)
      have h2 : invertLowestOne (invertLowestOne (h.toNat - 1)) ≤ invertLowestOne (h.toNat - 1) := Nat.and_le_left
      omega
    · have := invertLowestOne_lt (n := h.toNat) (by omega)
      omega

namespace TreeShape

variable {m : BlockMap} {genesis : BlockPtr} (T : TreeShape m genesis)
include T

theorem getAncestorWalk_spec {height : Int} (h0 : 0 ≤ height) :
    ∀ (fuel : Nat) (w : BlockPtr), w ∈ m → height ≤ m.nHeight w → m.nHeight w - height < fuel →
      ∃ a, getAncestorWalk m height fuel w (m.nHeight w) = some a ∧ Anc m.pprev a w ∧ m.nHeight a = height := by
  intro fuel
  induction fuel with
  | zero => intro w _ _ hf; omega
  | succ fuel ih =>
    intro w hw hle hf
    by_cases hlt : height < m.nHeight w
    · obtain ⟨b, hb⟩ := mem_iff.mp hw
      have hbh := nHeight_of_get hb
      have hskip := getSkipHeight_bounds (h := m.nHeight w) (by omega)
      obtain ⟨q, hq⟩ : ∃ q, m.pprev w = some q := by
        cases hq : m.pprev w with
        | none => have := T.nHeight_root hq; omega
        | some q => exact ⟨q, rfl⟩
      have hqb : b.pprev = some q := by rw [← pprev_of_get hb, hq]
      have hqh := T.nHeight_parent hq
      -- both ways of continuing reach an ancestor of `w` that is not below `height`
      have hprev : ∃ a, getAncestorWalk m height fuel q (m.nHeight w - 1) = some a ∧
          Anc m.pprev a w ∧ m.nHeight a = height := by
        obtain ⟨a, ha, haq, hah⟩ := ih q (T.mem_parent hq) (by omega) (by omega)
        rw [show m.nHeight w - 1 = m.nHeight q by omega]
        exact ⟨a, ha, .step hq haq, hah⟩
      unfold getAncestorWalk
      rw [if_pos hlt, hb]
      simp only [hqb]
      cases hs : b.pskip with
      | none => exact hprev
      | some sk =>
        obtain ⟨hanc, hskh⟩ := T.skip w b sk hb hs
        rw [← hbh] at hskh
        simp only []
        split
        · rename_i huse
          have : height ≤ getSkipHeight (m.nHeight w) := by
            rcases huse with h | h
            · omega
            · exact le_of_lt h.1
          obtain ⟨a, ha, hask, hah⟩ := ih sk (T.mem_anc hanc hw) (by omega) (by omega)
          rw [← hskh]
          exact ⟨a, ha, hask.trans hanc, hah⟩
        · exact hprev
    · unfold getAncestorWalk
      rw [if_neg hlt]
      exact ⟨w, rfl, .refl, by omega⟩

theorem getAncestor_spec {p : BlockPtr} {height : Int} (hp : p ∈ m) (h0 : 0 ≤ height)
    (hle : height ≤ m.nHeight p) :
    ∃ a, m.getAncestor p height = some a ∧ Anc m.pprev a p ∧ m.nHeight a = height := by
  unfold getAncestor
  rw [if_neg (by omega)]
  exact T.getAncestorWalk_spec h0 _ p hp hle (by have := T.nHeight_nonneg p; omega)

theorem getAncestor_anc {p a : BlockPtr} {height : Int} (h : m.getAncestor p height = some a) : Anc m.pprev a p := by
  have hrange : 0 ≤ height ∧ height ≤ m.nHeight p := by
    unfold getAncestor at h
    split at h
    · cases h
    · omega
  by_cases hp : p ∈ m
  · obtain ⟨a', ha', hanc, -⟩ := T.getAncestor_spec hp hrange.1 hrange.2
    rw [h] at ha'
    cases ha'
    exact hanc
  · have hzero : m.nHeight p = 0 := by simp [nHeight, get_of_notMem hp]
    unfold getAncestor getAncestorWalk at h
    rw [if_neg (by omega), if_neg (by omega)] at h
    cases h
    exact .refl

theorem getAncestor_iff {p a : BlockPtr} {height : Int} (hp : p ∈ m) :
    m.getAncestor p height = some a ↔ Anc m.pprev a p ∧ m.nHeight a = height := by
  constructor
  · intro h
    have hr : 0 ≤ height ∧ height ≤ m.nHeight p := by
      by_contra hn
      unfold getAncestor at h
      rw [if_pos (by omega)] at h
      cases h
    obtain ⟨a', ha', hanc, hh⟩ := T.getAncestor_spec hp hr.1 hr.2
    rw [h] at ha'
    cases ha'
    exact ⟨hanc, hh⟩
  · rintro ⟨hanc, hh⟩
    have h1 := hanc.rank_le T.ranked
    have := T.rank_cast a
    have := T.rank_cast p
    obtain ⟨a', ha', hanc', hh'⟩ := T.getAncestor_spec hp
      (show 0 ≤ height by have := T.nHeight_nonneg a; omega) (by omega)
    have : m.rank a = m.rank a' := by have := T.rank_cast a'; omega
    rw [ha', hanc.unique T.ranked hanc' this]

theorem descendsFrom_iff {p a : BlockPtr} (hp : p ∈ m) :
    (m.getAncestor p (m.nHeight a) == some a) = true ↔ Anc m.pprev a p := by
  rw [beq_iff_eq, T.getAncestor_iff hp]
  simp

/-! ## The last common ancestor -/

theorem exists_parent {p : BlockPtr} (h : 0 < m.nHeight p) : ∃ q, m.pprev p = some q := by
  cases hq : m.pprev p with
  | none => have := T.nHeight_root hq; omega
  | some q => exact ⟨q, rfl⟩

theorem meet_spec : ∀ (fuel : Nat) (a b : BlockPtr), a ∈ m → b ∈ m → m.nHeight a = m.nHeight b →
    m.nHeight a < fuel → ∃ f, meet m fuel (some a) (some b) = some f ∧ IsFork m.pprev a b f := by
  intro fuel
  induction fuel with
  | zero => intro a b _ _ _ hf; have := T.nHeight_nonneg a; omega
  | succ fuel ih =>
    intro a b ha hb hab hf
    unfold meet
    by_cases h : a = b
    · subst h
      exact ⟨a, by simp, .of_anc .refl⟩
    · rw [if_neg h]
      have hpos : 0 < m.nHeight a := by
        by_contra hn
        have h0 : m.nHeight a = 0 := by have := T.nHeight_nonneg a; omega
        exact h (by rw [T.genesis_of_height ha h0, T.genesis_of_height hb (by omega)])
      obtain ⟨qa, hqa⟩ := T.exists_parent hpos
      obtain ⟨qb, hqb⟩ := T.exists_parent (p := b) (by omega)
      have h1 := T.nHeight_parent hqa
      have h2 := T.nHeight_parent hqb
      obtain ⟨f, hf, hfork⟩ := ih qa qb (T.mem_parent hqa) (T.mem_parent hqb) (by omega) (by omega)
      refine ⟨f, by rw [hqa, hqb, hf], .of_ancestors (.parent hqa) (.parent hqb) hfork ?_⟩
      -- a common ancestor is neither `a` nor `b`, which differ at one height
      intro x hxa hxb
      rcases (anc_child hqa).mp hxa with rfl | hxa'
      · exact absurd (hxb.eq_of_rank_le T.ranked (by simp [rank, hab])) h
      · rcases (anc_child hqb).mp hxb with rfl | hxb'
        · exact absurd (hxa.eq_of_rank_le T.ranked (by simp [rank, hab])).symm h
        · exact ⟨hxa', hxb'⟩

/-- Descending to the height of `a` on the way down from `b` passes no block below `a`. -/
theorem isFork_of_height {a b b' f : BlockPtr} (hb : Anc m.pprev b' b) (hh : m.nHeight b' = m.nHeight a)
    (hf : IsFork m.pprev a b' f) : IsFork m.pprev a b f := by
  refine .of_ancestors .refl hb hf ?_
  intro x hxa hxb
  refine ⟨hxa, hxb.of_rank_le T.ranked hb ?_⟩
  have := hxa.rank_le T.ranked
  have := T.rank_cast a
  have := T.rank_cast b'
  omega

theorem lastCommonAncestor_spec {a b : BlockPtr} (ha : a ∈ m) (hb : b ∈ m) :
    ∃ f, m.lastCommonAncestor (some a) (some b) = some f ∧ IsFork m.pprev a b f := by
  unfold lastCommonAncestor
  simp only []
  split
  · rename_i hlt
    obtain ⟨a', ha', hanc, hh⟩ := T.getAncestor_spec ha (T.nHeight_nonneg b) (le_of_lt hlt)
    obtain ⟨f, hf, hfork⟩ := T.meet_spec ((m.nHeight b).toNat + 1) a' b (T.mem_anc hanc ha) hb hh
      (by have := T.nHeight_nonneg b; omega)
    exact ⟨f, by rw [ha', hf], (T.isFork_of_height hanc hh hfork.symm).symm⟩
  · split
    · rename_i hlt
      obtain ⟨b', hb', hanc, hh⟩ := T.getAncestor_spec hb (T.nHeight_nonneg a) (le_of_lt hlt)
      obtain ⟨f, hf, hfork⟩ := T.meet_spec ((m.nHeight a).toNat + 1) a b' ha (T.mem_anc hanc hb) hh.symm
        (by have := T.nHeight_nonneg a; omega)
      exact ⟨f, by rw [hb', hf], T.isFork_of_height hanc hh hfork⟩
    · exact T.meet_spec _ a b ha hb (by omega) (by have := T.nHeight_nonneg a; omega)

end TreeShape

/-! ## A larger index -/

/-- `m'` keeps the blocks of `m` with their links, heights and work. -/
structure Extends (m m' : BlockMap) : Prop where
  mem : ∀ p, p ∈ m → p ∈ m'
  pprev : ∀ p, p ∈ m → m'.pprev p = m.pprev p
  nHeight : ∀ p, p ∈ m → m'.nHeight p = m.nHeight p
  nChainWork : ∀ p, p ∈ m → m'.nChainWork p = m.nChainWork p

theorem Extends.anc {m m' : BlockMap} {genesis a p : BlockPtr} (T : TreeShape m genesis) (hE : Extends m m')
    (hp : p ∈ m) : Anc m'.pprev a p ↔ Anc m.pprev a p :=
  anc_congr (S := (· ∈ m)) (fun _ _ _ hq => T.mem_parent hq) hE.pprev hp

theorem Extends.refl (m : BlockMap) : Extends m m := ⟨fun _ h => h, fun _ _ => rfl, fun _ _ => rfl, fun _ _ => rfl⟩

theorem Extends.trans {m m' m'' : BlockMap} (h1 : Extends m m') (h2 : Extends m' m'') : Extends m m'' where
  mem p hp := h2.mem p (h1.mem p hp)
  pprev p hp := by rw [h2.pprev p (h1.mem p hp), h1.pprev p hp]
  nHeight p hp := by rw [h2.nHeight p (h1.mem p hp), h1.nHeight p hp]
  nChainWork p hp := by rw [h2.nChainWork p (h1.mem p hp), h1.nChainWork p hp]

end BlockMap

/-! ## The active chain vector -/

namespace CChain

open BlockMap

/-- `v` is the path from genesis to `tip`, entry `i` at height `i`. -/
structure IsPath (m : BlockMap) (v : CChain) (tip : BlockPtr) : Prop where
  length : v.length = m.rank tip + 1
  entry : ∀ a, Anc m.pprev a tip → v[m.rank a]? = some (some a)

/-- A vector that lists, with every block it holds at the block's height, all its ancestors. -/
def Coherent (m : BlockMap) (v : CChain) : Prop :=
  ∀ p, v[m.rank p]? = some (some p) → ∀ a, Anc m.pprev a p → v[m.rank a]? = some (some a)

theorem coherent_nil (m : BlockMap) : Coherent m [] := fun p h => by simp at h

theorem length_resize (v : CChain) (n : Nat) : (v.resize n).length = n := by
  unfold resize
  simp
  omega

theorem getElem?_resize (v : CChain) {n i : Nat} (hi : i < n) :
    (v.resize n)[i]? = if i < v.length then v[i]? else some none := by
  unfold resize
  rw [List.getElem?_append, List.length_take]
  by_cases h : i < v.length
  · simp [h, hi]
  · rw [if_neg (by omega), if_neg h, List.getElem?_replicate, if_pos (by omega)]

theorem IsPath.tip_eq {m : BlockMap} {v : CChain} {tip : BlockPtr} (hc : IsPath m v tip) :
    v.tip = some tip := by
  unfold CChain.tip
  rw [List.getLast?_eq_getElem?, hc.length, Nat.add_sub_cancel, hc.entry tip .refl]
  rfl

section
variable {m : BlockMap} {genesis tip : BlockPtr} {v : CChain} (T : TreeShape m genesis)
include T

theorem IsPath.entry_iff (hc : IsPath m v tip) {p : BlockPtr} :
    v[m.rank p]? = some (some p) ↔ Anc m.pprev p tip := by
  constructor
  · intro h
    have hlt : m.rank p < v.length := (List.getElem?_eq_some_iff.mp h).1
    obtain ⟨a, ha, hk⟩ := Anc.exists_rank T.ranked T.rooted (b := tip) (n := m.rank p)
      (by have := hc.length; omega)
    have := hc.entry a ha
    rw [hk, h] at this
    cases this
    exact ha
  · exact hc.entry p

theorem IsPath.coherent (hc : IsPath m v tip) : Coherent m v :=
  fun _ h a ha => hc.entry a (ha.trans ((hc.entry_iff T).mp h))

theorem IsPath.contains_iff (hc : IsPath m v tip) {p : BlockPtr} :
    v.contains m p = true ↔ Anc m.pprev p tip := by
  rw [← hc.entry_iff T]
  unfold contains CChain.entry
  rw [beq_iff_eq]
  have hk := T.rank_cast p
  split
  · rename_i h
    constructor
    · intro hh; cases hh
    · intro hh
      have := (List.getElem?_eq_some_iff.mp hh).1
      omega
  · rw [show (m.nHeight p).toNat = m.rank p from rfl]
    cases hcp : v[m.rank p]? with
    | none => simp
    | some x => simp

theorem IsPath.mem_iff (hc : IsPath m v tip) {p : BlockPtr} : some p ∈ v ↔ Anc m.pprev p tip := by
  constructor
  · intro h
    obtain ⟨i, hi⟩ := List.mem_iff_getElem?.mp h
    have hlt : i < v.length := (List.getElem?_eq_some_iff.mp hi).1
    obtain ⟨a, ha, rfl⟩ := Anc.exists_rank T.ranked T.rooted (b := tip) (n := i)
      (by have := hc.length; omega)
    rw [hc.entry a ha] at hi
    cases hi
    exact ha
  · exact fun h => List.mem_iff_getElem?.mpr ⟨_, hc.entry p h⟩

theorem IsPath.unique {v' : CChain} (hc : IsPath m v tip) (hc' : IsPath m v' tip) : v = v' := by
  apply List.ext_getElem?
  intro i
  by_cases hi : i ≤ m.rank tip
  · obtain ⟨a, ha, rfl⟩ := Anc.exists_rank T.ranked T.rooted hi
    rw [hc.entry a ha, hc'.entry a ha]
  · rw [List.getElem?_eq_none (by have := hc.length; omega), List.getElem?_eq_none (by have := hc'.length; omega)]

theorem IsPath.extends {m' : BlockMap} (hc : IsPath m v tip) (hE : Extends m m') (ht : tip ∈ m) :
    IsPath m' v tip := by
  refine ⟨?_, ?_⟩
  · rw [hc.length, rank, rank, hE.nHeight tip ht]
  · intro a ha
    rw [hE.anc T ht] at ha
    rw [rank, hE.nHeight a (T.mem_anc ha ht)]
    exact hc.entry a ha

/-! ## SetTip -/

theorem Coherent.resize (hc : Coherent m v) (n : Nat) : Coherent m (v.resize n) := by
  intro p h a ha
  have hle := ha.rank_le T.ranked
  have hlt : m.rank p < n := by
    have := (List.getElem?_eq_some_iff.mp h).1
    rwa [length_resize] at this
  rw [getElem?_resize _ hlt] at h
  split at h
  · rename_i hpl
    rw [getElem?_resize _ (by omega), if_pos (by omega)]
    exact hc p h a ha
  · cases h

/-- The walk fills in the path below `p`, leaves the entries above it alone and stops where
the vector already lists it. -/
theorem setTipWalk_spec : ∀ (fuel : Nat) (v : CChain) (p : BlockPtr), m.rank p < fuel → m.rank p < v.length →
    (∀ q, m.rank q ≤ m.rank p → v[m.rank q]? = some (some q) → ∀ a, Anc m.pprev a q →
      v[m.rank a]? = some (some a)) →
    (setTipWalk m fuel v (some p)).length = v.length ∧
      (∀ i, m.rank p < i → (setTipWalk m fuel v (some p))[i]? = v[i]?) ∧
      ∀ a, Anc m.pprev a p → (setTipWalk m fuel v (some p))[m.rank a]? = some (some a) := by
  intro fuel
  induction fuel with
  | zero => intro v p hf; omega
  | succ fuel ih =>
    intro v p hf hl hcoh
    unfold setTipWalk
    rw [if_neg (by have := T.nHeight_nonneg p; omega)]
    simp only [show (m.nHeight p).toNat = m.rank p from rfl, if_neg (by omega : ¬ v.length ≤ m.rank p)]
    by_cases hset : v[m.rank p]? = some (some p)
    · rw [if_pos hset]
      exact ⟨rfl, fun _ _ => rfl, hcoh p (Nat.le_refl _) hset⟩
    · rw [if_neg hset]
      have hown : (v.set (m.rank p) (some p))[m.rank p]? = some (some p) := by simp [hl]
      cases hq : m.pprev p with
      | none =>
        have : ∀ fuel, setTipWalk m fuel (v.set (m.rank p) (some p)) none = v.set (m.rank p) (some p) := by
          intro n; cases n <;> rfl
        rw [this]
        refine ⟨by simp, fun i hi => by simp [show m.rank p ≠ i by omega], ?_⟩
        intro a ha
        rw [anc_root hq] at ha
        subst ha
        exact hown
      | some q =>
        have hk := T.ranked p q hq
        obtain ⟨h1, h2, h3⟩ := ih (v.set (m.rank p) (some p)) q (by omega) (by simp; omega) (by
          intro r hr hcr a ha
          have := ha.rank_le T.ranked
          rw [List.getElem?_set_ne (by omega)] at hcr ⊢
          exact hcoh r (by omega) hcr a ha)
        refine ⟨by rw [h1]; simp, ?_, ?_⟩
        · intro i hi
          rw [h2 i (by omega), List.getElem?_set_ne (by omega)]
        · intro a ha
          rcases (anc_child hq).mp ha with rfl | ha
          · rw [h2 _ (by omega)]
            exact hown
          · exact h3 a ha

/-- `SetTip` leaves the path to the new tip, whatever coherent vector it starts from. -/
theorem setTip_isPath (hc : Coherent m v) (p : BlockPtr) : IsPath m (v.setTip m p) p := by
  unfold setTip
  rw [if_neg (by have := T.nHeight_nonneg p; omega)]
  simp only [show (m.nHeight p).toNat = m.rank p from rfl]
  obtain ⟨h1, -, h3⟩ := setTipWalk_spec T (m.rank p + 1) (v.resize (m.rank p + 1)) p (by omega)
    (by rw [length_resize]; omega) (fun q _ => hc.resize T _ q)
  exact ⟨by rw [h1, length_resize], h3⟩

end

end CChain

end UnicityPow
