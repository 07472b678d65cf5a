import UnicityPow.SkipSound
import UnicityPow.TreeSound

/-!
# Search by time

`FindEarliestAtLeast` halves the active chain, which is right because the time maximum of a
block is a maximum over the blocks below it: once a block is late and high enough, the blocks
above it are too.
-/

namespace UnicityPow

open Forest BlockMap

namespace BlockMap

/-- A block one above its parent has no lesser time maximum. -/
def TimesRise (m : BlockMap) : Prop :=
  ∀ p q, m.pprev p = some q → m.nHeight p = m.nHeight q + 1 → m.nTimeMax q ≤ m.nTimeMax p

theorem nTimeMax_of_get {m : BlockMap} {p : BlockPtr} {b : CBlockIndex} (h : m[p]? = some b) :
    m.nTimeMax p = b.nTimeMax := by simp [nTimeMax, h]

theorem timesRise_empty : TimesRise ∅ := fun p q h => by simp [pprev] at h

theorem TimesRise.sameCore {m m' : BlockMap} (h : TimesRise m) (hs : SameCore m m') : TimesRise m' := by
  unfold TimesRise
  rw [hs.pprev_eq, hs.nHeight_eq, hs.nTimeMax_eq]
  exact h

section
variable {m : BlockMap} {p : BlockPtr} {b : CBlockIndex} (hp : p ∉ m)
include hp

theorem nTimeMax_insert_mem {q : BlockPtr} (hq : q ∈ m) : nTimeMax (m.insert p b) q = m.nTimeMax q := by
  unfold nTimeMax
  rw [getElem?_insert_ne m b (by rintro rfl; exact hp hq)]

theorem TimesRise.insert (h : TimesRise m) (hclosed : ∀ x y, m.pprev x = some y → y ∈ m)
    (hnew : ∀ q, b.pprev = some q → b.nHeight = nHeight (m.insert p b) q + 1 →
      nTimeMax (m.insert p b) q ≤ b.nTimeMax) : TimesRise (m.insert p b) := by
  have hE := extends_insert b hp
  intro x q hx hh
  obtain ⟨d, hd⟩ := mem_iff.mp (mem_of_pprev hx)
  rcases get_insert hd with ⟨rfl, rfl⟩ | ⟨-, hdm⟩
  · rw [pprev_of_get hd] at hx
    rw [nHeight_of_get hd] at hh
    rw [nTimeMax_of_get hd]
    exact hnew q hx hh
  · have hxm := mem_of_get hdm
    rw [hE.pprev x hxm] at hx
    have hqm := hclosed x q hx
    rw [hE.nHeight x hxm, hE.nHeight q hqm] at hh
    rw [nTimeMax_insert_mem hp hxm, nTimeMax_insert_mem hp hqm]
    exact h x q hx hh

theorem closed_insert {q : BlockPtr} (hclosed : ∀ x y, m.pprev x = some y → y ∈ m) (hq : b.pprev = some q)
    (hqm : q ∈ m) : ∀ x y, pprev (m.insert p b) x = some y → y ∈ m.insert p b := by
  intro x y hx
  obtain ⟨d, hd⟩ := mem_iff.mp (mem_of_pprev hx)
  rw [mem_insert]
  rcases get_insert hd with ⟨rfl, rfl⟩ | ⟨-, hdm⟩
  · rw [pprev_of_get hd, hq] at hx
    cases hx
    exact .inr hqm
  · rw [(extends_insert b hp).pprev x (mem_of_get hdm)] at hx
    exact .inr (hclosed x y hx)

end

end BlockMap

theorem HeaderTree.timesRise {getHash : CBlockHeader → Uint256} {m : BlockMap} {genesis : BlockPtr}
    (T : HeaderTree getHash m genesis) : TimesRise m := by
  intro p q hp _
  obtain ⟨b, hb⟩ := mem_iff.mp (mem_of_pprev hp)
  have ht := T.timeMax p b hb
  rw [pprev_of_get hb] at hp
  rw [hp] at ht
  rw [nTimeMax_of_get hb, ht]
  exact le_max_left _ _

/-! ## Insertion and `Load` -/

section
variable {getHash : CBlockHeader → Uint256}

theorem BlockMap.TimesRise.newIndex {m : BlockMap} (h : TimesRise m) {header : CBlockHeader} {p q : BlockPtr}
    {d : CBlockIndex} (hp : p ∉ m) (hclosed : ∀ x y, m.pprev x = some y → y ∈ m) (hq : q ∈ m.insert p d) :
    TimesRise (m.insert p (BlockManager.newIndex (m.insert p d) header (some q))) := by
  generalize hb : BlockManager.newIndex (m.insert p d) header (some q) = b
  have hbp : b.pprev = some q := by rw [← hb]; rfl
  have hbt : nTimeMax (m.insert p d) q ≤ b.nTimeMax := by rw [← hb]; exact le_max_left _ _
  refine h.insert hp hclosed (fun r hr hh => ?_)
  rw [hbp] at hr
  cases hr
  rcases mem_insert.mp hq with rfl | hqm
  · -- the header's own entry is not one below itself
    rw [nHeight_of_get Std.ExtTreeMap.getElem?_insert_self] at hh
    omega
  · rw [nTimeMax_insert_mem hp hqm] at hbt ⊢
    exact hbt

theorem BlockMap.TimesRise.addToBlockIndex {s : BlockManager} (h : TimesRise s.blockIndex)
    (S : SkipShape s.blockIndex) (header : CBlockHeader) :
    TimesRise (s.addToBlockIndex getHash header).1.blockIndex := by
  have hclosed : ∀ x y, s.blockIndex.pprev x = some y → y ∈ s.blockIndex :=
    fun x y hx => S.mem_parent x y (mem_of_pprev hx) hx
  unfold BlockManager.addToBlockIndex
  simp only []
  split
  · exact h
  · rename_i hp
    split
    · rename_i hq
      simp only [insert_insert]
      exact h.newIndex hp hclosed hq
    · split
      · simp only [erase_insert _ hp]
        exact h
      · simp only [insert_insert]
        exact h.insert hp hclosed (fun q hq => by cases hq)

theorem relink_nTimeMax {m : BlockMap} {b : CBlockIndex} {q : BlockPtr} (hq : b.pprev = some q) :
    (m.buildSkip (setTimeMax m b)).nTimeMax = max (m.nTimeMax q) b.getBlockTime := by
  unfold setTimeMax
  simp only [hq]
  unfold buildSkip
  simp only

theorem Loadable.relinked_timesRise {genesis : BlockPtr} {file : HeaderFile} (h : Loadable getHash genesis file) :
    TimesRise (file.relinked getHash) := by
  refine (rebuild_induct links_relink h.shape
    (I := fun t => TimesRise t ∧ ∀ x y, t.pprev x = some y → y ∈ t) ?_ ?_).1
  · intro b hb
    have hroot : (relink (file.index getHash) b).pprev = none :=
      (CBlockIndex.of_links (links_relink _ b) CBlockIndex.pprev).trans (h.shape.genesis_entry hb).1
    have hnone : ∀ x y,
        BlockMap.pprev ((∅ : BlockMap).insert genesis (relink (file.index getHash) b)) x ≠ some y := by
      intro x y hx
      obtain ⟨d, hd⟩ := mem_iff.mp (mem_of_pprev hx)
      rw [pprev_of_get hd] at hx
      rcases get_insert hd with ⟨rfl, rfl⟩ | ⟨-, hd⟩
      · rw [hroot] at hx; cases hx
      · simp at hd
    exact ⟨fun x y hx => absurd hx (hnone x y), fun x y hx => absurd hx (hnone x y)⟩
  · intro t cur p q b ht hcur _ hp hq hb hbq
    have hbq' : (relink cur b).pprev = some q :=
      (CBlockIndex.of_links (links_relink cur b) CBlockIndex.pprev).trans hbq
    refine ⟨ht.1.insert hp ht.2 (fun r hr _ => ?_), closed_insert hp ht.2 hbq' hq⟩
    rw [hbq'] at hr
    cases hr
    rw [nTimeMax_insert_mem hp hq, show t.nTimeMax q = cur.nTimeMax q by unfold nTimeMax; rw [hcur q hq]]
    exact (le_max_left _ _).trans (relink_nTimeMax hbq).ge

theorem BuiltIndex.timesRise {m : BlockMap} (h : BuiltIndex getHash m) : TimesRise m := by
  induction h with
  | empty => exact timesRise_empty
  | addToBlockIndex header hs ih => exact ih.addToBlockIndex hs.skipShape header
  | load h =>
    obtain ⟨hload, rfl⟩ := BlockManager.load_true.mp h
    exact hload.relinked_timesRise
  | loadChainstate h => exact (load_loaded h).wf.tree.timesRise
  | status _ hs ih => exact ih.sameCore hs

end

/-! ## The vector -/

/-- Entry `i` is a block at height `i`, and the parent of the next. -/
structure CChain.Linked (m : BlockMap) (v : CChain) : Prop where
  block : ∀ i < v.length, ∃ p, v[i]? = some (some p) ∧ p ∈ m ∧ m.nHeight p = i
  parent : ∀ i p q, v[i]? = some (some q) → v[i + 1]? = some (some p) → m.pprev p = some q

theorem CChain.linked_nil (m : BlockMap) : CChain.Linked m [] :=
  ⟨fun i hi => absurd hi (Nat.not_lt_zero i), fun i p q h => by simp at h⟩

theorem CChain.IsPath.linked {m : BlockMap} {genesis tip : BlockPtr} {v : CChain} (T : TreeShape m genesis)
    (hv : CChain.IsPath m v tip) (ht : tip ∈ m) : CChain.Linked m v := by
  have hget : ∀ i < v.length, ∃ p, v[i]? = some (some p) ∧ Anc m.pprev p tip ∧ m.rank p = i := by
    intro i hi
    obtain ⟨p, hp, rfl⟩ := Anc.exists_rank T.ranked T.rooted (b := tip) (n := i) (by have := hv.length; omega)
    exact ⟨p, hv.entry p hp, hp, rfl⟩
  refine ⟨fun i hi => ?_, fun i p q hq hp => ?_⟩
  · obtain ⟨p, hp, hanc, rfl⟩ := hget i hi
    exact ⟨p, hp, T.mem_anc hanc ht, (T.rank_cast p).symm⟩
  · obtain ⟨p', hp', hanc, hk⟩ := hget (i + 1) (List.getElem?_eq_some_iff.mp hp).1
    rw [hp] at hp'
    cases hp'
    obtain ⟨r, hr⟩ := T.exists_parent (p := p) (by have := T.rank_cast p; omega)
    have hrk := T.ranked p r hr
    have := hv.entry r (.trans (.parent hr) hanc)
    have hrank : m.rank r = i := by
      have := T.nHeight_parent hr
      have := T.rank_cast p
      have := T.rank_cast r
      omega
    rw [hrank, hq] at this
    cases this
    exact hr

namespace CChain.Linked

variable {m : BlockMap} {v : CChain} (L : CChain.Linked m v) (R : TimesRise m)
include L

theorem mem_height {p : BlockPtr} (hp : some p ∈ v) :
    v[(m.nHeight p).toNat]? = some (some p) ∧ 0 ≤ m.nHeight p := by
  obtain ⟨i, hi⟩ := List.mem_iff_getElem?.mp hp
  obtain ⟨p', hp', -, hh⟩ := L.block i (List.getElem?_eq_some_iff.mp hi).1
  rw [hi] at hp'
  cases hp'
  rw [hh]
  exact ⟨hi, by omega⟩

include R

theorem nTimeMax_mono {i j : Nat} (hij : i ≤ j) : ∀ p q, v[i]? = some (some q) → v[j]? = some (some p) →
    m.nTimeMax q ≤ m.nTimeMax p := by
  induction j, hij using Nat.le_induction with
  | base =>
    intro p q hq hp
    rw [hq] at hp
    cases hp
    exact le_rfl
  | succ j _ ih =>
    intro p q hq hp
    obtain ⟨r, hr, -, hrh⟩ := L.block j (by have := (List.getElem?_eq_some_iff.mp hp).1; omega)
    obtain ⟨p', hp', -, hph⟩ := L.block (j + 1) (List.getElem?_eq_some_iff.mp hp).1
    rw [hp] at hp'
    cases hp'
    exact (ih r q hq hr).trans (R p r (L.parent j p r hr hp) (by omega))

/-- The comparator holds of an initial part of the vector. -/
theorem earlier_mono (nTime height : Int) : ∀ i j, i ≤ j → j < v.length →
    CChain.earlier m nTime height (v[j]?.join) = true → CChain.earlier m nTime height (v[i]?.join) = true := by
  intro i j hij hj h
  obtain ⟨p, hp, -, hph⟩ := L.block j hj
  obtain ⟨q, hq, -, hqh⟩ := L.block i (by omega)
  have ht := L.nTimeMax_mono R hij p q hq hp
  rw [hp] at h
  rw [hq]
  simp only [CChain.earlier, Option.join_some, Option.any_some, decide_eq_true_eq] at h ⊢
  omega

theorem lowerBound_splits (nTime height : Int) :
    Search.Splits (fun i => CChain.earlier m nTime height (v[i]?.join)) v.length
      (Search.lowerBound (fun i => CChain.earlier m nTime height (v[i]?.join)) v.length) :=
  Search.lowerBound_splits (L.earlier_mono R nTime height)

end CChain.Linked

/-- The lowest block that is late and high enough, if there is one. -/
structure CChain.EarliestAtLeast (m : BlockMap) (v : CChain) (nTime height : Int) (found : Option BlockPtr) :
    Prop where
  some_iff : ∀ b, found = some b ↔ some b ∈ v ∧ nTime ≤ m.nTimeMax b ∧ height ≤ m.nHeight b ∧
    ∀ p, some p ∈ v → nTime ≤ m.nTimeMax p → height ≤ m.nHeight p → m.nHeight b ≤ m.nHeight p
  none_iff : found = none ↔ ∀ p, some p ∈ v → ¬ (nTime ≤ m.nTimeMax p ∧ height ≤ m.nHeight p)

namespace CChain.Linked

variable {m : BlockMap} {v : CChain} (L : CChain.Linked m v) {nTime height : Int}
include L

theorem earlier_false_iff {p : BlockPtr} (hp : some p ∈ v) :
    CChain.earlier m nTime height (v[(m.nHeight p).toNat]?.join) = false ↔
      nTime ≤ m.nTimeMax p ∧ height ≤ m.nHeight p := by
  rw [(L.mem_height hp).1]
  simp only [CChain.earlier, Option.join_some, Option.any_some, decide_eq_false_iff_not]
  omega

theorem exists_late_iff :
    (∃ i < v.length, CChain.earlier m nTime height (v[i]?.join) = false) ↔
      ∃ p, some p ∈ v ∧ nTime ≤ m.nTimeMax p ∧ height ≤ m.nHeight p := by
  constructor
  · rintro ⟨i, hi, hlate⟩
    obtain ⟨p, hp, -, hh⟩ := L.block i hi
    have hpv : some p ∈ v := List.mem_iff_getElem?.mpr ⟨i, hp⟩
    refine ⟨p, hpv, (L.earlier_false_iff hpv).mp ?_⟩
    rw [hh]
    exact hlate
  · rintro ⟨p, hp, hlate⟩
    exact ⟨_, (List.getElem?_eq_some_iff.mp (L.mem_height hp).1).1, (L.earlier_false_iff hp).mpr hlate⟩

/-- Blocks of the vector at one height are the same block. -/
theorem eq_of_height {p q : BlockPtr} (hp : some p ∈ v) (hq : some q ∈ v) (h : m.nHeight p = m.nHeight q) :
    p = q := by
  have h1 := (L.mem_height hp).1
  rw [h, (L.mem_height hq).1] at h1
  cases h1
  rfl

theorem findEarliestAtLeast (R : TimesRise m) (nTime height : Int) :
    CChain.EarliestAtLeast m v nTime height (v.findEarliestAtLeast m nTime height) := by
  have hS := L.lowerBound_splits R nTime height
  have hlt := hS.lt_iff
  rw [L.exists_late_iff] at hlt
  unfold CChain.findEarliestAtLeast
  generalize hk : Search.lowerBound (fun i => CChain.earlier m nTime height (v[i]?.join)) v.length = k at hS hlt
  dsimp only
  by_cases hend : k = v.length
  · -- every block is too early or too low
    have hnone : ∀ p, some p ∈ v → ¬ (nTime ≤ m.nTimeMax p ∧ height ≤ m.nHeight p) := fun p hp hlate => by
      have := hlt.mpr ⟨p, hp, hlate⟩
      omega
    rw [if_pos hend]
    refine ⟨fun b => ⟨fun hb => (by cases hb), ?_⟩, ⟨fun _ => hnone, fun _ => rfl⟩⟩
    rintro ⟨hb, ht, hh, -⟩
    exact absurd ⟨ht, hh⟩ (hnone b hb)
  · have hle := hS.le
    obtain ⟨p, hp, -, hph⟩ := L.block k (by omega)
    have hpv : some p ∈ v := List.mem_iff_getElem?.mpr ⟨k, hp⟩
    have hlate : nTime ≤ m.nTimeMax p ∧ height ≤ m.nHeight p := by
      refine (L.earlier_false_iff hpv).mp ?_
      rw [hph]
      exact hS.after k le_rfl (by omega)
    have hleast : ∀ q, some q ∈ v → nTime ≤ m.nTimeMax q → height ≤ m.nHeight q → m.nHeight p ≤ m.nHeight q := by
      intro q hq ht hh
      have hkq := hS.le_of_false ((L.earlier_false_iff hq).mpr ⟨ht, hh⟩)
      have := (L.mem_height hq).2
      omega
    rw [if_neg hend, hp]
    refine ⟨fun b => ⟨?_, ?_⟩, ⟨fun hn => (by cases hn), fun hn => absurd hlate (hn p hpv)⟩⟩
    · intro hb
      cases hb
      exact ⟨hpv, hlate.1, hlate.2, hleast⟩
    · rintro ⟨hb, ht, hh, hmin⟩
      have hsame := le_antisymm (hmin p hpv hlate.1 hlate.2) (hleast b hb ht hh)
      rw [L.eq_of_height hb hpv hsame]
      rfl

end CChain.Linked

/-- `FindEarliestAtLeast` answers the lowest block of the chain that is late and high enough,
and none exactly if no block is. -/
theorem findEarliestAtLeast_lowest {getHash : CBlockHeader → Uint256} {m : BlockMap} (h : BuiltIndex getHash m)
    {v : CChain} (hv : CChain.Linked m v) (nTime height : Int) :
    (∀ b, v.findEarliestAtLeast m nTime height = some b ↔
      some b ∈ v ∧ nTime ≤ m.nTimeMax b ∧ height ≤ m.nHeight b ∧
        ∀ p, some p ∈ v → nTime ≤ m.nTimeMax p → height ≤ m.nHeight p → m.nHeight b ≤ m.nHeight p) ∧
    (v.findEarliestAtLeast m nTime height = none ↔
      ∀ p, some p ∈ v → ¬ (nTime ≤ m.nTimeMax p ∧ height ≤ m.nHeight p)) := by
  obtain ⟨hsome, hnone⟩ := hv.findEarliestAtLeast h.timesRise nTime height
  exact ⟨hsome, hnone⟩

/-- Genesis and two headers above it, searched by height. -/
theorem findEarliestAtLeast_lowest_nonce :
    CChain.findEarliestAtLeast [some 1, some 2, some 3] shortChain.blockIndex 0 1 = some 2 := by
  have h : BuiltIndex nonceHash shortChain.blockIndex :=
    .addToBlockIndex (nonceHeader 2 3) (.addToBlockIndex (nonceHeader 1 2) (.addToBlockIndex (nonceHeader 0 1) .empty))
  have hv : CChain.Linked shortChain.blockIndex [some 1, some 2, some 3] := by
    refine ⟨fun i hi => ?_, fun i p q hq hp => ?_⟩
    · match i, hi with
      | 0, _ => exact ⟨1, rfl, by decide +kernel, by decide +kernel⟩
      | 1, _ => exact ⟨2, rfl, by decide +kernel, by decide +kernel⟩
      | 2, _ => exact ⟨3, rfl, by decide +kernel, by decide +kernel⟩
    · match i, hq, hp with
      | 0, hq, hp => cases hq; cases hp; decide +kernel
      | 1, hq, hp => cases hq; cases hp; decide +kernel
  refine ((findEarliestAtLeast_lowest h hv 0 1).1 2).mpr ⟨by simp, by decide +kernel, by decide +kernel, ?_⟩
  intro p hp _ hh
  rw [show BlockMap.nHeight shortChain.blockIndex 2 = 1 by decide +kernel]
  exact hh

/-- In every state that calls reach from a new manager, the search of the active chain is right. -/
theorem activeChain_findEarliestAtLeast {getHash : CBlockHeader → Uint256} {params : ConsensusParams}
    {skipPow : Bool}
    {s : ChainstateManager} (nTime height : Int)
    (hrun : Run.Reaches (ChainstateManager.step getHash params) (fun _ _ => True)
      (ChainstateManager.fresh skipPow) s) :
    CChain.EarliestAtLeast s.blockIndex s.activeChain nTime height
      (s.activeChain.findEarliestAtLeast s.blockIndex nTime height) := by
  rcases reaches_blank_or_inUse hrun with h | ⟨genesis, W⟩
  · rw [h.manager]
    exact (CChain.linked_nil _).findEarliestAtLeast timesRise_empty nTime height
  · obtain ⟨tip, ht, hv⟩ := W.active
    exact (hv.linked W.tree.toTreeShape ht).findEarliestAtLeast W.tree.timesRise nTime height

end UnicityPow
