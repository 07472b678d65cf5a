import UnicityPow.DifficultySound
import UnicityPow.OrderStat

/-!
# Median times along a chain

A bound is at most the median of a window exactly when at most half of its times are below the bound.
The window of a block has, besides a time above the median of its parent, only times of the parent's.
-/

namespace UnicityPow

open Forest BlockMap

/-! ## The median of a window -/

theorem le_medianTime_iff {times : List Int} (h : times ≠ []) (M : Int) :
    M ≤ medianTime times ↔ times.countP (· < M) ≤ times.length / 2 := by
  have hlen : 0 < times.length := List.length_pos_iff.mpr h
  have hlt : times.length / 2 < (times.insertionSort (· ≤ ·)).length := by
    rw [List.length_insertionSort]
    omega
  have hget := List.getElem?_eq_getElem hlt
  unfold medianTime
  rw [hget]
  exact OrderStat.le_sorted_iff hget

namespace BlockMap

/-- The times of a block and its ancestors, of `k` blocks at most. -/
def window (m : BlockMap) (k : Nat) (p : BlockPtr) : List Int :=
  (m.ancestry k (some p)).map CBlockHeader.getBlockTime

section
variable {m : BlockMap} {genesis p q : BlockPtr} {b : CBlockIndex}

theorem window_parent (hb : m[p]? = some b) (hq : b.pprev = some q) (k : Nat) :
    m.window (k + 1) p = b.getBlockTime :: m.window k q := by
  unfold window
  rw [ancestry_of_get hb, hq]
  rfl

theorem window_ne_nil (hp : p ∈ m) {k : Nat} (hk : 0 < k) : m.window k p ≠ [] := by
  obtain ⟨b, hb⟩ := mem_iff.mp hp
  obtain ⟨j, rfl⟩ : ∃ j, k = j + 1 := ⟨k - 1, by omega⟩
  unfold window
  rw [ancestry_of_get hb]
  exact List.cons_ne_nil _ _

theorem window_take (T : TreeShape m genesis) (hp : p ∈ m) {k j : Nat} (hkj : k ≤ j) :
    m.window k p = (m.window j p).take k := by
  have hsize := rank_lt_size T hp
  unfold window
  rw [ancestry_take T k (m.size + 1) p hp (by omega), ancestry_take T j (m.size + 1) p hp (by omega),
    ← List.map_take,
    List.take_take, Nat.min_eq_left hkj]

theorem length_window (T : TreeShape m genesis) (hp : p ∈ m) (k : Nat) :
    (m.window k p).length = min k (m.rank p + 1) := by
  have hsize := rank_lt_size T hp
  unfold window
  rw [List.length_map, ancestry_take T k (m.size + 1) p hp (by omega), List.length_take,
    length_ancestry T (m.size + 1) hp (by omega)]

end

end BlockMap

section
variable {getHash : CBlockHeader → Uint256} {params : PowParams} {m : BlockMap} {genesis : BlockPtr}

theorem getMedianTimePast_eq (m : BlockMap) (p : BlockPtr) :
    m.getMedianTimePast p = medianTime (m.window MEDIAN_TIME_SPAN p) := rfl

/-- Of the window of the parent a child keeps all but the oldest time, and adds one above its median. -/
theorem getMedianTimePast_mono (A : AcceptedTree getHash params m genesis) (p : BlockPtr) (b : CBlockIndex)
    (q : BlockPtr) (hb : m[p]? = some b) (hq : b.pprev = some q) :
    m.getMedianTimePast q ≤ m.getMedianTimePast p := by
  have T := A.toTreeShape
  have hqm := (A.parent p b q hb hq).1
  have htime := (A.checked hb hq).2
  have hwindow : m.window MEDIAN_TIME_SPAN p = b.getBlockTime :: m.window 10 q := window_parent hb hq 10
  have htake : m.window 10 q = (m.window MEDIAN_TIME_SPAN q).take 10 := window_take T hqm (by decide)
  rw [getMedianTimePast_eq m p, le_medianTime_iff (window_ne_nil (mem_of_get hb) (by decide)), hwindow,
    List.countP_cons,
    if_neg (by simpa using htime.le), Nat.add_zero, List.length_cons]
  have hcount := (le_medianTime_iff (window_ne_nil hqm (by decide)) _).mp (le_refl (m.getMedianTimePast q))
  have hsub : (m.window 10 q).countP (· < m.getMedianTimePast q) ≤
      (m.window MEDIAN_TIME_SPAN q).countP (· < m.getMedianTimePast q) := by
    rw [htake]
    exact (List.take_sublist 10 _).countP_le
  have hlen : (m.window MEDIAN_TIME_SPAN q).length ≤ (m.window 10 q).length + 1 := by
    rw [length_window T hqm, length_window T hqm]
    unfold MEDIAN_TIME_SPAN
    omega
  have hhalf : (m.window MEDIAN_TIME_SPAN q).length / 2 ≤ ((m.window 10 q).length + 1) / 2 :=
    Nat.div_le_div_right hlen
  exact hsub.trans (hcount.trans hhalf)

theorem getMedianTimePast_mono_mined :
    minedChain.blockIndex.getMedianTimePast 3 ≤ minedChain.blockIndex.getMedianTimePast 4 := by
  obtain ⟨genesis, -, A⟩ := minedChain_checked
  have hmem : (4 : BlockPtr) ∈ minedChain.blockIndex := by decide +kernel
  obtain ⟨b, hb⟩ := mem_iff.mp hmem
  have hparent : b.pprev = some 3 := by
    rw [← pprev_of_get hb]
    decide +kernel
  exact getMedianTimePast_mono A 4 b 3 hb hparent

/-! ## Above the anchor -/

theorem nTime_of_get {p : BlockPtr} {b : CBlockIndex} (h : m[p]? = some b) : m.nTime p = b.nTime := by
  simp [BlockMap.nTime, h]

/-- When every ancestor above genesis has at least the time `M`, one time of a window is below `M` at most. -/
theorem countP_window (T : TreeShape m genesis) {M : Int} : ∀ (k : Nat) (q : BlockPtr), q ∈ m → 1 ≤ m.nHeight q →
    (∀ x, Anc m.pprev x q → 1 ≤ m.nHeight x → M ≤ (m.nTime x).toNat) →
    (m.window k q).countP (· < M) ≤ 1 := by
  intro k
  induction k with
  | zero => intro q _ _ _; exact Nat.zero_le 1
  | succ k ih =>
    intro q hq hpos h
    obtain ⟨b, hb⟩ := mem_iff.mp hq
    obtain ⟨r, hr⟩ := T.exists_parent (p := q) hpos
    have hbr : b.pprev = some r := by rw [← pprev_of_get hb]; exact hr
    have hself : M ≤ b.getBlockTime := by
      have := h q .refl hpos
      rwa [nTime_of_get hb] at this
    rw [window_parent hb hbr, List.countP_cons, if_neg (by simpa using hself), Nat.add_zero]
    by_cases hheight : 1 ≤ m.nHeight r
    · exact ih r (T.mem_parent hr) hheight (fun x hx => h x (.step hr hx))
    · -- the parent is genesis, and nothing is below it
      have hrank : m.rank r = 0 := by unfold rank; omega
      have hlen := length_window T (T.mem_parent hr) k
      rw [hrank] at hlen
      exact List.countP_le_length.trans (hlen.le.trans (min_le_right _ _))

theorem anchorTime_le (A : AcceptedTree getHash params m genesis) {a : BlockPtr} (ha : m.nHeight a = 1) :
    ∀ (n : Nat) (p : BlockPtr), m.rank p = n → p ∈ m → Anc m.pprev a p →
      (m.nTime a).toNat ≤ (m.nTime p).toNat ∧ (1 < m.nHeight p → (m.nTime a).toNat < (m.nTime p).toNat) := by
  have T := A.toTreeShape
  intro n
  induction n using Nat.strong_induction_on with
  | _ n ih =>
    intro p hn hp hanc
    cases hanc with
    | refl => exact ⟨le_rfl, fun h => by omega⟩
    | @step _ q hq hanc =>
      obtain ⟨b, hb⟩ := mem_iff.mp hp
      have hbq : b.pprev = some q := by rw [← pprev_of_get hb]; exact hq
      have hqm := T.mem_parent hq
      have hrank := T.ranked p q hq
      have hqpos : 1 ≤ m.nHeight q := by
        have h1 := hanc.rank_le T.ranked
        have h2 := T.rank_cast a
        have h3 := T.rank_cast q
        omega
      have hbound : ∀ x, Anc m.pprev x q → 1 ≤ m.nHeight x → ((m.nTime a).toNat : Int) ≤ (m.nTime x).toNat := by
        intro x hx hxpos
        have hxq := hx.rank_le T.ranked
        have hax : Anc m.pprev a x := by
          refine hanc.of_rank_le T.ranked hx ?_
          have h1 := T.rank_cast a
          have h2 := T.rank_cast x
          omega
        exact_mod_cast (ih (m.rank x) (by omega) x rfl (T.mem_anc hx hqm) hax).1
      have hcount := countP_window T MEDIAN_TIME_SPAN q hqm hqpos hbound
      have hlen : 2 ≤ (m.window MEDIAN_TIME_SPAN q).length := by
        have hcast := T.rank_cast q
        rw [length_window T hqm]
        unfold MEDIAN_TIME_SPAN
        omega
      have hmedian : ((m.nTime a).toNat : Int) ≤ m.getMedianTimePast q := by
        rw [getMedianTimePast_eq, le_medianTime_iff (window_ne_nil hqm (by decide))]
        omega
      have hlt : (m.nTime a).toNat < (m.nTime p).toNat := by
        have := (A.checked hb hbq).2
        unfold CBlockIndex.getBlockTime at this
        rw [nTime_of_get hb]
        omega
      exact ⟨hlt.le, fun _ => hlt⟩

/-- Every block above an anchor of height 1 is later than it, so the difference of the times that
`GetNextWorkRequired` takes in 32 bits is the difference of the numbers. -/
theorem anchor_time_difference_exact (A : AcceptedTree getHash params m genesis)
    (hanchor : params.nASERTAnchorHeight = 1)
    (p a : BlockPtr) (hp : p ∈ m) (ha : m.getAncestor p params.nASERTAnchorHeight = some a) :
    (params.nASERTAnchorHeight < m.nHeight p → (m.nTime a).toNat < (m.nTime p).toNat) ∧
    ((m.nTime p - m.nTime a).toNat : Int) = (m.nTime p).toNat - (m.nTime a).toNat := by
  rw [hanchor] at ha ⊢
  obtain ⟨hanc, hheight⟩ := (A.toTreeShape.getAncestor_iff hp).mp ha
  obtain ⟨hle, hlt⟩ := anchorTime_le A hheight (m.rank p) p rfl hp hanc
  refine ⟨hlt, ?_⟩
  rw [BitVec.toNat_sub_of_le (by rw [BitVec.le_def]; exact hle)]
  exact Int.ofNat_sub hle

end

/-- The last block of the chain has a time below that of its parent. -/
theorem anchor_time_difference_exact_mined :
    (minedChain.blockIndex.nTime 4).toNat < (minedChain.blockIndex.nTime 3).toNat ∧
    ((minedChain.blockIndex.nTime 4 - minedChain.blockIndex.nTime 2).toNat : Int) =
      (minedChain.blockIndex.nTime 4).toNat - (minedChain.blockIndex.nTime 2).toNat := by
  obtain ⟨genesis, -, A⟩ := minedChain_checked
  exact ⟨by decide +kernel, (anchor_time_difference_exact A rfl 4 2 (by decide +kernel) (by decide +kernel)).2⟩

end UnicityPow
