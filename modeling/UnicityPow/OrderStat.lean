import Mathlib.Data.List.Sort
import Mathlib.Tactic

/-!
# Order statistics

The entries of a sorted list, compared through counts: a bound is at most the `k`-th smallest entry
exactly when at most `k` entries are below it.
-/

namespace OrderStat

variable {α : Type*} [LinearOrder α]

theorem countP_eq_zero {l : List α} {a M : α} (hl : ∀ x ∈ l, a ≤ x) (ha : M ≤ a) : l.countP (· < M) = 0 := by
  rw [List.countP_eq_zero]
  intro x hx
  rw [decide_eq_true_eq, not_lt]
  exact ha.trans (hl x hx)

theorem le_iff_of_pairwise {M : α} : ∀ {l : List α} {k : Nat} {x : α}, l.Pairwise (· ≤ ·) → l[k]? = some x →
    (M ≤ x ↔ l.countP (· < M) ≤ k) := by
  intro l
  induction l with
  | nil => intro k x _ h; cases h
  | cons a l ih =>
    intro k x hl h
    obtain ⟨ha, hl⟩ := List.pairwise_cons.mp hl
    have hhead : l.countP (· < M) ≤ (a :: l).countP (· < M) := by
      rw [List.countP_cons]
      omega
    by_cases hM : M ≤ a
    · have hzero : (a :: l).countP (· < M) = 0 :=
        countP_eq_zero (List.forall_mem_cons.mpr ⟨le_rfl, ha⟩) hM
      rw [hzero]
      have hax : a ≤ x := List.forall_mem_cons.mpr ⟨le_rfl, ha⟩ x (List.mem_of_getElem? h)
      exact iff_of_true (hM.trans hax) (Nat.zero_le k)
    · have hcount : (a :: l).countP (· < M) = l.countP (· < M) + 1 := by
        rw [List.countP_cons, if_pos (decide_eq_true (not_le.mp hM))]
      cases k with
      | zero =>
        cases h
        rw [hcount]
        exact iff_of_false hM (by omega)
      | succ k =>
        rw [List.getElem?_cons_succ] at h
        rw [ih hl h, hcount]
        omega

/-- The `k`-th smallest entry. -/
theorem le_sorted_iff {l : List α} {k : Nat} {x M : α} (h : (l.insertionSort (· ≤ ·))[k]? = some x) :
    M ≤ x ↔ l.countP (· < M) ≤ k := by
  rw [le_iff_of_pairwise (List.pairwise_insertionSort (· ≤ ·) l) h, (List.perm_insertionSort (· ≤ ·) l).countP_eq]

end OrderStat
