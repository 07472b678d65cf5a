import Mathlib.Tactic

/-!
# Keys by their last use

A history of uses has the last one first. A list that holds the keys that were used last, as many
as it has room for, holds them still when a use moves its key to the front.
-/

namespace Recency

variable {κ α : Type*} [DecidableEq κ]

/-- The keys of a history, each where it was used last. -/
def order : List κ → List κ
  | [] => []
  | k :: uses => k :: (order uses).filter (· ≠ k)

theorem nodup_order : ∀ uses : List κ, (order uses).Nodup
  | [] => List.nodup_nil
  | k :: uses => List.nodup_cons.mpr ⟨by simp, (nodup_order uses).filter _⟩

theorem filter_of_notMem {k : κ} {l : List κ} (h : k ∉ l) : l.filter (· ≠ k) = l := by
  rw [List.filter_eq_self]
  intro a ha
  exact decide_eq_true (fun heq => h (heq ▸ ha))

/-- A key among the first ones gives up one place. -/
theorem filter_take_of_mem {k : κ} : ∀ {l : List κ} {n : Nat}, l.Nodup → k ∈ l.take (n + 1) →
    (l.take (n + 1)).filter (· ≠ k) = (l.filter (· ≠ k)).take n
  | a :: l, n, hnodup, hk => by
    obtain ⟨hnotMem, hl⟩ := List.nodup_cons.mp hnodup
    rw [List.take_succ_cons] at hk ⊢
    by_cases ha : a = k
    · subst ha
      rw [List.filter_cons_of_neg (by simp), List.filter_cons_of_neg (by simp), filter_of_notMem hnotMem,
        filter_of_notMem (fun h => hnotMem (List.mem_of_mem_take h))]
    · have hk : k ∈ l.take n := (List.mem_cons.mp hk).resolve_left (fun h => ha h.symm)
      rw [List.filter_cons_of_pos (by simpa using ha), List.filter_cons_of_pos (by simpa using ha)]
      cases n with
      | zero => cases hk
      | succ n => rw [List.take_succ_cons, filter_take_of_mem hl hk]

/-- A key beyond the first ones leaves them as they are. -/
theorem take_filter_of_notMem {k : κ} : ∀ {l : List κ} {n : Nat}, k ∉ l.take n →
    (l.filter (· ≠ k)).take n = l.take n
  | [], _, _ => rfl
  | _ :: _, 0, _ => rfl
  | a :: l, n + 1, hk => by
    rw [List.take_succ_cons, List.mem_cons, not_or] at hk
    rw [List.filter_cons_of_pos (by simpa using Ne.symm hk.1), List.take_succ_cons, List.take_succ_cons,
      take_filter_of_notMem hk.2]

/-- A use of one of the last keys. -/
theorem take_order_of_mem {k : κ} {uses : List κ} {n : Nat} (h : k ∈ (order uses).take n) :
    (order (k :: uses)).take n = k :: ((order uses).take n).filter (· ≠ k) := by
  cases n with
  | zero => cases h
  | succ n => rw [order, List.take_succ_cons, filter_take_of_mem (nodup_order uses) h]

/-- A use of another key. -/
theorem take_order_of_notMem {k : κ} {uses : List κ} {n : Nat} (h : k ∉ (order uses).take (n + 1)) :
    (order (k :: uses)).take (n + 1) = k :: (order uses).take n := by
  rw [order, List.take_succ_cons, take_filter_of_notMem fun hk => h ?_]
  exact (List.take_subset_take_left _ (Nat.le_succ n)) hk

/-- Erasing the entry of a key, where no key occurs twice. -/
theorem eraseP_eq_filter {f : α → κ} (k : κ) : ∀ {l : List α}, (l.map f).Nodup →
    l.eraseP (fun a => f a = k) = l.filter (fun a => f a ≠ k)
  | [], _ => rfl
  | a :: l, h => by
    obtain ⟨hnotMem, hl⟩ := List.nodup_cons.mp h
    by_cases ha : f a = k
    · rw [List.eraseP_cons_of_pos (by simpa using ha), List.filter_cons_of_neg (by simpa using ha),
        List.filter_eq_self.mpr]
      intro b hb
      exact decide_eq_true (fun hbk => hnotMem (List.mem_map.mpr ⟨b, hb, hbk.trans ha.symm⟩))
    · rw [List.eraseP_cons_of_neg (by simpa using ha), List.filter_cons_of_pos (by simpa using ha),
        eraseP_eq_filter k hl]

end Recency
