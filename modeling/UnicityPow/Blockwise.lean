import Mathlib.Tactic

/-!
# Lists read in blocks

A state that is advanced by each full block of a list, and what is left over. Reading a list in
pieces, each with the rest of the one before in front of it, comes to the same as reading it at once.
-/

namespace Blockwise

section
variable {σ β : Type*} (n : Nat) (f : σ → List β → σ)

/-- The state after the full blocks of the list, and the rest. -/
def consume (s : σ) (l : List β) : σ × List β :=
  if 0 < n ∧ n ≤ l.length then consume (f s (l.take n)) (l.drop n) else (s, l)
termination_by l.length
decreasing_by
  rw [List.length_drop]
  omega

variable {n}

theorem consume_of_lt {l : List β} (h : l.length < n) (s : σ) : consume n f s l = (s, l) := by
  rw [consume, if_neg (by omega)]

theorem consume_of_le (hn : 0 < n) {l : List β} (h : n ≤ l.length) (s : σ) :
    consume n f s l = consume n f (f s (l.take n)) (l.drop n) := by
  rw [consume, if_pos ⟨hn, h⟩]

theorem consume_nil (s : σ) : consume n f s [] = (s, []) := by
  rw [consume, if_neg]
  rintro ⟨h, h'⟩
  exact absurd h' (Nat.not_le.mpr h)

/-- A full block in front of a list. -/
theorem consume_block (hn : 0 < n) {b : List β} (hb : b.length = n) (s : σ) (l : List β) :
    consume n f s (b ++ l) = consume n f (f s b) l := by
  rw [consume_of_le f hn (by rw [List.length_append]; omega), List.take_left' hb, List.drop_left' hb]

theorem consume_full (hn : 0 < n) {b : List β} (hb : b.length = n) (s : σ) : consume n f s b = (f s b, []) := by
  rw [← List.append_nil b, consume_block f hn hb, consume_nil, List.append_nil]

theorem exists_block {l : List β} (h : n ≤ l.length) :
    ∃ b r, l = b ++ r ∧ b.length = n ∧ r.length = l.length - n :=
  ⟨l.take n, l.drop n, (List.take_append_drop n l).symm, List.length_take_of_le h, List.length_drop⟩

/-- What is left over of the first list is read in front of the second. -/
theorem consume_append (hn : 0 < n) (l l' : List β) (s : σ) :
    consume n f s (l ++ l') = consume n f (consume n f s l).1 ((consume n f s l).2 ++ l') := by
  induction h : l.length using Nat.strong_induction_on generalizing l s with
  | _ k ih =>
    by_cases hl : n ≤ l.length
    · obtain ⟨b, r, rfl, hb, hr⟩ := exists_block hl
      rw [List.append_assoc, consume_block f hn hb, consume_block f hn hb]
      exact ih _ (by omega) r (f s b) rfl
    · rw [consume_of_lt f (Nat.not_le.mp hl)]

theorem consume_rest_length (hn : 0 < n) (l : List β) (s : σ) : (consume n f s l).2.length = l.length % n := by
  induction h : l.length using Nat.strong_induction_on generalizing l s with
  | _ k ih =>
    by_cases hl : n ≤ l.length
    · have hlt : (l.drop n).length < k := by
        rw [List.length_drop]
        omega
      rw [consume_of_le f hn hl, ih _ hlt (l.drop n) _ rfl, List.length_drop, ← h, ← Nat.mod_eq_sub_mod hl]
    · rw [consume_of_lt f (Nat.not_le.mp hl), ← h, Nat.mod_eq_of_lt (Nat.not_le.mp hl)]

end

end Blockwise
