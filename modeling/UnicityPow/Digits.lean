import Mathlib.Tactic
import Mathlib.Algebra.BigOperators.Intervals
import Mathlib.Data.Nat.Bitwise
import Mathlib.Data.Nat.Size

/-!
# Positional numbers

The value of the digits `d 0, …, d (n - 1)` in base `B`, least significant first. Loops over
digit arrays are sequences of digits and carries; what they compute is read off here.
-/

namespace Digits

def value (B : Nat) (d : Nat → Nat) (n : Nat) : Nat := ∑ i ∈ Finset.range n, d i * B ^ i

section
variable {B : Nat} {d e : Nat → Nat} {n : Nat}

@[simp] theorem value_zero (B : Nat) (d : Nat → Nat) : value B d 0 = 0 := rfl

theorem value_succ (B : Nat) (d : Nat → Nat) (n : Nat) : value B d (n + 1) = value B d n + d n * B ^ n :=
  Finset.sum_range_succ _ n

theorem value_congr (h : ∀ i < n, d i = e i) : value B d n = value B e n :=
  Finset.sum_congr rfl fun i hi => by rw [h i (Finset.mem_range.mp hi)]

/-- A number is its low digits and the rest, moved up. -/
theorem value_append (B : Nat) (d : Nat → Nat) (k m : Nat) :
    value B d (k + m) = value B d k + B ^ k * value B (fun i => d (i + k)) m := by
  induction m with
  | zero => simp
  | succ m ih =>
    rw [← Nat.add_assoc, value_succ, ih, value_succ, Nat.add_comm m k, pow_add]
    ring

theorem value_lt (h : ∀ i < n, d i < B) : value B d n < B ^ n := by
  induction n with
  | zero => simp
  | succ n ih =>
    have hn : d n + 1 ≤ B := h n (Nat.lt_succ_self n)
    have hlow := ih fun i hi => h i (Nat.lt_succ_of_lt hi)
    calc value B d (n + 1) < B ^ n + d n * B ^ n := by rw [value_succ]; omega
      _ = (d n + 1) * B ^ n := by ring
      _ ≤ B * B ^ n := Nat.mul_le_mul_right _ hn
      _ = B ^ (n + 1) := by ring

theorem value_of_high_zero {k : Nat} (hk : k ≤ n) (h : ∀ i, k ≤ i → i < n → d i = 0) :
    value B d n = value B d k := by
  induction n with
  | zero => rw [Nat.le_zero.mp hk]
  | succ n ih =>
    rcases Nat.eq_or_lt_of_le hk with rfl | hlt
    · rfl
    · rw [value_succ, h n (by omega) (Nat.lt_succ_self n), Nat.zero_mul, Nat.add_zero,
        ih (by omega) fun i hi hin => h i hi (Nat.lt_succ_of_lt hin)]

theorem value_update {j x : Nat} (hj : j < n) (hx : e j = d j + x) (h : ∀ i < n, i ≠ j → e i = d i) :
    value B e n = value B d n + x * B ^ j := by
  induction n with
  | zero => omega
  | succ n ih =>
    rw [value_succ, value_succ]
    by_cases hn : j = n
    · subst hn
      rw [hx, value_congr (e := d) fun i hi => h i (Nat.lt_succ_of_lt hi) (by omega)]
      ring
    · rw [ih (by omega) fun i hi => h i (Nat.lt_succ_of_lt hi), h n (Nat.lt_succ_self n) (fun e => hn e.symm)]
      ring

theorem value_complement (h : ∀ i < n, d i + e i + 1 = B) : value B d n + value B e n + 1 = B ^ n := by
  induction n with
  | zero => simp
  | succ n ih =>
    have hn := h n (Nat.lt_succ_self n)
    have hlow := ih fun i hi => h i (Nat.lt_succ_of_lt hi)
    calc value B d (n + 1) + value B e (n + 1) + 1
        = (value B d n + value B e n + 1) + (d n + e n) * B ^ n := by rw [value_succ, value_succ]; ring
      _ = (d n + e n + 1) * B ^ n := by rw [hlow]; ring
      _ = B ^ (n + 1) := by rw [hn]; ring

theorem value_add (B : Nat) (d e : Nat → Nat) (n : Nat) :
    value B (fun i => d i + e i) n = value B d n + value B e n := by
  induction n with
  | zero => rfl
  | succ n ih => rw [value_succ, ih, value_succ, value_succ]; ring

theorem value_mul_left (B x : Nat) (d : Nat → Nat) (n : Nat) : value B (fun i => x * d i) n = x * value B d n := by
  induction n with
  | zero => rfl
  | succ n ih => rw [value_succ, ih, value_succ]; ring

/-! ## Reading digits -/

theorem value_div (hB : 0 < B) (h : ∀ i < n, d i < B) {k : Nat} (hk : k ≤ n) :
    value B d n / B ^ k = value B (fun i => d (i + k)) (n - k) := by
  induction n with
  | zero => simp
  | succ n ih =>
    have hlow := fun i hi => h i (Nat.lt_succ_of_lt hi)
    rcases Nat.eq_or_lt_of_le hk with rfl | hlt
    · rw [Nat.sub_self, value_zero, Nat.div_eq_of_lt (value_lt h)]
    · have hpow : B ^ n = B ^ k * B ^ (n - k) := by rw [← pow_add]; congr 1; omega
      rw [value_succ, hpow, show d n * (B ^ k * B ^ (n - k)) = B ^ k * (d n * B ^ (n - k)) by ring,
        Nat.add_mul_div_left _ _ (Nat.pow_pos hB), ih hlow (by omega),
        show n + 1 - k = (n - k) + 1 by omega, value_succ, show n - k + k = n by omega]

theorem digit_eq (hB : 0 < B) (h : ∀ i < n, d i < B) {k : Nat} (hk : k < n) : value B d n / B ^ k % B = d k := by
  rw [value_div hB h (Nat.le_of_lt hk), show n - k = (n - k - 1) + 1 by omega]
  generalize n - k - 1 = m
  have hsplit : ∀ m, value B (fun i => d (i + k)) (m + 1) = d k + B * value B (fun i => d (i + 1 + k)) m := by
    intro m
    induction m with
    | zero => simp [value_succ]
    | succ m ih => rw [value_succ, ih, value_succ]; ring
  rw [hsplit, Nat.add_mul_mod_self_left, Nat.mod_eq_of_lt (h k hk)]

theorem value_inj (hB : 0 < B) (hd : ∀ i < n, d i < B) (he : ∀ i < n, e i < B) (h : value B d n = value B e n) :
    ∀ i < n, d i = e i := by
  intro i hi
  rw [← digit_eq hB hd hi, h, digit_eq hB he hi]

/-- Of two numbers with the same digits on top, the one with the smaller next digit is smaller. -/
theorem value_lt_value (hd : ∀ i < n, d i < B) (h : d n < e n) : value B d (n + 1) < value B e (n + 1) := by
  have hlow := value_lt hd
  calc value B d (n + 1) < B ^ n + d n * B ^ n := by rw [value_succ]; omega
    _ = (d n + 1) * B ^ n := by ring
    _ ≤ e n * B ^ n := Nat.mul_le_mul_right _ h
    _ ≤ value B e (n + 1) := by rw [value_succ]; exact Nat.le_add_left _ _

end

/-! ## Digits that are groups of bits -/

section
variable {k : Nat} {d : Nat → Nat} {n : Nat}

theorem testBit_value (hk : 0 < k) (h : ∀ i < n, d i < 2 ^ k) (b : Nat) :
    (value (2 ^ k) d n).testBit b = (decide (b < k * n) && (d (b / k)).testBit (b % k)) := by
  by_cases hb : b < k * n
  · have hi : b / k < n := Nat.div_lt_of_lt_mul hb
    have hmod := Nat.mod_lt b hk
    rw [← digit_eq (Nat.two_pow_pos k) h hi, Nat.testBit_mod_two_pow, ← pow_mul, Nat.testBit_div_two_pow,
      Nat.mod_add_div]
    simp [hb, hmod]
  · have hlt : value (2 ^ k) d n < 2 ^ b :=
      lt_of_lt_of_le (value_lt h) (by rw [← pow_mul]; exact Nat.pow_le_pow_right (by decide) (by omega))
    rw [Nat.testBit_lt_two_pow hlt]
    simp [hb]

theorem size_value (h : ∀ i < n, d i < 2 ^ k) (hn : d n ≠ 0) :
    Nat.size (value (2 ^ k) d (n + 1)) = k * n + Nat.size (d n) := by
  have hlow := value_lt h
  rw [← pow_mul] at hlow
  have hval : value (2 ^ k) d (n + 1) = value (2 ^ k) d n + d n * 2 ^ (k * n) := by rw [value_succ, ← pow_mul]
  obtain ⟨s, hs⟩ : ∃ s, Nat.size (d n) = s + 1 :=
    ⟨Nat.size (d n) - 1, by have := Nat.size_pos.mpr (Nat.pos_of_ne_zero hn); omega⟩
  have htop : d n < 2 ^ (s + 1) := by rw [← hs]; exact Nat.lt_size_self _
  have hbot : 2 ^ s ≤ d n := Nat.lt_size.mp (by omega)
  apply Nat.le_antisymm
  · rw [Nat.size_le, hval, hs]
    calc value (2 ^ k) d n + d n * 2 ^ (k * n) < 2 ^ (k * n) + d n * 2 ^ (k * n) := by omega
      _ = (d n + 1) * 2 ^ (k * n) := by ring
      _ ≤ 2 ^ (s + 1) * 2 ^ (k * n) := Nat.mul_le_mul_right _ htop
      _ = 2 ^ (k * n + (s + 1)) := by rw [← pow_add, Nat.add_comm]
  · rw [hs, ← Nat.add_assoc, Nat.succ_le_iff, Nat.lt_size, hval]
    calc 2 ^ (k * n + s) = 2 ^ s * 2 ^ (k * n) := by rw [← pow_add, Nat.add_comm]
      _ ≤ d n * 2 ^ (k * n) := Nat.mul_le_mul_right _ hbot
      _ ≤ _ := Nat.le_add_left _ _

end

end Digits
