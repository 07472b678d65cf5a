import Mathlib.Tactic
import Mathlib.Algebra.Order.Floor.Semifield

/-!
# Scaling by powers of two

Shifts of numbers as floors of exact products, and functions given on one period of an exponent and
doubled from each period to the next.
-/

namespace Scaling

section
variable {K : Type*} [Field K] [LinearOrder K] [IsStrictOrderedRing K]

section
variable [FloorSemiring K]

theorem floor_mul_zpow (x d : Nat) : ⌊(x : K) * 2 ^ (d : ℤ)⌋₊ = x * 2 ^ d := by
  rw [zpow_natCast]
  exact_mod_cast Nat.floor_natCast (R := K) (x * 2 ^ d)

theorem floor_mul_zpow_neg (x d : Nat) : ⌊(x : K) * 2 ^ (-(d : ℤ))⌋₊ = x / 2 ^ d := by
  rw [zpow_neg, zpow_natCast, ← div_eq_mul_inv]
  exact_mod_cast Nat.floor_div_eq_div (K := K) x (2 ^ d)

end

/-- The values `F` has on one period of length `N`, doubled from each period to the next. -/
def doubling (N : ℤ) (F : ℤ → K) (e : ℤ) : K := F (e % N) * 2 ^ (e / N)

/-- It is monotone as soon as it is on one period and ends there below twice its start. -/
theorem doubling_mono {N : ℤ} (hN : 0 < N) {F : ℤ → K} (h0 : ∀ i, 0 ≤ i → i < N → 0 ≤ F i)
    (hF : ∀ i j, 0 ≤ i → i ≤ j → j < N → F i ≤ F j) (hwrap : ∀ i, 0 ≤ i → i < N → F i ≤ 2 * F 0) :
    Monotone (doubling N F) := by
  intro d e hle
  have hd := Int.emod_nonneg d hN.ne'
  have he := Int.emod_nonneg e hN.ne'
  have hd' := Int.emod_lt_of_pos d hN
  have he' := Int.emod_lt_of_pos e hN
  have hdiv : d / N ≤ e / N := Int.ediv_le_ediv hN hle
  unfold doubling
  rcases hdiv.eq_or_lt with heq | hlt
  · have hmod : d % N ≤ e % N := by
      have h1 := Int.mul_ediv_add_emod d N
      have h2 := Int.mul_ediv_add_emod e N
      rw [heq] at h1
      linarith
    rw [heq]
    exact mul_le_mul_of_nonneg_right (hF _ _ hd hmod he') (zpow_nonneg zero_le_two _)
  · have hpow : (2 : K) ^ (d / N + 1) ≤ 2 ^ (e / N) := zpow_le_zpow_right₀ one_le_two hlt
    calc F (d % N) * 2 ^ (d / N) ≤ 2 * F 0 * 2 ^ (d / N) :=
          mul_le_mul_of_nonneg_right (hwrap _ hd hd') (zpow_nonneg zero_le_two _)
      _ = F 0 * 2 ^ (d / N + 1) := by rw [zpow_add_one₀ two_ne_zero]; ring
      _ ≤ F 0 * 2 ^ (e / N) := mul_le_mul_of_nonneg_left hpow (h0 0 le_rfl hN)
      _ ≤ F (e % N) * 2 ^ (e / N) :=
          mul_le_mul_of_nonneg_right (hF 0 _ le_rfl he he') (zpow_nonneg zero_le_two _)

end

end Scaling
