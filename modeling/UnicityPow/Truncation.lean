import Mathlib.Tactic

/-!
# Floating formats that truncate

Numbers `m * B ^ e` with a mantissa below a bound `M`, and rounding down to the nearest one. The
bound is a multiple of the base, so that a mantissa that is too long fits after one more digit
is dropped.
-/

namespace Truncation

/-- `z` has a mantissa and an exponent. -/
def Fits (B M z : Nat) : Prop := ∃ m e, m < M ∧ z = m * B ^ e

/-- `e` is the least exponent with which the mantissa of `x` fits. -/
structure Scales (B M x e : Nat) : Prop where
  fits : x / B ^ e < M
  least : 0 < e → M ≤ x / B ^ (e - 1)

def truncate (B x e : Nat) : Nat := x / B ^ e * B ^ e

section
variable {B M x e : Nat}

theorem truncate_le (B x e : Nat) : truncate B x e ≤ x := Nat.div_mul_le_self x (B ^ e)

theorem sub_truncate_lt (hB : 0 < B) (x e : Nat) : x - truncate B x e < B ^ e := by
  have hlt := Nat.mod_lt x (Nat.pow_pos (n := e) hB)
  rwa [Nat.mod_eq_sub_div_mul] at hlt

theorem Scales.truncate_fits (h : Scales B M x e) : Fits B M (truncate B x e) := ⟨_, e, h.fits, rfl⟩

/-- A number with a smaller exponent is below `M * B ^ (e - 1)`, which the truncation does not pass. -/
theorem Scales.le_truncate (hB : 0 < B) (hM : B ∣ M) (h : Scales B M x e) {z : Nat} (hz : Fits B M z)
    (hle : z ≤ x) :
    z ≤ truncate B x e := by
  obtain ⟨m, k, hm, rfl⟩ := hz
  unfold truncate
  by_cases hk : e ≤ k
  · have hpow : B ^ k = B ^ (k - e) * B ^ e := by rw [← pow_add]; congr 1; omega
    rw [hpow, ← Nat.mul_assoc] at hle ⊢
    exact Nat.mul_le_mul_right _ ((Nat.le_div_iff_mul_le (Nat.pow_pos hB)).mpr hle)
  · obtain ⟨n, rfl⟩ : ∃ n, e = n + 1 := ⟨e - 1, by omega⟩
    obtain ⟨c, rfl⟩ := hM
    have hleast := h.least (Nat.succ_pos n)
    rw [Nat.add_sub_cancel, Nat.le_div_iff_mul_le (Nat.pow_pos hB)] at hleast
    have hc : c ≤ x / B ^ (n + 1) := by
      rw [Nat.le_div_iff_mul_le (Nat.pow_pos hB), pow_succ']
      calc c * (B * B ^ n) = B * c * B ^ n := by ring
        _ ≤ x := hleast
    calc m * B ^ k ≤ B * c * B ^ n :=
          Nat.mul_le_mul (Nat.le_of_lt hm) (Nat.pow_le_pow_right hB (by omega))
      _ = c * B ^ (n + 1) := by ring
      _ ≤ x / B ^ (n + 1) * B ^ (n + 1) := Nat.mul_le_mul_right _ hc

theorem Scales.truncate_mono (hB : 0 < B) (hM : B ∣ M) {y f : Nat} (hx : Scales B M x e) (hy : Scales B M y f)
    (hle : x ≤ y) : truncate B x e ≤ truncate B y f :=
  hy.le_truncate hB hM hx.truncate_fits ((truncate_le B x e).trans hle)

end

end Truncation
