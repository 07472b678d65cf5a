import UnicityPow.BaseUintSound
import UnicityPow.Pow
import UnicityPow.Scaling
import Mathlib.Data.Rat.Floor

/-!
# ASERT is exact

The cubic stays below `2 ^ 64` and the product below `2 ^ 512`, and a shift that loses bits is seen
by shifting back. So the target is the floor of the exact product, and it follows the schedule
monotonically.
-/

namespace UnicityPow

open Digits Scaling

namespace BaseUint

/-! ## Conversions -/

theorem toNat_ofArith (a : ArithUint256) : (ofArith a).toNat = a.toNat := by
  apply Nat.eq_of_testBit_eq
  intro b
  have hdigit : (ofArith a).digit (b / 32) = a.extractLsb' (32 * (b / 32)) 32 := by
    unfold ofArith digit
    by_cases hb : b / 32 < 8
    · simp [hb]
    · have hzero : a.extractLsb' (32 * (b / 32)) 32 = 0 := by
        apply BitVec.eq_of_getLsbD_eq
        intro i hi
        rw [BitVec.getLsbD_extractLsb', BitVec.getLsbD_of_ge a _ (by omega)]
        simp
      rw [hzero]
      simp [hb]
  rw [testBit_toNat, hdigit, BitVec.getLsbD_extractLsb', Nat.div_add_mod, BitVec.testBit_toNat]
  simp [Nat.mod_lt b (show 0 < 32 by decide)]

theorem digit_ofUint256 (b : BaseUint 8) (i : Nat) : (ofUint256 b).digit i = if i < 8 then b.digit i else 0 := by
  unfold ofUint256
  by_cases hi : i < 16
  · simp [digit, hi]
  · rw [if_neg (by omega)]
    simp [digit, hi]

theorem toNat_ofUint256 (b : BaseUint 8) : (ofUint256 b).toNat = b.toNat := by
  unfold toNat
  rw [value_of_high_zero (k := 8) (by decide)]
  · exact value_congr (fun i hi => by rw [digit_ofUint256, if_pos hi])
  · intro i hi _
    rw [digit_ofUint256, if_neg (by omega)]
    rfl

theorem toNat_arithU512ToU256 {u512 : BaseUint 16} (h : u512.toNat < 2 ^ 256) :
    (arithU512ToU256 u512).toNat = u512.toNat := by
  have hhigh : ∀ i, 8 ≤ i → i < 16 → (u512.digit i).toNat = 0 := by
    intro i hi hlt
    have hle : 2 ^ 256 ≤ 2 ^ (32 * i) := Nat.pow_le_pow_right (by decide) (by omega)
    rw [toNat_digit u512 hlt, Nat.div_eq_of_lt (lt_of_lt_of_le h hle), Nat.zero_mod]
  unfold toNat
  rw [value_of_high_zero (k := 8) (n := 16) (by decide) hhigh]
  refine value_congr (fun i hi => ?_)
  unfold arithU512ToU256
  simp [digit, hi]

end BaseUint

/-! ## The factor -/

/-- `65536 * 2^x` at `x = f / 65536`, to the accuracy of the cubic. -/
def asertPoly (f : Nat) : Nat :=
  65536 + (195766423245049 * f + 971821376 * f ^ 2 + 5127 * f ^ 3 + 2 ^ 47) / 2 ^ 48

theorem asertCubic_le {f g : Nat} (h : f ≤ g) : 195766423245049 * f + 971821376 * f ^ 2 + 5127 * f ^ 3 + 2 ^ 47 ≤
    195766423245049 * g + 971821376 * g ^ 2 + 5127 * g ^ 3 + 2 ^ 47 := by
  have h2 := Nat.pow_le_pow_left h 2
  have h3 := Nat.pow_le_pow_left h 3
  omega

/-- The cubic fits 64 bits with less than one part in a hundred thousand to spare. -/
theorem asertCubic_lt {f : Nat} (h : f < 65536) :
    195766423245049 * f + 971821376 * f ^ 2 + 5127 * f ^ 3 + 2 ^ 47 < 2 ^ 64 :=
  lt_of_le_of_lt (asertCubic_le (show f ≤ 65535 by omega)) (by decide)

theorem asertPoly_mono : Monotone asertPoly := fun _ _ h =>
  Nat.add_le_add_left (Nat.div_le_div_right (asertCubic_le h)) _

theorem asertPoly_lt {f : Nat} (h : f < 65536) : asertPoly f < 2 * asertPoly 0 := by
  have hlt := asertCubic_lt h
  have hzero : asertPoly 0 = 65536 := by decide
  rw [hzero]
  unfold asertPoly
  omega

theorem toNat_asertFactor (frac : BitVec 16) : (asertFactor frac).toNat = asertPoly frac.toNat := by
  have hf : frac.toNat < 65536 := frac.isLt
  have hfrac : frac.setWidth 64 = BitVec.ofNat 64 frac.toNat := by
    apply BitVec.eq_of_toNat_eq
    rw [BitVec.toNat_setWidth, BitVec.toNat_ofNat]
  have hlt := asertPoly_lt hf
  have hzero : asertPoly 0 = 65536 := by decide
  have hcubic : 195766423245049#64 * frac.setWidth 64 + 971821376#64 * frac.setWidth 64 * frac.setWidth 64 +
      5127#64 * frac.setWidth 64 * frac.setWidth 64 * frac.setWidth 64 + 1#64 <<< 47 =
      BitVec.ofNat 64 (195766423245049 * frac.toNat + 971821376 * frac.toNat ^ 2 + 5127 * frac.toNat ^ 3 +
        2 ^ 47) := by
    rw [hfrac, show 1#64 <<< 47 = BitVec.ofNat 64 (2 ^ 47) by decide, ← BitVec.ofNat_mul, ← BitVec.ofNat_mul,
      ← BitVec.ofNat_mul, ← BitVec.ofNat_mul, ← BitVec.ofNat_mul, ← BitVec.ofNat_mul, ← BitVec.ofNat_add,
      ← BitVec.ofNat_add, ← BitVec.ofNat_add]
    congr 1
    ring
  unfold asertFactor
  dsimp only
  rw [hcubic, BitVec.toNat_setWidth, BitVec.toNat_add, BitVec.toNat_ushiftRight, BitVec.toNat_ofNat,
    BitVec.toNat_ofNat,
    Nat.mod_eq_of_lt (asertCubic_lt hf), Nat.shiftRight_eq_div_pow]
  unfold asertPoly at hlt ⊢
  omega

/-! ## The exponent -/

theorem toInt64_eq {n : Int} (hlow : -2 ^ 63 ≤ n) (hhigh : n < 2 ^ 63) : toInt64 n = n := by
  unfold toInt64
  rw [BitVec.toInt_ofInt]
  exact Int.bmod_eq_of_le (by omega) (by omega)

theorem natAbs_tdiv_lt {x h : Int} {b : Nat} (hx : x.natAbs < b * h.natAbs) : (x.tdiv h).natAbs < b := by
  rw [Int.natAbs_tdiv]
  exact Nat.div_lt_of_lt_mul (by rwa [Nat.mul_comm])

/-- The exponent of the schedule, with 16 fractional bits. -/
def scheduleExponent (s t n h : Int) : Int := ((t - s * (n + 1)) * 65536).tdiv h

theorem scheduleExponent_mono {s t t' n h : Int} (hh : 0 < h) (hle : t ≤ t') :
    scheduleExponent s t n h ≤ scheduleExponent s t' n h :=
  Int.tdiv_le_tdiv hh (by omega)

theorem scheduleExponent_anti {s t n n' h : Int} (hh : 0 < h) (hs : 0 < s) (hle : n ≤ n') :
    scheduleExponent s t n' h ≤ scheduleExponent s t n h := by
  have hmul : s * (n + 1) ≤ s * (n' + 1) := Int.mul_le_mul_of_nonneg_left (by omega) hs.le
  exact Int.tdiv_le_tdiv hh (by omega)

/-- What the callers of `CalculateASERT` pass: a target within the limit, an elapsed time and a number
of blocks, on a schedule that 64 bits hold and that is not too many half-lives away. -/
structure AsertArgs (refTarget powLimit : BaseUint 8) (s t n h : Int) : Prop where
  target : 1 ≤ refTarget.toNat ∧ refTarget.toNat ≤ powLimit.toNat
  halfLife : 0 < h
  spacing : 0 < s
  time : 0 ≤ t ∧ t < 2 ^ 32
  height : 0 ≤ n ∧ n < 2 ^ 31
  exponent : |t - s * (n + 1)| < 2 ^ 31 * h
  schedule : s * (n + 1) < 2 ^ 63

section
variable {refTarget powLimit : BaseUint 8} {s t n h : Int} (A : AsertArgs refTarget powLimit s t n h)
include A

theorem AsertArgs.natAbs_lt : (scheduleExponent s t n h).natAbs < 2 ^ 47 := by
  apply natAbs_tdiv_lt
  have hexp := abs_lt.mp A.exponent
  have hpos := A.halfLife
  omega

theorem AsertArgs.exponent_eq :
    asertExponent (toInt64 (t - toInt64 (s * toInt64 (n + 1)))) h = scheduleExponent s t n h := by
  have hn := A.height
  have ht := A.time
  have hlt := A.schedule
  have hpos : 0 < s * (n + 1) := Int.mul_pos A.spacing (by omega)
  have hbound := A.natAbs_lt
  rw [toInt64_eq (n := n + 1) (by omega) (by omega), toInt64_eq (n := s * (n + 1)) (by omega) hlt,
    toInt64_eq (by omega) (by omega)]
  have hdef : ((t - s * (n + 1)) * 65536).tdiv h = scheduleExponent s t n h := rfl
  unfold asertExponent
  dsimp only
  rw [hdef, if_neg (by omega), if_neg (by omega)]

end

/-! ## The shift -/

theorem toNat_shiftCount {d : Nat} (h : d < 2 ^ 32) : (BitVec.ofInt 32 (d : Int)).toNat = d := by
  rw [BitVec.toNat_ofInt]
  omega

/-- Lost bits make the number that is shifted back a smaller one. -/
theorem BaseUint.shift_back_iff {WIDTH : Nat} (x : BaseUint WIDTH) (d : Nat) :
    (x.shiftLeft d).shiftRight d = x ↔ x.toNat * 2 ^ d < 2 ^ (32 * WIDTH) := by
  rw [← toNat_inj, toNat_shiftRight, toNat_shiftLeft]
  constructor
  · intro h
    have hle : x.toNat * 2 ^ d ≤ x.toNat * 2 ^ d % 2 ^ (32 * WIDTH) :=
      (Nat.le_div_iff_mul_le (Nat.two_pow_pos d)).mp h.ge
    exact lt_of_le_of_lt hle (Nat.mod_lt _ (Nat.two_pow_pos _))
  · intro h
    rw [Nat.mod_eq_of_lt h, Nat.mul_div_cancel _ (Nat.two_pow_pos d)]

theorem min_asertShift {x p : BaseUint 16} {k : Int} (hlow : -2 ^ 32 < k) (hhigh : k < 2 ^ 32) :
    min p.toNat (asertShift x p k).toNat = min p.toNat ⌊(x.toNat : ℚ) * 2 ^ k⌋₊ := by
  unfold asertShift
  by_cases hk : k ≤ 0
  · obtain ⟨d, rfl⟩ : ∃ d : Nat, k = -(d : Int) := ⟨(-k).toNat, by omega⟩
    rw [if_pos hk, neg_neg, toNat_shiftCount (by omega), BaseUint.toNat_shiftRight, floor_mul_zpow_neg]
  · obtain ⟨d, rfl⟩ : ∃ d : Nat, k = d := ⟨k.toNat, by omega⟩
    rw [if_neg hk, toNat_shiftCount (by omega), floor_mul_zpow]
    dsimp only
    split
    · rename_i hlost
      rw [Ne, x.shift_back_iff, Nat.not_lt] at hlost
      rw [min_self, min_eq_left (p.toNat_lt.le.trans hlost)]
    · rename_i hkept
      rw [Ne, not_not, x.shift_back_iff] at hkept
      have hexact : (x.shiftLeft d).toNat = x.toNat * 2 ^ d := by
        rw [BaseUint.toNat_shiftLeft]
        exact Nat.mod_eq_of_lt hkept
      rw [hexact]

/-! ## The target -/

/-- The target of the schedule in exact arithmetic. -/
def asertTarget (refTarget powLimit : Nat) (s t n h : Int) : Nat :=
  let e := scheduleExponent s t n h
  max 1 (min powLimit ⌊((refTarget * asertPoly (e % 65536).toNat : Nat) : ℚ) * 2 ^ (e / 65536) / 65536⌋₊)

theorem toNat_ofInt16 (e : Int) : (BitVec.ofInt 16 e).toNat = (e % 65536).toNat := by
  rw [BitVec.toNat_ofInt]
  rfl

theorem product_lt (refTarget : BaseUint 8) {f : Nat} (hf : f < 65536) :
    refTarget.toNat * asertPoly f < 2 ^ (32 * 16) := by
  have hpoly := asertPoly_lt hf
  have hzero : asertPoly 0 = 65536 := by decide
  calc refTarget.toNat * asertPoly f ≤ 2 ^ 256 * 2 ^ 17 :=
        Nat.mul_le_mul refTarget.toNat_lt.le (by omega)
    _ < 2 ^ (32 * 16) := by decide +kernel

/-- The end of `CalculateASERT`, from the clamp in 512 bits on. -/
theorem clamp_eq (powLimit : BaseUint 8) (y : BaseUint 16) :
    (if (BaseUint.arithU512ToU256 (if 0 < y.compareTo (.ofUint256 powLimit) then .ofUint256 powLimit else y)).equalTo 0
      then .ofUint64 1
      else if 0 < (BaseUint.arithU512ToU256 (if 0 < y.compareTo (.ofUint256 powLimit) then .ofUint256 powLimit
        else y)).compareTo powLimit then powLimit
      else BaseUint.arithU512ToU256 (if 0 < y.compareTo (.ofUint256 powLimit) then .ofUint256 powLimit else y)).toNat =
      max 1 (min powLimit.toNat y.toNat) := by
  have hlimit := powLimit.toNat_lt
  have hmin : (if 0 < y.compareTo (.ofUint256 powLimit) then BaseUint.ofUint256 powLimit else y).toNat =
      min powLimit.toNat y.toNat := by
    by_cases h : powLimit.toNat < y.toNat
    · rw [if_pos (by rw [BaseUint.compareTo_pos_iff, BaseUint.toNat_ofUint256]; exact h), BaseUint.toNat_ofUint256,
        min_eq_left h.le]
    · rw [if_neg (by rw [BaseUint.compareTo_pos_iff, BaseUint.toNat_ofUint256]; exact h),
        min_eq_right (not_lt.mp h)]
  generalize (if 0 < y.compareTo (.ofUint256 powLimit) then BaseUint.ofUint256 powLimit else y) = z at hmin ⊢
  have hz : (BaseUint.arithU512ToU256 z).toNat = min powLimit.toNat y.toNat := by
    rw [BaseUint.toNat_arithU512ToU256 (by rw [hmin]; exact lt_of_le_of_lt (min_le_left _ _) hlimit), hmin]
  have hone : (BaseUint.ofUint64 1 : BaseUint 8).toNat = 1 := BaseUint.toNat_ofUint64 (by decide) 1
  split
  · rename_i hzero
    rw [BaseUint.equalTo_iff _ (by decide), hz] at hzero
    change min powLimit.toNat y.toNat = 0 at hzero
    rw [hone, hzero]
    rfl
  · rename_i hzero
    rw [BaseUint.equalTo_iff _ (by decide), hz] at hzero
    change ¬min powLimit.toNat y.toNat = 0 at hzero
    rw [if_neg (by rw [BaseUint.compareTo_pos_iff, hz]; exact not_lt.mpr (min_le_left _ _)), hz]
    exact (max_eq_right (Nat.one_le_iff_ne_zero.mpr hzero)).symm

section
variable {refTarget powLimit : BaseUint 8} {s t n h : Int} (A : AsertArgs refTarget powLimit s t n h)
include A

theorem AsertArgs.toNat_eq :
    (calculateASERT refTarget s t n powLimit h).toNat = asertTarget refTarget.toNat powLimit.toNat s t n h := by
  have hbound := A.natAbs_lt
  have hlimit := powLimit.toNat_lt
  have hinput : ¬(refTarget.equalTo 0 ∨ 0 < refTarget.compareTo powLimit) := by
    rw [BaseUint.equalTo_iff _ (by decide), BaseUint.compareTo_pos_iff]
    have := A.target
    change ¬(refTarget.toNat = 0 ∨ _)
    omega
  unfold calculateASERT
  rw [if_neg hinput, if_neg (by have := A.height; omega), if_neg (by have := A.halfLife; omega)]
  dsimp only
  rw [A.exponent_eq]
  unfold asertTarget
  dsimp only
  generalize scheduleExponent s t n h = e at hbound ⊢
  have hfactor : (asertFactor (BitVec.ofInt 16 e)).toNat = asertPoly (e % 65536).toNat := by
    rw [toNat_asertFactor, toNat_ofInt16]
  have hproduct : ((BaseUint.ofUint256 refTarget).mulUint32 (asertFactor (BitVec.ofInt 16 e))).toNat =
      refTarget.toNat * asertPoly (e % 65536).toNat := by
    rw [BaseUint.toNat_mulUint32, hfactor, BaseUint.toNat_ofUint256, Nat.mul_comm]
    exact Nat.mod_eq_of_lt (product_lt refTarget (by omega))
  have hshift : e >>> (16 : Nat) = e / 65536 := Int.shiftRight_eq_div_pow e 16
  have hmin := min_asertShift (x := (BaseUint.ofUint256 refTarget).mulUint32 (asertFactor (BitVec.ofInt 16 e)))
    (p := BaseUint.ofUint256 powLimit) (k := e >>> (16 : Nat) - 16) (by omega) (by omega)
  rw [clamp_eq]
  rw [hproduct, BaseUint.toNat_ofUint256] at hmin
  rw [hmin, hshift, zpow_sub₀ two_ne_zero, mul_div_assoc]
  norm_num

end

/-! ## The schedule -/

theorem asertTarget_doubling (refTarget powLimit : Nat) (s t n h : Int) : asertTarget refTarget powLimit s t n h =
    max 1 (min powLimit
      ⌊(refTarget : ℚ) * doubling 65536 (fun f => (asertPoly f.toNat : ℚ)) (scheduleExponent s t n h) / 65536⌋₊) := by
  unfold asertTarget doubling
  dsimp only
  rw [Nat.cast_mul, mul_assoc]

theorem doubling_asertPoly_mono : Monotone (doubling 65536 (fun f => (asertPoly f.toNat : ℚ))) := by
  refine doubling_mono (by decide) (fun _ _ _ => Nat.cast_nonneg _) (fun i j _ hle _ => ?_) (fun i _ hlt => ?_)
  · exact_mod_cast asertPoly_mono (by omega)
  · exact_mod_cast (asertPoly_lt (f := i.toNat) (by omega)).le

theorem asertTarget_mono {refTarget powLimit : Nat} {s t n h s' t' n' h' : Int}
    (hle : scheduleExponent s t n h ≤ scheduleExponent s' t' n' h') :
    asertTarget refTarget powLimit s t n h ≤ asertTarget refTarget powLimit s' t' n' h' := by
  rw [asertTarget_doubling, asertTarget_doubling]
  refine max_le_max_left 1 (min_le_min_left powLimit (Nat.floor_mono ?_))
  have hmul := mul_le_mul_of_nonneg_left (doubling_asertPoly_mono hle) (Nat.cast_nonneg (α := ℚ) refTarget)
  exact div_le_div_of_nonneg_right hmul (by norm_num)

/-- On a schedule that 64 bits hold, the target is the floor of the exact product between 1 and the limit,
no sum or product on the way wraps, and the target rises with the time and falls with the height. -/
theorem calculateASERT_exact {refTarget powLimit : BaseUint 8} {s t n h : Int}
    (A : AsertArgs refTarget powLimit s t n h) :
    (calculateASERT refTarget s t n powLimit h).toNat = asertTarget refTarget.toNat powLimit.toNat s t n h ∧
    (-2 ^ 63 ≤ t - s * (n + 1) ∧ t - s * (n + 1) < 2 ^ 63) ∧
    (∀ f < 65536, 195766423245049 * f + 971821376 * f ^ 2 + 5127 * f ^ 3 + 2 ^ 47 < 2 ^ 64 ∧
      refTarget.toNat * asertPoly f < 2 ^ (32 * 16)) ∧
    (∀ t', AsertArgs refTarget powLimit s t' n h → t ≤ t' →
      (calculateASERT refTarget s t n powLimit h).toNat ≤ (calculateASERT refTarget s t' n powLimit h).toNat) ∧
    (∀ n', AsertArgs refTarget powLimit s t n' h → n ≤ n' →
      (calculateASERT refTarget s t n' powLimit h).toNat ≤ (calculateASERT refTarget s t n powLimit h).toNat) := by
  have ht := A.time
  have hn := A.height
  have hpos : 0 < s * (n + 1) := Int.mul_pos A.spacing (by omega)
  have hlt := A.schedule
  refine ⟨A.toNat_eq, by omega, fun f hf => ⟨asertCubic_lt hf, product_lt refTarget hf⟩, fun t' A' hle => ?_,
    fun n' A' hle => ?_⟩
  · rw [A.toNat_eq, A'.toNat_eq]
    exact asertTarget_mono (scheduleExponent_mono A.halfLife hle)
  · rw [A.toNat_eq, A'.toNat_eq]
    exact asertTarget_mono (scheduleExponent_anti A.halfLife A.spacing hle)

/-- Half a half-life behind a schedule of ten minutes. -/
theorem calculateASERT_exact_behind :
    (calculateASERT (.ofUint64 1000) 600 1200 0 (.ofUint64 4000) 1200).toNat =
      asertTarget (BaseUint.ofUint64 1000 : BaseUint 8).toNat (BaseUint.ofUint64 4000 : BaseUint 8).toNat 600 1200 0 1200 :=
  (calculateASERT_exact ⟨by decide +kernel, by decide, by decide, by decide, by decide, by decide, by decide⟩).1

/-- A spacing of `2 ^ 62` seconds: four blocks of it are `2 ^ 64`, which wraps to no time at all. -/
theorem calculateASERT_wraps :
    ¬ ∀ (refTarget powLimit : BaseUint 8) (s t n h : Int), 1 ≤ refTarget.toNat ∧ refTarget.toNat ≤ powLimit.toNat →
      powLimit.toNat < 2 ^ 255 → 0 < h ∧ h < 2 ^ 63 → 0 < s ∧ s < 2 ^ 63 → 0 ≤ t ∧ t < 2 ^ 32 → 0 ≤ n ∧
      n < 2 ^ 31 →
      |t - s * (n + 1)| < 2 ^ 31 * h →
      (calculateASERT refTarget s t n powLimit h).toNat = asertTarget refTarget.toNat powLimit.toNat s t n h := by
  intro hall
  have h := hall (.ofUint64 (2 ^ 20)) (.ofUint64 (2 ^ 40)) (2 ^ 62) 0 3 (2 ^ 60) (by decide +kernel) (by decide +kernel)
    (by decide) (by decide) (by decide) (by decide) (by decide)
  have hcode : (calculateASERT (.ofUint64 (2 ^ 20)) (2 ^ 62) 0 3 (.ofUint64 (2 ^ 40)) (2 ^ 60)).toNat =
      2 ^ 20 := by
    decide +kernel
  have href : (BaseUint.ofUint64 (2 ^ 20) : BaseUint 8).toNat = 2 ^ 20 := by decide +kernel
  have hlim : (BaseUint.ofUint64 (2 ^ 40) : BaseUint 8).toNat = 2 ^ 40 := by decide +kernel
  have hexp : scheduleExponent (2 ^ 62) 0 3 (2 ^ 60) = -16 * 65536 := by decide +kernel
  rw [hcode, href, hlim, asertTarget_doubling, hexp] at h
  norm_num [doubling, asertPoly] at h

end UnicityPow
