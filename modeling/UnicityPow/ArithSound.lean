import UnicityPow.BaseUintSound

/-!
# The arithmetic of wide integers

`base_uint<BITS>` refines the naturals modulo `2 ^ BITS`: what each operator leaves in the digits
stands for what the operation gives on the numbers.
-/

namespace UnicityPow

namespace BaseUint

open Digits

variable {WIDTH : Nat}

/-! ## Differences -/

theorem toNat_sub_mod (x b : BaseUint WIDTH) :
    (x.sub b).toNat = (x.toNat + (2 ^ (32 * WIDTH) - b.toNat)) % 2 ^ (32 * WIDTH) := by
  unfold sub
  rw [toNat_add, toNat_neg, Nat.add_mod_mod]

/-- The digits below `i` have wrapped to their maximum, and one is still to be taken at `i`. -/
theorem toNat_decFrom : ∀ (fuel i : Nat) (x : BaseUint WIDTH), WIDTH ≤ i + fuel → i ≤ WIDTH →
    (decFrom fuel i x).toNat = (x.toNat + (2 ^ (32 * WIDTH) - 2 ^ (32 * i))) % 2 ^ (32 * WIDTH) := by
  intro fuel
  induction fuel with
  | zero =>
    intro i x hf hi
    obtain rfl : i = WIDTH := by omega
    rw [Nat.sub_self, Nat.add_zero, Nat.mod_eq_of_lt x.toNat_lt]
    rfl
  | succ fuel ih =>
    intro i x hf hi
    unfold decFrom
    by_cases hw : i < WIDTH
    · have hset := x.toNat_set hw (x.digit i - 1)
      have hle : 2 ^ (32 * (i + 1)) ≤ 2 ^ (32 * WIDTH) := Nat.pow_le_pow_right (by decide) (by omega)
      have hpow : 2 ^ (32 * (i + 1)) = 2 ^ 32 * 2 ^ (32 * i) := by rw [← pow_add]; congr 1; omega
      have hd := x.digit_lt i
      rw [if_pos hw]
      dsimp only
      rw [digit_set_self x hw]
      by_cases hzero : x.digit i = 0
      · have hmax : x.digit i - 1 = 0xffffffff#32 := by rw [hzero]; rfl
        have hval : (x.digit i - 1).toNat * 2 ^ (32 * i) = 2 ^ (32 * (i + 1)) - 2 ^ (32 * i) := by
          rw [hmax, hpow, show (0xffffffff#32).toNat = 2 ^ 32 - 1 from rfl, Nat.sub_mul, Nat.one_mul]
        rw [if_pos hmax, ih (i + 1) _ (by omega) hw]
        have h0 : (x.digit i).toNat * 2 ^ (32 * i) = 0 := by rw [hzero]; exact Nat.zero_mul _
        have hlt : 2 ^ (32 * i) ≤ 2 ^ (32 * (i + 1)) := Nat.pow_le_pow_right (by decide) (by omega)
        rw [h0, hval, Nat.add_zero] at hset
        have heq : (x.set i (x.digit i - 1)).toNat + (2 ^ (32 * WIDTH) - 2 ^ (32 * (i + 1))) =
            x.toNat + (2 ^ (32 * WIDTH) - 2 ^ (32 * i)) := by
          rw [hset]
          omega
        rw [heq]
      · have hpos : 0 < (x.digit i).toNat := Nat.pos_of_ne_zero fun h => hzero (BitVec.eq_of_toNat_eq h)
        have hval : (x.digit i - 1).toNat = (x.digit i).toNat - 1 := by
          rw [BitVec.toNat_sub_of_le (by rw [BitVec.le_def]; exact hpos)]
          rfl
        have hne : x.digit i - 1 ≠ 0xffffffff#32 := by
          intro h
          have := congrArg BitVec.toNat h
          rw [hval] at this
          simp at this
          omega
        rw [if_neg hne]
        rw [hval, Nat.sub_mul, Nat.one_mul] at hset
        have hge : 2 ^ (32 * i) ≤ (x.digit i).toNat * 2 ^ (32 * i) := Nat.le_mul_of_pos_left _ hpos
        have heq : x.toNat + (2 ^ (32 * WIDTH) - 2 ^ (32 * i)) =
            (x.set i (x.digit i - 1)).toNat + 2 ^ (32 * WIDTH) := by omega
        rw [heq, Nat.add_mod_right, Nat.mod_eq_of_lt (toNat_lt _)]
    · obtain rfl : i = WIDTH := by omega
      rw [if_neg hw, Nat.sub_self, Nat.add_zero, Nat.mod_eq_of_lt x.toNat_lt]

theorem toNat_dec (x : BaseUint WIDTH) : x.dec.toNat = (x.toNat + (2 ^ (32 * WIDTH) - 1)) % 2 ^ (32 * WIDTH) := by
  unfold dec
  rw [toNat_decFrom WIDTH 0 x (by omega) (Nat.zero_le _)]
  simp

/-! ## Products -/

/-- No round of a row wraps in 64 bits: a carry, a digit and a product of digits leave just that room. -/
theorem toNat_mulStep (x b a : BaseUint WIDTH) (i j : Nat) (carry : BitVec 64) (hc : carry.toNat < 2 ^ 32) :
    (carry + (a.digit (i + j)).setWidth 64 + (x.digit j).setWidth 64 * (b.digit i).setWidth 64).toNat =
      carry.toNat + (a.digit (i + j)).toNat + (x.digit j).toNat * (b.digit i).toNat := by
  have ha := a.digit_lt (i + j)
  have hx := x.digit_lt j
  have hb := b.digit_lt i
  have hprod : (x.digit j).toNat * (b.digit i).toNat ≤ (2 ^ 32 - 1) * (2 ^ 32 - 1) :=
    Nat.mul_le_mul (by omega) (by omega)
  rw [BitVec.toNat_add, BitVec.toNat_add, BitVec.toNat_mul, BitVec.toNat_setWidth, BitVec.toNat_setWidth,
    BitVec.toNat_setWidth, Nat.mod_eq_of_lt (show (a.digit (i + j)).toNat < 2 ^ 64 by omega),
    Nat.mod_eq_of_lt (show (x.digit j).toNat < 2 ^ 64 by omega),
    Nat.mod_eq_of_lt (show (b.digit i).toNat < 2 ^ 64 by omega)]
  omega

theorem mulRow_value (x b a : BaseUint WIDTH) (j : Nat) : ∀ k, k + j ≤ WIDTH →
    (mulRow x b j a k).2.toNat < 2 ^ 32 ∧ (∀ i, k + j ≤ i → (mulRow x b j a k).1.digit i = a.digit i) ∧
      (mulRow x b j a k).1.toNat + (mulRow x b j a k).2.toNat * 2 ^ (32 * (k + j)) =
        a.toNat + (x.digit j).toNat * value (2 ^ 32) (fun i => (b.digit i).toNat) k * 2 ^ (32 * j) := by
  intro k
  induction k with
  | zero => intro _; exact ⟨Nat.two_pow_pos 32, fun _ _ => rfl, by simp [mulRow]⟩
  | succ k ih =>
    intro hk
    obtain ⟨hc, hrest, hval⟩ := ih (by omega)
    have hstep := toNat_mulStep x b (mulRow x b j a k).1 k j _ hc
    generalize hn : (mulRow x b j a k).2 + ((mulRow x b j a k).1.digit (k + j)).setWidth 64 +
      (x.digit j).setWidth 64 * (b.digit k).setWidth 64 = n at hstep
    have hround : mulRow x b j a (k + 1) = ((mulRow x b j a k).1.set (k + j) (n.setWidth 32), n >>> 32) := by
      rw [← hn]
      unfold mulRow
      rw [Nat.fold_succ]
    have hlow : (n.setWidth 32).toNat = n.toNat % 2 ^ 32 := BitVec.toNat_setWidth 32 n
    have hhigh : (n >>> 32).toNat = n.toNat / 2 ^ 32 := by
      rw [BitVec.toNat_ushiftRight, Nat.shiftRight_eq_div_pow]
    have hset := (mulRow x b j a k).1.toNat_set (show k + j < WIDTH by omega) (n.setWidth 32)
    have hsplit := Nat.mod_add_div n.toNat (2 ^ 32)
    rw [hround]
    dsimp only
    refine ⟨?_, fun i hi => ?_, ?_⟩
    · have := n.isLt
      rw [hhigh]
      omega
    · rw [digit_set_ne _ (by omega)]
      exact hrest i (by omega)
    · rw [hlow] at hset
      rw [hhigh, value_succ]
      have hpow : 2 ^ (32 * (k + 1 + j)) = 2 ^ 32 * 2 ^ (32 * (k + j)) := by rw [← pow_add]; congr 1; omega
      have hpow' : (2 ^ 32) ^ k * 2 ^ (32 * j) = 2 ^ (32 * (k + j)) := by rw [← pow_mul, ← pow_add]; congr 1; omega
      apply Nat.add_right_cancel (m := ((mulRow x b j a k).1.digit (k + j)).toNat * 2 ^ (32 * (k + j)))
      calc ((mulRow x b j a k).1.set (k + j) (n.setWidth 32)).toNat + n.toNat / 2 ^ 32 * 2 ^ (32 * (k + 1 + j)) +
            ((mulRow x b j a k).1.digit (k + j)).toNat * 2 ^ (32 * (k + j))
          = (mulRow x b j a k).1.toNat + (n.toNat % 2 ^ 32 + 2 ^ 32 * (n.toNat / 2 ^ 32)) * 2 ^ (32 * (k + j)) := by
            rw [hpow]; linarith
        _ = ((mulRow x b j a k).1.toNat + (mulRow x b j a k).2.toNat * 2 ^ (32 * (k + j))) +
            ((mulRow x b j a k).1.digit (k + j)).toNat * 2 ^ (32 * (k + j)) +
            (x.digit j).toNat * (b.digit k).toNat * 2 ^ (32 * (k + j)) := by rw [hsplit, hstep]; ring
        _ = _ := by rw [hval, ← hpow']; ring

/-- Modulo the width, a row adds the whole of `b` times its digit: what the row leaves out lies above. -/
theorem mulRow_modEq (x b a : BaseUint WIDTH) {j : Nat} (hj : j ≤ WIDTH) :
    (mulRow x b j a (WIDTH - j)).1.toNat ≡
      a.toNat + (x.digit j).toNat * (2 ^ 32) ^ j * b.toNat [MOD 2 ^ (32 * WIDTH)] := by
  obtain ⟨-, -, hval⟩ := mulRow_value x b a j (WIDTH - j) (by omega)
  have hw : WIDTH - j + j = WIDTH := by omega
  have hpow : (2 ^ 32) ^ (WIDTH - j) * 2 ^ (32 * j) = 2 ^ (32 * WIDTH) := by
    rw [← pow_mul, ← pow_add]
    congr 1
    omega
  have hb : b.toNat = value (2 ^ 32) (fun i => (b.digit i).toNat) (WIDTH - j) +
      (2 ^ 32) ^ (WIDTH - j) * value (2 ^ 32) (fun i => (b.digit (i + (WIDTH - j))).toNat) j := by
    have := value_append (2 ^ 32) (fun i => (b.digit i).toNat) (WIDTH - j) j
    rwa [hw] at this
  have hleft : (mulRow x b j a (WIDTH - j)).1.toNat ≡ a.toNat + (x.digit j).toNat *
      value (2 ^ 32) (fun i => (b.digit i).toNat) (WIDTH - j) * 2 ^ (32 * j) [MOD 2 ^ (32 * WIDTH)] := by
    rw [← hval, hw]
    exact (Nat.add_mul_mod_self_right _ _ _).symm
  refine hleft.trans ?_
  -- the high digits of `b`, moved up by `j`, fall out of the width
  have hright : a.toNat + (x.digit j).toNat * (2 ^ 32) ^ j * b.toNat =
      a.toNat + (x.digit j).toNat * value (2 ^ 32) (fun i => (b.digit i).toNat) (WIDTH - j) * 2 ^ (32 * j) +
        (x.digit j).toNat * value (2 ^ 32) (fun i => (b.digit (i + (WIDTH - j))).toNat) j * 2 ^ (32 * WIDTH) := by
    rw [hb, ← hpow, pow_mul 2 32 j]
    ring
  rw [hright]
  exact (Nat.add_mul_mod_self_right _ _ _).symm

theorem mulRows_modEq (x b : BaseUint WIDTH) : ∀ k ≤ WIDTH, (mulRows x b k).toNat ≡
    value (2 ^ 32) (fun i => (x.digit i).toNat) k * b.toNat [MOD 2 ^ (32 * WIDTH)] := by
  intro k
  induction k with
  | zero => intro _; simpa [mulRows] using Nat.ModEq.refl 0
  | succ k ih =>
    intro hk
    have hround : mulRows x b (k + 1) = (mulRow x b k (mulRows x b k) (WIDTH - k)).1 := by
      unfold mulRows
      rw [Nat.fold_succ]
    rw [hround, value_succ, Nat.add_mul]
    exact (mulRow_modEq x b _ (by omega)).trans ((ih (by omega)).add_right _)

theorem toNat_mul (x b : BaseUint WIDTH) : (x.mul b).toNat = x.toNat * b.toNat % 2 ^ (32 * WIDTH) := by
  have h := mulRows_modEq x b WIDTH (Nat.le_refl _)
  rw [← Nat.mod_eq_of_lt (x.mul b).toNat_lt]
  exact h

/-! ## Comparisons -/

theorem compareTo_eq (a b : BaseUint WIDTH) : a.compareTo b = ((a.toNat : Int) - b.toNat).sign := by
  unfold compareTo
  rw [compareBelow_spec]
  change (if a.toNat < b.toNat then -1 else if b.toNat < a.toNat then 1 else 0 : Int) = _
  rcases Nat.lt_trichotomy a.toNat b.toNat with h | h | h
  · rw [if_pos h, Int.sign_eq_neg_one_of_neg (by omega)]
  · rw [h, if_neg (Nat.lt_irrefl _), if_neg (Nat.lt_irrefl _), Int.sub_self]
    rfl
  · rw [if_neg (by omega), if_pos h, Int.sign_eq_one_of_pos (by omega)]

/-! ## The refinement -/

/-- Each operator of `base_uint<BITS>`, on `WIDTH` digits, computes its operation modulo `2 ^ BITS`. -/
structure RefinesNat (BITS WIDTH : Nat) : Prop where
  toNat_lt : ∀ x : BaseUint WIDTH, x.toNat < 2 ^ BITS
  toNat_inj : ∀ x y : BaseUint WIDTH, x.toNat = y.toNat ↔ x = y
  ofUint64 : ∀ b : BitVec 64, (ofUint64 b : BaseUint WIDTH).toNat = b.toNat
  add : ∀ x b : BaseUint WIDTH, (x.add b).toNat = (x.toNat + b.toNat) % 2 ^ BITS
  addUint64 : ∀ (x : BaseUint WIDTH) (b : BitVec 64), (x.addUint64 b).toNat = (x.toNat + b.toNat) % 2 ^ BITS
  sub : ∀ x b : BaseUint WIDTH, (x.sub b).toNat = (x.toNat + (2 ^ BITS - b.toNat)) % 2 ^ BITS
  subUint64 : ∀ (x : BaseUint WIDTH) (b : BitVec 64),
    (x.subUint64 b).toNat = (x.toNat + (2 ^ BITS - b.toNat)) % 2 ^ BITS
  mulUint32 : ∀ (x : BaseUint WIDTH) (b : BitVec 32), (x.mulUint32 b).toNat = x.toNat * b.toNat % 2 ^ BITS
  mul : ∀ x b : BaseUint WIDTH, (x.mul b).toNat = x.toNat * b.toNat % 2 ^ BITS
  shiftLeft : ∀ (x : BaseUint WIDTH) (shift : Nat), (x.shiftLeft shift).toNat = x.toNat * 2 ^ shift % 2 ^ BITS
  shiftRight : ∀ (x : BaseUint WIDTH) (shift : Nat), (x.shiftRight shift).toNat = x.toNat / 2 ^ shift
  shiftedOut : ∀ (x : BaseUint WIDTH) (shift : Nat), BITS ≤ shift → x.shiftLeft shift = zero ∧ x.shiftRight shift = zero
  neg : ∀ x : BaseUint WIDTH, x.neg.toNat = (2 ^ BITS - x.toNat) % 2 ^ BITS
  complement : ∀ x : BaseUint WIDTH, x.complement.toNat = 2 ^ BITS - 1 - x.toNat
  inc : ∀ x : BaseUint WIDTH, x.inc.toNat = (x.toNat + 1) % 2 ^ BITS
  dec : ∀ x : BaseUint WIDTH, x.dec.toNat = (x.toNat + (2 ^ BITS - 1)) % 2 ^ BITS
  compareTo : ∀ a b : BaseUint WIDTH, a.compareTo b = ((a.toNat : Int) - b.toNat).sign
  equalTo : ∀ (a : BaseUint WIDTH) (b : BitVec 64), a.equalTo b = true ↔ a.toNat = b.toNat
  bits : ∀ x : BaseUint WIDTH, x.bits = Nat.size x.toNat
  div_throws : ∀ x b : BaseUint WIDTH, x.div b = none ↔ b.toNat = 0
  div : ∀ x b q : BaseUint WIDTH, x.div b = some q → q.toNat = x.toNat / b.toNat

theorem refinesNat (WIDTH : Nat) (h : 2 ≤ WIDTH) : RefinesNat (32 * WIDTH) WIDTH where
  toNat_lt := toNat_lt
  toNat_inj _ _ := toNat_inj
  ofUint64 := toNat_ofUint64 h
  add := toNat_add
  addUint64 x b := by rw [BaseUint.addUint64, toNat_add, toNat_ofUint64 h]
  sub := toNat_sub_mod
  subUint64 x b := by
    have := toNat_sub_mod x (BaseUint.ofUint64 b)
    rwa [toNat_ofUint64 h] at this
  mulUint32 x b := by rw [toNat_mulUint32, Nat.mul_comm]
  mul := toNat_mul
  shiftLeft := toNat_shiftLeft
  shiftRight := toNat_shiftRight
  shiftedOut x shift hs := by
    constructor
    · apply BaseUint.toNat_inj.mp
      rw [toNat_shiftLeft, toNat_zero]
      exact Nat.mod_eq_zero_of_dvd ((Nat.pow_dvd_pow 2 hs).mul_left _)
    · apply BaseUint.toNat_inj.mp
      rw [toNat_shiftRight, toNat_zero]
      exact Nat.div_eq_of_lt (lt_of_lt_of_le x.toNat_lt (Nat.pow_le_pow_right (by decide) hs))
  neg := toNat_neg
  complement x := by
    have := x.toNat_complement
    omega
  inc := toNat_inc
  dec := toNat_dec
  compareTo := compareTo_eq
  equalTo x b := equalTo_iff x h b
  bits := bits_eq
  div_throws x b := by
    rcases div_eq x b with ⟨hb, hnone⟩ | ⟨hb, q, hq, -⟩
    · simp [hb, hnone]
    · simp [hb, hq]
  div x b q hq := by
    rcases div_eq x b with ⟨-, hnone⟩ | ⟨-, q', hq', hval⟩
    · rw [hnone] at hq
      cases hq
    · rw [hq'] at hq
      cases hq
      exact hval

theorem arithmetic_refines : RefinesNat 256 8 ∧ RefinesNat 512 16 :=
  ⟨refinesNat 8 (by decide), refinesNat 16 (by decide)⟩

end BaseUint

end UnicityPow
