import UnicityPow.BaseUint
import UnicityPow.Digits

/-!
# What the digit loops compute

An array of digits stands for a number below `2 ^ (32 * WIDTH)`. The operators compute on these
numbers, modulo that bound.
-/

namespace UnicityPow

namespace BaseUint

open Digits

variable {WIDTH : Nat}

def toNat (x : BaseUint WIDTH) : Nat := value (2 ^ 32) (fun i => (x.digit i).toNat) WIDTH

/-! ## Digits -/

section
variable {x y : BaseUint WIDTH} {i j : Nat}

theorem digit_lt (x : BaseUint WIDTH) (i : Nat) : (x.digit i).toNat < 2 ^ 32 := (x.digit i).isLt

theorem digit_of_le (x : BaseUint WIDTH) (h : WIDTH ≤ i) : x.digit i = 0 := by
  unfold digit
  rw [Vector.getElem?_eq_none h]
  rfl

theorem digit_set (x : BaseUint WIDTH) (i : Nat) (v : BitVec 32) (j : Nat) :
    (x.set i v).digit j = if i = j ∧ j < WIDTH then v else x.digit j := by
  unfold digit set
  rw [Vector.getElem?_setIfInBounds]
  by_cases hij : i = j
  · subst hij
    by_cases hw : i < WIDTH
    · simp [hw]
    · simp [hw]
  · simp [hij]

theorem digit_set_self (x : BaseUint WIDTH) (hi : i < WIDTH) (v : BitVec 32) : (x.set i v).digit i = v := by
  rw [digit_set, if_pos ⟨rfl, hi⟩]

theorem digit_set_ne (x : BaseUint WIDTH) (h : i ≠ j) (v : BitVec 32) : (x.set i v).digit j = x.digit j := by
  rw [digit_set, if_neg (fun hc => h hc.1)]

@[simp] theorem digit_zero (i : Nat) : (zero : BaseUint WIDTH).digit i = 0 := by
  unfold digit zero
  by_cases h : i < WIDTH <;> simp [h]

theorem digit_complement (x : BaseUint WIDTH) (hi : i < WIDTH) : x.complement.digit i = ~~~ x.digit i := by
  unfold digit complement
  simp [hi]

theorem ext_digit (h : ∀ i < WIDTH, x.digit i = y.digit i) : x = y := by
  obtain ⟨a⟩ := x
  obtain ⟨b⟩ := y
  congr 1
  apply Vector.ext
  intro i hi
  have := h i hi
  unfold digit at this
  simpa [hi] using this

theorem toNat_lt (x : BaseUint WIDTH) : x.toNat < 2 ^ (32 * WIDTH) := by
  rw [pow_mul]
  exact value_lt fun i _ => x.digit_lt i

theorem toNat_inj : x.toNat = y.toNat ↔ x = y := by
  refine ⟨fun h => ext_digit fun i hi => ?_, fun h => by rw [h]⟩
  exact BitVec.eq_of_toNat_eq
    (value_inj (Nat.two_pow_pos 32) (fun i _ => x.digit_lt i) (fun i _ => y.digit_lt i) h i hi)

theorem toNat_digit (x : BaseUint WIDTH) (hi : i < WIDTH) :
    (x.digit i).toNat = x.toNat / 2 ^ (32 * i) % 2 ^ 32 := by
  rw [pow_mul]
  exact (digit_eq (d := fun i => (x.digit i).toNat) (Nat.two_pow_pos 32) (fun i _ => x.digit_lt i) hi).symm

theorem testBit_toNat (x : BaseUint WIDTH) (b : Nat) :
    x.toNat.testBit b = (x.digit (b / 32)).getLsbD (b % 32) := by
  unfold toNat
  rw [testBit_value (by decide) fun i _ => x.digit_lt i]
  by_cases hb : b < 32 * WIDTH
  · simp [hb, BitVec.testBit_toNat]
  · rw [x.digit_of_le (by omega)]
    simp [hb]

@[simp] theorem toNat_zero : (zero : BaseUint WIDTH).toNat = 0 := by
  unfold toNat
  rw [value_of_high_zero (Nat.zero_le _) fun i _ _ => by simp]
  rfl

theorem toNat_ofUint64 (h : 2 ≤ WIDTH) (b : BitVec 64) : (ofUint64 b : BaseUint WIDTH).toNat = b.toNat := by
  unfold toNat ofUint64
  rw [value_of_high_zero h fun i hi _ => by rw [digit_set_ne _ (by omega), digit_set_ne _ (by omega)]; simp]
  rw [value_succ, value_succ, value_zero]
  rw [digit_set_self _ (by omega), digit_set_ne _ (by omega), digit_set_self _ (by omega)]
  have := b.isLt
  rw [BitVec.toNat_setWidth, BitVec.toNat_setWidth, BitVec.toNat_ushiftRight, Nat.shiftRight_eq_div_pow]
  omega

end

/-! ## Sums and products -/

theorem toNat_complement (x : BaseUint WIDTH) : x.toNat + x.complement.toNat + 1 = 2 ^ (32 * WIDTH) := by
  rw [pow_mul]
  refine value_complement fun i hi => ?_
  rw [x.digit_complement hi, BitVec.toNat_not]
  have := x.digit_lt i
  omega

theorem toNat_set (x : BaseUint WIDTH) {i : Nat} (hi : i < WIDTH) (v : BitVec 32) :
    (x.set i v).toNat + (x.digit i).toNat * 2 ^ (32 * i) = x.toNat + v.toNat * 2 ^ (32 * i) := by
  have hrest : ∀ y : BaseUint WIDTH, (∀ j < WIDTH, j ≠ i → y.digit j = x.digit j) →
      y.toNat = value (2 ^ 32) (fun j => if j = i then 0 else (x.digit j).toNat) WIDTH +
        (y.digit i).toNat * (2 ^ 32) ^ i :=
    fun y hy => value_update hi (by simp) fun j hj hne => by simp [hne, hy j hj hne]
  rw [hrest x fun _ _ _ => rfl, hrest (x.set i v) fun j _ hne => digit_set_ne x (fun h => hne h.symm) v,
    digit_set_self x hi, ← pow_mul]
  ring

/-- The digits below `i` have wrapped to zero, and one is still to be added at `i`. -/
theorem toNat_incFrom : ∀ (fuel i : Nat) (x : BaseUint WIDTH), WIDTH ≤ i + fuel → i ≤ WIDTH →
    (incFrom fuel i x).toNat = (x.toNat + 2 ^ (32 * i)) % 2 ^ (32 * WIDTH) := by
  intro fuel
  induction fuel with
  | zero =>
    intro i x hf hi
    obtain rfl : i = WIDTH := by omega
    rw [Nat.add_mod_right, Nat.mod_eq_of_lt x.toNat_lt]
    rfl
  | succ fuel ih =>
    intro i x hf hi
    unfold incFrom
    by_cases hw : i < WIDTH
    · have hset := x.toNat_set hw (x.digit i + 1)
      rw [if_pos hw]
      dsimp only
      rw [digit_set_self x hw]
      have hd := x.digit_lt i
      have hval : (x.digit i + 1).toNat = ((x.digit i).toNat + 1) % 2 ^ 32 := by
        rw [BitVec.toNat_add]
        rfl
      split
      · rename_i hzero
        rw [ih (i + 1) _ (by omega) hw]
        have h0 : (x.digit i + 1).toNat = 0 := by rw [hzero]; rfl
        have hfull : (x.digit i).toNat + 1 = 2 ^ 32 := by omega
        rw [h0, Nat.zero_mul, Nat.add_zero] at hset
        have hpow : 2 ^ (32 * (i + 1)) = ((x.digit i).toNat + 1) * 2 ^ (32 * i) := by
          rw [hfull, ← pow_add, Nat.mul_succ, Nat.add_comm]
        rw [hpow, Nat.add_mul, ← Nat.add_assoc, hset, Nat.one_mul]
      · rename_i hne
        have hlt : (x.digit i).toNat + 1 < 2 ^ 32 := by
          by_contra hge
          refine hne (BitVec.eq_of_toNat_eq ?_)
          rw [hval, show (x.digit i).toNat + 1 = 2 ^ 32 by omega]
          rfl
        rw [hval, Nat.mod_eq_of_lt hlt, Nat.add_mul] at hset
        have heq : (x.set i (x.digit i + 1)).toNat = x.toNat + 2 ^ (32 * i) := by omega
        rw [← heq, Nat.mod_eq_of_lt (toNat_lt _)]
    · obtain rfl : i = WIDTH := by omega
      rw [if_neg hw, Nat.add_mod_right, Nat.mod_eq_of_lt x.toNat_lt]

theorem toNat_inc (x : BaseUint WIDTH) : x.inc.toNat = (x.toNat + 1) % 2 ^ (32 * WIDTH) := by
  unfold inc
  rw [toNat_incFrom WIDTH 0 x (by omega) (Nat.zero_le _)]
  simp

theorem toNat_neg (x : BaseUint WIDTH) : x.neg.toNat = (2 ^ (32 * WIDTH) - x.toNat) % 2 ^ (32 * WIDTH) := by
  have h := x.toNat_complement
  unfold neg
  rw [toNat_inc, show x.complement.toNat + 1 = 2 ^ (32 * WIDTH) - x.toNat by omega]

/-- No round of the loop wraps in 64 bits when each summand leaves room for a carry. -/
theorem carryRounds_value {g : Nat → BitVec 32 → BitVec 64} {x : BaseUint WIDTH}
    (hg : ∀ i < WIDTH, (g i (x.digit i)).toNat + 2 ^ 32 ≤ 2 ^ 64) : ∀ k ≤ WIDTH,
    (carryRounds g x k).2.toNat < 2 ^ 32 ∧ (∀ j, k ≤ j → (carryRounds g x k).1.digit j = x.digit j) ∧
      value (2 ^ 32) (fun i => ((carryRounds g x k).1.digit i).toNat) k +
      (carryRounds g x k).2.toNat * (2 ^ 32) ^ k =
        value (2 ^ 32) (fun i => (g i (x.digit i)).toNat) k := by
  intro k
  induction k with
  | zero => intro _; exact ⟨Nat.two_pow_pos 32, fun _ _ => rfl, by simp [carryRounds]⟩
  | succ k ih =>
    intro hk
    obtain ⟨hc, hrest, hval⟩ := ih (by omega)
    have hround : carryRounds g x (k + 1) =
        ((carryRounds g x k).1.set k (((carryRounds g x k).2 + g k ((carryRounds g x k).1.digit k)).setWidth 32),
          ((carryRounds g x k).2 + g k ((carryRounds g x k).1.digit k)) >>> 32) := by
      unfold carryRounds
      rw [Nat.fold_succ]
    rw [hrest k (Nat.le_refl k)] at hround
    have hroom := hg k (by omega)
    generalize hn : (carryRounds g x k).2 + g k (x.digit k) = n at hround
    have hnat : n.toNat = (carryRounds g x k).2.toNat + (g k (x.digit k)).toNat := by
      rw [← hn, BitVec.toNat_add, Nat.mod_eq_of_lt (by omega)]
    have hlow : (n.setWidth 32).toNat = n.toNat % 2 ^ 32 := BitVec.toNat_setWidth 32 n
    have hhigh : (n >>> 32).toNat = n.toNat / 2 ^ 32 := by
      rw [BitVec.toNat_ushiftRight, Nat.shiftRight_eq_div_pow]
    rw [hround]
    refine ⟨?_, fun j hj => ?_, ?_⟩
    · have := n.isLt
      rw [hhigh]
      omega
    · rw [digit_set_ne _ (by omega)]
      exact hrest j (by omega)
    · rw [value_succ, value_congr (e := fun i => ((carryRounds g x k).1.digit i).toNat) fun i hi => by
        rw [digit_set_ne _ (by omega)]]
      rw [digit_set_self _ (by omega), hlow, hhigh, value_succ, ← hval]
      have hsplit := Nat.mod_add_div n.toNat (2 ^ 32)
      calc value (2 ^ 32) (fun i => ((carryRounds g x k).1.digit i).toNat) k + n.toNat % 2 ^ 32 * (2 ^ 32) ^ k +
            n.toNat / 2 ^ 32 * (2 ^ 32) ^ (k + 1)
          = value (2 ^ 32) (fun i => ((carryRounds g x k).1.digit i).toNat) k +
            (n.toNat % 2 ^ 32 + 2 ^ 32 * (n.toNat / 2 ^ 32)) * (2 ^ 32) ^ k := by ring
        _ = _ := by rw [hsplit, hnat]; ring

theorem toNat_carryRounds {g : Nat → BitVec 32 → BitVec 64} {x : BaseUint WIDTH}
    (hg : ∀ i < WIDTH, (g i (x.digit i)).toNat + 2 ^ 32 ≤ 2 ^ 64) :
    (carryRounds g x WIDTH).1.toNat =
      value (2 ^ 32) (fun i => (g i (x.digit i)).toNat) WIDTH % 2 ^ (32 * WIDTH) := by
  obtain ⟨-, -, hval⟩ := carryRounds_value hg WIDTH (Nat.le_refl _)
  rw [← hval, ← pow_mul, Nat.add_mul_mod_self_right]
  exact (Nat.mod_eq_of_lt (toNat_lt _)).symm

theorem toNat_add (x b : BaseUint WIDTH) : (x.add b).toNat = (x.toNat + b.toNat) % 2 ^ (32 * WIDTH) := by
  have hg : ∀ i, ((x.digit i).setWidth 64 + (b.digit i).setWidth 64).toNat =
      (x.digit i).toNat + (b.digit i).toNat := by
    intro i
    have := x.digit_lt i
    have := b.digit_lt i
    rw [BitVec.toNat_add, BitVec.toNat_setWidth, BitVec.toNat_setWidth]
    omega
  unfold add
  rw [toNat_carryRounds fun i _ => by
    have := x.digit_lt i
    have := b.digit_lt i
    rw [hg]
    omega]
  simp only [hg]
  rw [value_add]
  rfl

theorem toNat_sub (x b : BaseUint WIDTH) (h : b.toNat ≤ x.toNat) : (x.sub b).toNat = x.toNat - b.toNat := by
  have hx := x.toNat_lt
  have hb := b.toNat_lt
  unfold sub
  rw [toNat_add, toNat_neg, Nat.add_mod_mod, show x.toNat + (2 ^ (32 * WIDTH) - b.toNat) =
    x.toNat - b.toNat + 2 ^ (32 * WIDTH) by omega, Nat.add_mod_right, Nat.mod_eq_of_lt (by omega)]

theorem toNat_mulUint32 (x : BaseUint WIDTH) (b32 : BitVec 32) :
    (x.mulUint32 b32).toNat = b32.toNat * x.toNat % 2 ^ (32 * WIDTH) := by
  have hprod : ∀ i, b32.toNat * (x.digit i).toNat ≤ (2 ^ 32 - 1) * (2 ^ 32 - 1) := fun i =>
    Nat.mul_le_mul (by have := b32.isLt; omega) (by have := x.digit_lt i; omega)
  have hg : ∀ i, (b32.setWidth 64 * (x.digit i).setWidth 64).toNat = b32.toNat * (x.digit i).toNat := by
    intro i
    have := x.digit_lt i
    have := b32.isLt
    have hmul := hprod i
    rw [BitVec.toNat_mul, BitVec.toNat_setWidth, BitVec.toNat_setWidth,
      Nat.mod_eq_of_lt (show b32.toNat < 2 ^ 64 by omega),
      Nat.mod_eq_of_lt (show (x.digit i).toNat < 2 ^ 64 by omega), Nat.mod_eq_of_lt (by omega)]
  unfold mulUint32
  rw [toNat_carryRounds fun i _ => by
    have := hprod i
    rw [hg]
    omega]
  simp only [hg]
  rw [value_mul_left]
  rfl

/-! ## Shifts -/

theorem digit_orDigit (x : BaseUint WIDTH) {i : Nat} (hi : i < WIDTH) (v : BitVec 32) (j : Nat) :
    (x.orDigit i v).digit j = if i = j then x.digit j ||| v else x.digit j := by
  unfold orDigit
  rw [digit_set]
  by_cases h : i = j
  · subst h
    simp [hi]
  · simp [h]

/-- A digit is put in when the guard says so. -/
theorem digit_orDigit_if (x : BaseUint WIDTH) {P Q : Prop} [Decidable P] [Decidable Q] {i j : Nat} (hi : P → i < WIDTH)
    (hQ : P ∧ i = j ↔ Q) (v : BitVec 32) :
    (if P then x.orDigit i v else x).digit j = if Q then x.digit j ||| v else x.digit j := by
  by_cases hP : P
  · rw [if_pos hP, digit_orDigit x (hi hP)]
    exact if_congr ((and_iff_right hP).symm.trans hQ) rfl rfl
  · rw [if_neg hP, if_neg fun hq => hP (hQ.mpr hq).1]

/-- After `n` rounds of `<<=`: what digits below `n` of `a` have put at `j`. -/
theorem digit_shiftLeft_rounds (a : BaseUint WIDTH) (k s : Nat) : ∀ (n j : Nat), j < WIDTH →
    (n.fold (fun i _ x =>
      let x := if i + k + 1 < WIDTH ∧ s ≠ 0 then x.orDigit (i + k + 1) (a.digit i >>> (32 - s)) else x
      if i + k < WIDTH then x.orDigit (i + k) (a.digit i <<< s) else x) (zero : BaseUint WIDTH)).digit j =
    (if k ≤ j ∧ j < n + k then a.digit (j - k) <<< s else 0#32) |||
      (if k + 1 ≤ j ∧ j < n + k + 1 ∧ s ≠ 0 then a.digit (j - k - 1) >>> (32 - s) else 0#32) := by
  intro n
  induction n with
  | zero =>
    intro j _
    rw [Nat.fold_zero, digit_zero, if_neg (by omega), if_neg (by omega)]
    rfl
  | succ n ih =>
    intro j hj
    have ih := ih j hj
    rw [Nat.fold_succ]
    generalize (n.fold (fun i _ x =>
      let x := if i + k + 1 < WIDTH ∧ s ≠ 0 then x.orDigit (i + k + 1) (a.digit i >>> (32 - s)) else x
      if i + k < WIDTH then x.orDigit (i + k) (a.digit i <<< s) else x) (zero : BaseUint WIDTH)) = x at ih ⊢
    dsimp only
    -- the round puts the high part one above and the low part at `n + k`
    have hhigh : (if n + k + 1 < WIDTH ∧ s ≠ 0 then
        x.orDigit (n + k + 1) (a.digit n >>> (32 - s)) else x).digit j =
        if n + k + 1 = j ∧ s ≠ 0 then x.digit j ||| a.digit n >>> (32 - s) else x.digit j :=
      digit_orDigit_if x And.left (by omega) _
    have hlow : ∀ y : BaseUint WIDTH, (if n + k < WIDTH then y.orDigit (n + k) (a.digit n <<< s) else y).digit j =
        if n + k = j then y.digit j ||| a.digit n <<< s else y.digit j :=
      fun y => digit_orDigit_if y id (by omega) _
    rw [hlow, hhigh, ih]
    rcases Nat.lt_trichotomy j (n + k) with h | h | h
    · rw [if_neg (show ¬ n + k = j by omega), if_neg (show ¬ (n + k + 1 = j ∧ s ≠ 0) by omega)]
      congr 2 <;> simp only [eq_iff_iff] <;> omega
    · rw [if_pos h.symm, if_neg (show ¬ (n + k + 1 = j ∧ s ≠ 0) by omega),
        if_neg (show ¬ (k ≤ j ∧ j < n + k) by omega),
        if_pos (show k ≤ j ∧ j < n + 1 + k by omega), show j - k = n by omega, BitVec.zero_or, BitVec.or_comm]
      congr 2
      simp only [eq_iff_iff]
      omega
    · rw [if_neg (show ¬ n + k = j by omega), if_neg (show ¬ (k ≤ j ∧ j < n + k) by omega),
        if_neg (show ¬ (k ≤ j ∧ j < n + 1 + k) by omega)]
      by_cases hj1 : n + k + 1 = j ∧ s ≠ 0
      · rw [if_pos hj1, if_neg (by omega), if_pos (by omega), show j - k - 1 = n by omega]
        simp
      · rw [if_neg hj1]
        congr 2
        simp only [eq_iff_iff]
        omega

theorem digit_shiftLeft (a : BaseUint WIDTH) (shift : Nat) {j : Nat} (hj : j < WIDTH) :
    (a.shiftLeft shift).digit j =
      (if shift / 32 ≤ j then a.digit (j - shift / 32) <<< (shift % 32) else 0#32) |||
        (if shift / 32 + 1 ≤ j ∧ shift % 32 ≠ 0 then a.digit (j - shift / 32 - 1) >>> (32 - shift % 32) else 0#32) := by
  unfold shiftLeft
  rw [digit_shiftLeft_rounds a (shift / 32) (shift % 32) WIDTH j hj]
  congr 2 <;> simp only [eq_iff_iff] <;> omega

theorem toNat_shiftLeft (a : BaseUint WIDTH) (shift : Nat) :
    (a.shiftLeft shift).toNat = a.toNat * 2 ^ shift % 2 ^ (32 * WIDTH) := by
  rw [← Nat.shiftLeft_eq]
  apply Nat.eq_of_testBit_eq
  intro b
  rw [testBit_toNat, Nat.testBit_mod_two_pow, Nat.testBit_shiftLeft, testBit_toNat]
  by_cases hb : b < 32 * WIDTH
  · rw [digit_shiftLeft a shift (show b / 32 < WIDTH by omega)]
    have hc := Nat.mod_lt b (show 0 < 32 by decide)
    have hs := Nat.mod_lt shift (show 0 < 32 by decide)
    simp only [hb, decide_true, Bool.true_and, BitVec.getLsbD_or]
    by_cases hle : shift % 32 ≤ b % 32
    · -- the bit comes from the digit `shift / 32` below
      have hhigh : (if shift / 32 + 1 ≤ b / 32 ∧ shift % 32 ≠ 0 then
          a.digit (b / 32 - shift / 32 - 1) >>> (32 - shift % 32)
          else 0#32).getLsbD (b % 32) = false := by
        split
        · rw [BitVec.getLsbD_ushiftRight]
          exact BitVec.getLsbD_of_ge _ _ (by omega)
        · simp
      rw [hhigh, Bool.or_false]
      by_cases hk : shift / 32 ≤ b / 32
      · rw [if_pos hk, BitVec.getLsbD_shiftLeft, show (b - shift) / 32 = b / 32 - shift / 32 by omega,
          show (b - shift) % 32 = b % 32 - shift % 32 by omega]
        simp [hc, Nat.not_lt.mpr hle, show shift ≤ b by omega]
      · rw [if_neg hk]
        simp [show ¬ shift ≤ b by omega]
    · have hlow : (if shift / 32 ≤ b / 32 then a.digit (b / 32 - shift / 32) <<< (shift % 32) else 0#32).getLsbD
          (b % 32) = false := by
        split
        · rw [BitVec.getLsbD_shiftLeft]
          simp [Nat.not_le.mp hle]
        · simp
      rw [hlow, Bool.false_or]
      by_cases hk : shift / 32 + 1 ≤ b / 32
      · rw [if_pos ⟨hk, by omega⟩, BitVec.getLsbD_ushiftRight,
          show (b - shift) / 32 = b / 32 - shift / 32 - 1 by omega,
          show (b - shift) % 32 = 32 - shift % 32 + b % 32 by omega]
        simp [show shift ≤ b by omega]
      · rw [if_neg (by omega)]
        simp [show ¬ shift ≤ b by omega]
  · rw [digit_of_le _ (show WIDTH ≤ b / 32 by omega)]
    simp [hb]

theorem digit_shiftRight_rounds (a : BaseUint WIDTH) (k s j : Nat) : ∀ n ≤ WIDTH,
    (n.fold (fun i _ x =>
      let x := if k + 1 ≤ i ∧ s ≠ 0 then x.orDigit (i - k - 1) (a.digit i <<< (32 - s)) else x
      if k ≤ i then x.orDigit (i - k) (a.digit i >>> s) else x) (zero : BaseUint WIDTH)).digit j =
    (if j + k < n then a.digit (j + k) >>> s else 0#32) |||
      (if j + k + 1 < n ∧ s ≠ 0 then a.digit (j + k + 1) <<< (32 - s) else 0#32) := by
  intro n
  induction n with
  | zero =>
    intro _
    rw [Nat.fold_zero, digit_zero, if_neg (by omega), if_neg (by omega)]
    rfl
  | succ n ih =>
    intro hn
    have ih := ih (by omega)
    rw [Nat.fold_succ]
    generalize (n.fold (fun i _ x =>
      let x := if k + 1 ≤ i ∧ s ≠ 0 then x.orDigit (i - k - 1) (a.digit i <<< (32 - s)) else x
      if k ≤ i then x.orDigit (i - k) (a.digit i >>> s) else x) (zero : BaseUint WIDTH)) = x at ih ⊢
    dsimp only
    -- the round puts the low part one below and the high part at `n - k`
    have hlow : (if k + 1 ≤ n ∧ s ≠ 0 then x.orDigit (n - k - 1) (a.digit n <<< (32 - s)) else x).digit j =
        if j + k + 1 = n ∧ s ≠ 0 then x.digit j ||| a.digit n <<< (32 - s) else x.digit j :=
      digit_orDigit_if x (by omega) (by omega) _
    have hhigh : ∀ y : BaseUint WIDTH, (if k ≤ n then y.orDigit (n - k) (a.digit n >>> s) else y).digit j =
        if j + k = n then y.digit j ||| a.digit n >>> s else y.digit j :=
      fun y => digit_orDigit_if y (by omega) (by omega) _
    rw [hhigh, hlow, ih]
    rcases Nat.lt_trichotomy (j + k) n with h | h | h
    · rw [if_neg (show ¬ j + k = n by omega), if_pos h, if_pos (show j + k < n + 1 by omega)]
      by_cases hj1 : j + k + 1 = n ∧ s ≠ 0
      · rw [if_pos hj1, if_neg (by omega), if_pos (by omega), hj1.1]
        simp
      · rw [if_neg hj1]
        congr 2
        simp only [eq_iff_iff]
        omega
    · rw [if_pos h, if_neg (show ¬ (j + k + 1 = n ∧ s ≠ 0) by omega), if_neg (show ¬ j + k < n by omega),
        if_pos (show j + k < n + 1 by omega), if_neg (by omega), if_neg (by omega), h]
      simp
    · rw [if_neg (show ¬ j + k = n by omega), if_neg (show ¬ (j + k + 1 = n ∧ s ≠ 0) by omega)]
      congr 2 <;> simp only [eq_iff_iff] <;> omega

theorem digit_shiftRight (a : BaseUint WIDTH) (shift j : Nat) :
    (a.shiftRight shift).digit j = a.digit (j + shift / 32) >>> (shift % 32) |||
      (if shift % 32 ≠ 0 then a.digit (j + shift / 32 + 1) <<< (32 - shift % 32) else 0#32) := by
  have habove : ∀ i, ¬ i < WIDTH → a.digit i = 0#32 := fun i hi => a.digit_of_le (by omega)
  unfold shiftRight
  rw [digit_shiftRight_rounds a (shift / 32) (shift % 32) j WIDTH (Nat.le_refl _)]
  congr 1
  · split
    · rfl
    · rename_i h
      rw [habove _ h]
      simp
  · by_cases hs : shift % 32 ≠ 0
    · rw [if_pos hs]
      split
      · rfl
      · rename_i h
        rw [habove _ (fun hj => h ⟨hj, hs⟩)]
        simp
    · rw [if_neg hs, if_neg (fun h => hs h.2)]

theorem toNat_shiftRight (a : BaseUint WIDTH) (shift : Nat) :
    (a.shiftRight shift).toNat = a.toNat / 2 ^ shift := by
  apply Nat.eq_of_testBit_eq
  intro b
  rw [testBit_toNat, Nat.testBit_div_two_pow, testBit_toNat, digit_shiftRight, BitVec.getLsbD_or,
    BitVec.getLsbD_ushiftRight]
  have hc := Nat.mod_lt b (show 0 < 32 by decide)
  have hs := Nat.mod_lt shift (show 0 < 32 by decide)
  by_cases hlt : shift % 32 + b % 32 < 32
  · have hlow : (if shift % 32 ≠ 0 then a.digit (b / 32 + shift / 32 + 1) <<< (32 - shift % 32) else 0#32).getLsbD
        (b % 32) = false := by
      split
      · rw [BitVec.getLsbD_shiftLeft]
        simp [show b % 32 < 32 - shift % 32 by omega]
      · simp
    rw [hlow, Bool.or_false, show (b + shift) / 32 = b / 32 + shift / 32 by omega,
      show (b + shift) % 32 = shift % 32 + b % 32 by omega]
  · rw [BitVec.getLsbD_of_ge _ _ (by omega), Bool.false_or, if_pos (by omega), BitVec.getLsbD_shiftLeft,
      show (b + shift) / 32 = b / 32 + shift / 32 + 1 by omega,
      show (b + shift) % 32 = b % 32 - (32 - shift % 32) by omega]
    simp [hc, show ¬ b % 32 < 32 - shift % 32 by omega]

/-! ## Comparisons and lengths -/

theorem compareBelow_spec (a b : BaseUint WIDTH) : ∀ n, compareBelow a b n =
    if value (2 ^ 32) (fun i => (a.digit i).toNat) n < value (2 ^ 32) (fun i => (b.digit i).toNat) n then -1
    else if value (2 ^ 32) (fun i => (b.digit i).toNat) n < value (2 ^ 32) (fun i => (a.digit i).toNat) n then 1
    else 0 := by
  intro n
  induction n with
  | zero => rfl
  | succ n ih =>
    unfold compareBelow
    rcases Nat.lt_trichotomy (a.digit n).toNat (b.digit n).toNat with h | h | h
    · have hval := value_lt_value (e := fun i => (b.digit i).toNat) (fun i _ => a.digit_lt i) h
      rw [if_pos (BitVec.lt_def.mpr h), if_pos hval]
    · have heq : a.digit n = b.digit n := BitVec.eq_of_toNat_eq h
      rw [heq, if_neg (BitVec.lt_irrefl _), if_neg (BitVec.lt_irrefl _), ih]
      simp only [value_succ, heq, Nat.add_lt_add_iff_right]
    · have hval := value_lt_value (e := fun i => (a.digit i).toNat) (fun i _ => b.digit_lt i) h
      rw [if_neg (by rw [BitVec.lt_def]; omega), if_pos (BitVec.lt_def.mpr h), if_neg (by omega), if_pos hval]

theorem compareTo_nonneg_iff (a b : BaseUint WIDTH) : 0 ≤ a.compareTo b ↔ b.toNat ≤ a.toNat := by
  unfold compareTo
  rw [compareBelow_spec]
  change 0 ≤ (if a.toNat < b.toNat then -1 else if b.toNat < a.toNat then 1 else 0 : Int) ↔ _
  split <;> rename_i h
  · omega
  · split <;> omega

theorem compareTo_pos_iff (a b : BaseUint WIDTH) : 0 < a.compareTo b ↔ b.toNat < a.toNat := by
  unfold compareTo
  rw [compareBelow_spec]
  change 0 < (if a.toNat < b.toNat then -1 else if b.toNat < a.toNat then 1 else 0 : Int) ↔ _
  split <;> rename_i h
  · omega
  · split <;> omega

theorem and_bit (v : BitVec 32) (n : Nat) : v &&& 1#32 <<< n ≠ 0 ↔ v.toNat / 2 ^ n % 2 = 1 := by
  have hbit : v.toNat / 2 ^ n % 2 = 1 ↔ v.getLsbD n = true := by
    rw [← BitVec.testBit_toNat, Nat.testBit_eq_decide_div_mod_eq, decide_eq_true_eq]
  rw [hbit, ← BitVec.twoPow_eq, BitVec.and_twoPow]
  by_cases hn : n < 32
  · have hpow : BitVec.twoPow 32 n ≠ 0#32 := by
      intro h
      have := congrArg BitVec.toNat h
      rw [BitVec.toNat_twoPow_eq_ite, if_pos hn] at this
      exact absurd this (Nat.two_pow_pos n).ne'
    cases v.getLsbD n <;> simp [hpow]
  · rw [BitVec.getLsbD_of_ge v n (by omega)]
    simp

theorem topBit_eq (v : BitVec 32) (hv : v ≠ 0) : ∀ n, v.toNat < 2 ^ (n + 1) → topBit v n = Nat.size v.toNat := by
  intro n
  induction n with
  | zero =>
    intro h
    have hpos : v.toNat ≠ 0 := fun h0 => hv (BitVec.eq_of_toNat_eq h0)
    rw [show v.toNat = 1 by omega]
    rfl
  | succ n ih =>
    intro h
    have hdiv : v.toNat / 2 ^ (n + 1) < 2 := Nat.div_lt_of_lt_mul (by rw [← pow_succ]; exact h)
    unfold topBit
    rw [ite_congr (propext (and_bit v (n + 1))) (fun _ => rfl) (fun _ => rfl)]
    split <;> rename_i hbit
    · have hge : 2 ^ (n + 1) ≤ v.toNat := by
        by_contra hlt
        rw [Nat.div_eq_of_lt (by omega)] at hbit
        omega
      have h1 : Nat.size v.toNat ≤ n + 1 + 1 := Nat.size_le.mpr h
      have h2 : n + 1 < Nat.size v.toNat := Nat.lt_size.mpr hge
      omega
    · have hzero : v.toNat / 2 ^ (n + 1) = 0 := by
        generalize v.toNat / 2 ^ (n + 1) = d at hbit hdiv ⊢
        omega
      exact ih (Nat.lt_of_div_eq_zero (Nat.two_pow_pos _) hzero)

theorem bitsBelow_eq (x : BaseUint WIDTH) : ∀ n, x.bitsBelow n =
    Nat.size (value (2 ^ 32) (fun i => (x.digit i).toNat) n) := by
  intro n
  induction n with
  | zero => rfl
  | succ n ih =>
    unfold bitsBelow
    by_cases h : x.digit n = 0
    · rw [if_neg (not_not.mpr h), ih, value_succ, h]
      simp
    · rw [if_pos h, topBit_eq _ h 31 (x.digit_lt n), size_value (fun i _ => x.digit_lt i)
        (fun h0 => h (BitVec.eq_of_toNat_eq h0))]

theorem bits_eq (x : BaseUint WIDTH) : x.bits = Nat.size x.toNat := x.bitsBelow_eq WIDTH

theorem toNat_getLow64 (x : BaseUint WIDTH) (h : 2 ≤ WIDTH) : x.getLow64.toNat = x.toNat % 2 ^ 64 := by
  have h0 := x.toNat_digit (show 0 < WIDTH by omega)
  have h1 := x.toNat_digit (show 1 < WIDTH by omega)
  have hor : x.getLow64.toNat = (x.digit 0).toNat + (x.digit 1).toNat * 2 ^ 32 := by
    have hl0 := x.digit_lt 0
    have hl1 := x.digit_lt 1
    unfold getLow64
    rw [BitVec.toNat_or, BitVec.toNat_shiftLeft, BitVec.toNat_setWidth, BitVec.toNat_setWidth, Nat.or_comm,
      Nat.mod_eq_of_lt (show (x.digit 0).toNat < 2 ^ 64 by omega),
      Nat.mod_eq_of_lt (show (x.digit 1).toNat < 2 ^ 64 by omega), Nat.shiftLeft_eq,
      Nat.mod_eq_of_lt (by omega), ← Nat.shiftLeft_eq, ← Nat.shiftLeft_add_eq_or_of_lt hl0, Nat.shiftLeft_eq]
    ring
  rw [hor, h0, h1]
  omega

theorem equalTo_iff (x : BaseUint WIDTH) (h : 2 ≤ WIDTH) (b : BitVec 64) :
    x.equalTo b = true ↔ x.toNat = b.toNat := by
  have hb := b.isLt
  have h1 : (x.digit 1).setWidth 64 = b >>> 32 ↔ x.digit 1 = (b >>> 32).setWidth 32 := by
    have := x.digit_lt 1
    rw [← BitVec.toNat_inj, ← BitVec.toNat_inj, BitVec.toNat_setWidth, BitVec.toNat_setWidth,
      BitVec.toNat_ushiftRight, Nat.shiftRight_eq_div_pow]
    omega
  have h0 : (x.digit 0).setWidth 64 = b &&& 0xffffffff#64 ↔ x.digit 0 = b.setWidth 32 := by
    have := x.digit_lt 0
    have hand : (b &&& 0xffffffff#64).toNat = b.toNat % 2 ^ 32 := by
      rw [BitVec.toNat_and]
      exact Nat.and_two_pow_sub_one_eq_mod b.toNat 32
    rw [← BitVec.toNat_inj, ← BitVec.toNat_inj, BitVec.toNat_setWidth, BitVec.toNat_setWidth, hand]
    omega
  rw [← toNat_ofUint64 h b, toNat_inj]
  unfold equalTo
  simp only [Bool.and_eq_true, List.all_eq_true, List.mem_range, Bool.or_eq_true, decide_eq_true_eq,
    beq_iff_eq, h1, h0]
  constructor
  · rintro ⟨⟨hhigh, hd1⟩, hd0⟩
    refine ext_digit fun i hi => ?_
    unfold ofUint64
    by_cases hi1 : i = 1
    · subst hi1
      rw [digit_set_self _ hi, hd1]
    · rw [digit_set_ne _ (fun e => hi1 e.symm)]
      by_cases hi0 : i = 0
      · subst hi0
        rw [digit_set_self _ hi, hd0]
      · rw [digit_set_ne _ (fun e => hi0 e.symm), digit_zero]
        exact (hhigh i hi).resolve_left (by omega)
  · rintro rfl
    unfold ofUint64
    refine ⟨⟨fun i _ => ?_, digit_set_self _ (by omega) _⟩, ?_⟩
    · by_cases hi : i < 2
      · exact .inl hi
      · right
        rw [digit_set_ne _ (by omega), digit_set_ne _ (by omega), digit_zero]
    · rw [digit_set_ne _ (by omega), digit_set_self _ (by omega)]

/-! ## Division -/

theorem toNat_orBit (x : BaseUint WIDTH) {n : Nat} (hn : n < 32 * WIDTH) (h : x.toNat.testBit n = false) :
    (x.orDigit (n / 32) (1#32 <<< (n % 32))).toNat = x.toNat + 2 ^ n := by
  have hi : n / 32 < WIDTH := by omega
  have hc := Nat.mod_lt n (show 0 < 32 by decide)
  rw [testBit_toNat] at h
  have hpow : (1#32 <<< (n % 32)).toNat = 2 ^ (n % 32) := by
    rw [← BitVec.twoPow_eq, BitVec.toNat_twoPow_eq_ite, if_pos hc]
  have hdisj : x.digit (n / 32) &&& 1#32 <<< (n % 32) = 0#32 := by
    rw [← BitVec.twoPow_eq, BitVec.and_twoPow, h]
    rfl
  have hset := x.toNat_set hi (x.digit (n / 32) ||| 1#32 <<< (n % 32))
  rw [← BitVec.add_eq_or_of_and_eq_zero _ _ hdisj, BitVec.toNat_add_of_and_eq_zero hdisj, hpow,
    Nat.add_mul, ← pow_add, Nat.mod_add_div, BitVec.add_eq_or_of_and_eq_zero _ _ hdisj] at hset
  unfold orDigit
  omega

/-- With `n` rounds to go, the quotient has its bits from `n` on and the rest of `num` is still to be divided. -/
theorem divLoop_quotient {b : Nat} (hb : 0 < b) : ∀ (n : Nat) (num div quotient : BaseUint WIDTH), n ≤ 32 * WIDTH →
    (0 < n → div.toNat = b * 2 ^ (n - 1)) → num.toNat < b * 2 ^ n → 2 ^ n ∣ quotient.toNat →
    (divLoop n num div quotient).2.toNat = quotient.toNat + num.toNat / b := by
  intro n
  induction n with
  | zero =>
    intro num div quotient _ _ hnum _
    rw [pow_zero, Nat.mul_one] at hnum
    rw [Nat.div_eq_of_lt hnum]
    rfl
  | succ n ih =>
    intro num div quotient hn hdiv hnum hq
    have hdiv := hdiv (Nat.succ_pos n)
    rw [Nat.add_sub_cancel] at hdiv
    have hhalf : 0 < n → (div.shiftRight 1).toNat = b * 2 ^ (n - 1) := by
      intro hpos
      obtain ⟨k, rfl⟩ : ∃ k, n = k + 1 := ⟨n - 1, by omega⟩
      rw [toNat_shiftRight, hdiv, pow_succ, ← Nat.mul_assoc, pow_one, Nat.mul_div_cancel _ (by decide),
        Nat.add_sub_cancel]
    have hq' : 2 ^ n ∣ quotient.toNat := (Nat.pow_dvd_pow 2 (Nat.le_succ n)).trans hq
    unfold divLoop
    by_cases hge : div.toNat ≤ num.toNat
    · rw [if_pos ((compareTo_nonneg_iff num div).mpr hge)]
      have hbit : quotient.toNat.testBit n = false := by
        obtain ⟨k, hk⟩ := hq
        rw [hk, pow_succ, Nat.mul_assoc, Nat.testBit_two_pow_mul]
        simp
      have hor := quotient.toNat_orBit (by omega) hbit
      rw [ih (num.sub div) (div.shiftRight 1) _ (by omega) hhalf, hor, toNat_sub _ _ hge, hdiv]
      · rw [hdiv] at hge
        have hcancel : num.toNat = (num.toNat - b * 2 ^ n) + 2 ^ n * b := by rw [Nat.mul_comm (2 ^ n)]; omega
        conv_rhs => rw [hcancel]
        rw [Nat.add_mul_div_right _ _ hb]
        omega
      · rw [toNat_sub _ _ hge, hdiv]
        rw [pow_succ, ← Nat.mul_assoc] at hnum
        omega
      · rw [hor]
        exact Nat.dvd_add hq' (Nat.dvd_refl _)
    · rw [if_neg (fun h => hge ((compareTo_nonneg_iff num div).mp h))]
      exact ih num (div.shiftRight 1) quotient (by omega) hhalf (by rw [← hdiv]; omega) hq'

theorem div_eq (x b : BaseUint WIDTH) : (b.toNat = 0 ∧ x.div b = none) ∨
    b.toNat ≠ 0 ∧ ∃ q, x.div b = some q ∧ q.toNat = x.toNat / b.toNat := by
  unfold div
  simp only [bits_eq]
  by_cases hb : b.toNat = 0
  · left
    simp [hb]
  · right
    have hpos : 0 < Nat.size b.toNat := Nat.size_pos.mpr (Nat.pos_of_ne_zero hb)
    have hblt := Nat.lt_size_self b.toNat
    have hxlt := Nat.lt_size_self x.toNat
    have hxsize : Nat.size x.toNat ≤ 32 * WIDTH := Nat.size_le.mpr x.toNat_lt
    refine ⟨hb, ?_⟩
    rw [if_neg (by omega)]
    split
    · rename_i hlt
      refine ⟨zero, rfl, ?_⟩
      rw [toNat_zero, Nat.div_eq_of_lt]
      exact lt_of_lt_of_le hxlt (le_trans (Nat.pow_le_pow_right (by decide) (by omega))
        (Nat.lt_size.mp (show Nat.size b.toNat - 1 < Nat.size b.toNat by omega)))
    · rename_i hle
      refine ⟨_, rfl, ?_⟩
      have hlow : 2 ^ (Nat.size b.toNat - 1) ≤ b.toNat := Nat.lt_size.mp (by omega)
      have hshift : (b.shiftLeft (Nat.size x.toNat - Nat.size b.toNat)).toNat =
          b.toNat * 2 ^ (Nat.size x.toNat - Nat.size b.toNat) := by
        rw [toNat_shiftLeft, Nat.mod_eq_of_lt]
        calc b.toNat * 2 ^ (Nat.size x.toNat - Nat.size b.toNat)
            < 2 ^ Nat.size b.toNat * 2 ^ (Nat.size x.toNat - Nat.size b.toNat) :=
              Nat.mul_lt_mul_of_pos_right hblt (Nat.two_pow_pos _)
          _ = 2 ^ Nat.size x.toNat := by rw [← pow_add]; congr 1; omega
          _ ≤ 2 ^ (32 * WIDTH) := Nat.pow_le_pow_right (by decide) hxsize
      rw [divLoop_quotient (Nat.pos_of_ne_zero hb) (Nat.size x.toNat - Nat.size b.toNat + 1) x _ zero (by omega)
        (fun _ => by rw [hshift, Nat.add_sub_cancel]) ?_ (by rw [toNat_zero]; exact Nat.dvd_zero _), toNat_zero,
        Nat.zero_add]
      calc x.toNat < 2 ^ Nat.size x.toNat := hxlt
        _ = 2 ^ (Nat.size b.toNat - 1) * 2 ^ (Nat.size x.toNat - Nat.size b.toNat + 1) := by
          rw [← pow_add]; congr 1; omega
        _ ≤ _ := Nat.mul_le_mul_right _ hlow

end BaseUint

end UnicityPow
