import UnicityPow.BaseUintSound
import UnicityPow.Compact
import UnicityPow.Truncation

/-!
# The compact codec rounds down

A compact target has a mantissa of 23 bits and a size in bytes. `GetCompact` takes the least size
that leaves the sign bit free, so decoding what it encodes drops the low bytes only.
-/

namespace UnicityPow

namespace BaseUint

open Truncation

/-! ## Decoding -/

def compactSize (nCompact : BitVec 32) : Nat := nCompact.toNat / 2 ^ 24

/-- The value `SetCompact` means, before it is cut to 256 bits. -/
def compactValue (nCompact : BitVec 32) : Nat :=
  nCompact.toNat % 2 ^ 23 / 256 ^ (3 - compactSize nCompact) * 256 ^ (compactSize nCompact - 3)

theorem pow_256 (n : Nat) : 256 ^ n = 2 ^ (8 * n) := by rw [pow_mul]; rfl

section
variable (c : BitVec 32)

theorem toNat_size : (c >>> 24).toNat = compactSize c := by
  rw [BitVec.toNat_ushiftRight, Nat.shiftRight_eq_div_pow]
  rfl

theorem toNat_word : (c &&& 0x007fffff#32).toNat = c.toNat % 2 ^ 23 := by
  rw [BitVec.toNat_and]
  exact Nat.and_two_pow_sub_one_eq_mod _ 23

theorem mantissa_lt : c.toNat % 2 ^ 23 < 2 ^ 23 := Nat.mod_lt _ (by decide)

/-- The word of `SetCompact` after its first shift. -/
def shiftedWord : BitVec 32 :=
  if compactSize c ≤ 3 then (c &&& 0x007fffff#32) >>> (8 * (3 - compactSize c)) else c &&& 0x007fffff#32

theorem toNat_shiftedWord : (shiftedWord c).toNat = c.toNat % 2 ^ 23 / 256 ^ (3 - compactSize c) := by
  unfold shiftedWord
  split
  · rw [BitVec.toNat_ushiftRight, toNat_word, Nat.shiftRight_eq_div_pow, pow_256]
  · rename_i h
    rw [toNat_word, show 3 - compactSize c = 0 by omega, pow_zero, Nat.div_one]

theorem setCompact_value : (setCompact c).value.toNat = compactValue c % 2 ^ 256 := by
  have hlow : (ofUint64 ((shiftedWord c).setWidth 64) : BaseUint 8).toNat = (shiftedWord c).toNat := by
    rw [toNat_ofUint64 (by decide), BitVec.toNat_setWidth]
    exact Nat.mod_eq_of_lt (lt_trans (shiftedWord c).isLt (by decide))
  have hvalue : (setCompact c).value = if compactSize c ≤ 3 then ofUint64 ((shiftedWord c).setWidth 64)
      else (ofUint64 ((shiftedWord c).setWidth 64)).shiftLeft (8 * (compactSize c - 3)) := by
    unfold setCompact shiftedWord
    simp only [toNat_size]
  rw [hvalue, compactValue]
  split
  · rename_i h
    rw [hlow, toNat_shiftedWord, show compactSize c - 3 = 0 by omega, pow_zero, Nat.mul_one]
    refine (Nat.mod_eq_of_lt (lt_of_le_of_lt (Nat.div_le_self _ _) ?_)).symm
    exact lt_trans (mantissa_lt c) (by decide)
  · rw [toNat_shiftLeft, hlow, toNat_shiftedWord, pow_256 (compactSize c - 3)]

theorem setCompact_negative : (setCompact c).negative = (shiftedWord c ≠ 0 && c &&& 0x00800000#32 ≠ 0) := by
  unfold setCompact shiftedWord
  simp only [toNat_size]

theorem setCompact_overflow : (setCompact c).overflow = true ↔ 2 ^ 256 ≤ compactValue c := by
  have hflag : (setCompact c).overflow = true ↔ (shiftedWord c).toNat ≠ 0 ∧
      (34 < compactSize c ∨ 0xff < (shiftedWord c).toNat ∧ 33 < compactSize c ∨
        0xffff < (shiftedWord c).toNat ∧ 32 < compactSize c) := by
    unfold setCompact shiftedWord
    simp only [toNat_size, gt_iff_lt, BitVec.lt_def, ← BitVec.toNat_inj, Bool.and_eq_true, Bool.or_eq_true,
      decide_eq_true_eq, ne_eq, or_assoc]
    rfl
  rw [hflag, toNat_shiftedWord, compactValue]
  have hm := mantissa_lt c
  have hd := Nat.div_le_self (c.toNat % 2 ^ 23) (256 ^ (3 - compactSize c))
  generalize c.toNat % 2 ^ 23 / 256 ^ (3 - compactSize c) = m at *
  rcases Nat.lt_or_ge (compactSize c) 33 with hs | hs
  · have hlt : m * 256 ^ (compactSize c - 3) < 2 ^ 23 * 256 ^ 29 :=
      Nat.mul_lt_mul_of_lt_of_le (by omega) (Nat.pow_le_pow_right (by decide) (by omega)) (by decide)
    have hbound : 2 ^ 23 * 256 ^ 29 < 2 ^ 256 := by decide +kernel
    omega
  · obtain h | h | h : compactSize c = 33 ∨ compactSize c = 34 ∨ 35 ≤ compactSize c := by omega
    · rw [h]
      norm_num
      omega
    · rw [h]
      norm_num
      omega
    · -- one byte more than fits, whatever the mantissa
      have hpow : 2 ^ 256 ≤ 256 ^ (compactSize c - 3) := by
        rw [pow_256]
        exact Nat.pow_le_pow_right (by decide) (by omega)
      constructor
      · rintro ⟨hpos, -⟩
        exact hpow.trans (Nat.le_mul_of_pos_left _ (Nat.pos_of_ne_zero hpos))
      · intro hle
        refine ⟨?_, .inl (by omega)⟩
        rintro rfl
        omega

theorem setCompact_toNat : (setCompact c).value.toNat = (UnicityPow.setCompact c).value.toNat := by
  have hword : (shiftedWord c).toNat < 2 ^ 256 := lt_trans (shiftedWord c).isLt (by decide)
  have hvalue : (UnicityPow.setCompact c).value = if compactSize c ≤ 3 then (shiftedWord c).setWidth 256
      else (shiftedWord c).setWidth 256 <<< (8 * (compactSize c - 3)) := by
    unfold UnicityPow.setCompact shiftedWord
    simp only [toNat_size]
  rw [setCompact_value, hvalue, compactValue, ← toNat_shiftedWord]
  split
  · rename_i h
    rw [BitVec.toNat_setWidth, show compactSize c - 3 = 0 by omega, pow_zero, Nat.mul_one]
  · rw [BitVec.toNat_shiftLeft, BitVec.toNat_setWidth, Nat.mod_eq_of_lt hword, Nat.shiftLeft_eq, pow_256]

end

/-! ## Encoding -/

/-- `s` bytes are the fewest that hold `v` and a free sign bit. -/
structure SignedSize (v s : Nat) : Prop where
  fits : 2 * v < 256 ^ s
  least : 0 < s → 256 ^ (s - 1) ≤ 2 * v

/-- The bytes `GetCompact` packs: the top three of `s`. -/
def mantissa (v s : Nat) : Nat := v / 256 ^ (s - 3) * 256 ^ (3 - s)

theorem SignedSize.unique {v s t : Nat} (hs : SignedSize v s) (ht : SignedSize v t) : s = t := by
  by_contra hne
  rcases Nat.lt_or_gt_of_ne hne with hlt | hlt
  · have hle : 256 ^ s ≤ 256 ^ (t - 1) := Nat.pow_le_pow_right (by decide) (by omega)
    exact absurd (lt_of_lt_of_le hs.fits (hle.trans (ht.least (by omega)))) (Nat.lt_irrefl _)
  · have hle : 256 ^ t ≤ 256 ^ (s - 1) := Nat.pow_le_pow_right (by decide) (by omega)
    exact absurd (lt_of_lt_of_le ht.fits (hle.trans (hs.least (by omega)))) (Nat.lt_irrefl _)

theorem mantissa_lt_iff (v s : Nat) {k : Nat} (hk : k ≤ 24) :
    mantissa v s < 2 ^ (24 - k) ↔ 2 ^ k * v < 256 ^ s := by
  have hsplit : 2 ^ k * 2 ^ (24 - k) = 256 ^ 3 := by
    rw [← pow_add, Nat.add_sub_cancel' hk]
    rfl
  unfold mantissa
  rcases Nat.le_total s 3 with hs | hs
  · have hpow : 2 ^ k * 2 ^ (24 - k) = 256 ^ s * 256 ^ (3 - s) := by
      rw [hsplit, ← pow_add, Nat.add_sub_cancel' hs]
    rw [show s - 3 = 0 by omega, pow_zero, Nat.div_one, ← Nat.mul_lt_mul_left (Nat.two_pow_pos k), hpow,
      ← Nat.mul_assoc]
    exact Nat.mul_lt_mul_right (Nat.pow_pos (by decide))
  · obtain ⟨e, rfl⟩ : ∃ e, s = e + 3 := ⟨s - 3, by omega⟩
    rw [show 3 - (e + 3) = 0 by omega, pow_zero, Nat.mul_one, Nat.add_sub_cancel,
      Nat.div_lt_iff_lt_mul (Nat.pow_pos (by decide)), ← Nat.mul_lt_mul_left (Nat.two_pow_pos k), ← Nat.mul_assoc,
      hsplit, pow_add, Nat.mul_comm (256 ^ e)]

theorem SignedSize.mantissa_lt {v s : Nat} (h : SignedSize v s) : mantissa v s < 2 ^ 23 :=
  (mantissa_lt_iff v s (show 1 ≤ 24 by decide)).mpr h.fits

theorem mantissa_succ (v s : Nat) : mantissa v (s + 1) = mantissa v s / 256 := by
  unfold mantissa
  rcases Nat.lt_or_ge s 3 with hs | hs
  · rw [show s + 1 - 3 = 0 by omega, show s - 3 = 0 by omega, show 3 - s = 3 - (s + 1) + 1 by omega, pow_succ,
      ← Nat.mul_assoc, Nat.mul_div_cancel _ (by decide)]
  · rw [show s + 1 - 3 = s - 3 + 1 by omega, show 3 - (s + 1) = 0 by omega, show 3 - s = 0 by omega, pow_zero,
      Nat.mul_one, Nat.mul_one, pow_succ, Nat.div_div_eq_div_mul]

theorem SignedSize.scales {v s : Nat} (h : SignedSize v s) : Scales 256 (2 ^ 23) v (s - 3) where
  fits := lt_of_le_of_lt (Nat.le_mul_of_pos_right _ (Nat.pow_pos (by decide))) h.mantissa_lt
  least hs := by
    have hleast := h.least (by omega)
    obtain ⟨e, rfl⟩ : ∃ e, s = e + 4 := ⟨s - 4, by omega⟩
    rw [Nat.le_div_iff_mul_le (Nat.pow_pos (by decide)), show e + 4 - 3 - 1 = e by omega]
    rw [show e + 4 - 1 = e + 3 by omega, pow_add] at hleast
    omega

theorem mantissa_decodes (v s : Nat) : mantissa v s / 256 ^ (3 - s) * 256 ^ (s - 3) = truncate 256 v (s - 3) := by
  rw [mantissa, Nat.mul_div_cancel _ (Nat.pow_pos (by decide)), truncate]

/-- The truncation has as many bytes: the power of the top byte is among the numbers that fit. -/
theorem SignedSize.truncate {v s : Nat} (h : SignedSize v s) : SignedSize (truncate 256 v (s - 3)) s where
  fits := lt_of_le_of_lt (Nat.mul_le_mul_left 2 (truncate_le 256 v (s - 3))) h.fits
  least hs := by
    have hleast := h.least hs
    rcases Nat.lt_or_ge s 2 with hlt | hge
    · rw [show s - 3 = 0 by omega, Truncation.truncate, pow_zero, Nat.div_one, Nat.mul_one]
      exact hleast
    · obtain ⟨e, rfl⟩ : ∃ e, s = e + 2 := ⟨s - 2, by omega⟩
      have hfits : Fits 256 (2 ^ 23) (128 * 256 ^ e) := ⟨128, e, by decide, rfl⟩
      rw [show e + 2 - 1 = e + 1 by omega, pow_succ] at hleast ⊢
      have hle := h.scales.le_truncate (by decide) (by decide) hfits (by omega)
      omega

theorem truncate_mantissa (v s : Nat) : mantissa (truncate 256 v (s - 3)) s = mantissa v s := by
  rw [mantissa, truncate, Nat.mul_div_cancel _ (Nat.pow_pos (by decide)), mantissa]

section
variable (x : BaseUint 8)

/-- The bytes of `GetCompact` before it looks at the sign bit. -/
def packedWord (nSize : Nat) : BitVec 32 :=
  if nSize ≤ 3 then (x.getLow64 <<< (8 * (3 - nSize))).setWidth 32
  else (x.shiftRight (8 * (nSize - 3))).getLow64.setWidth 32

theorem toNat_packedWord {n : Nat} (h : x.toNat < 256 ^ n) : (x.packedWord n).toNat = mantissa x.toNat n := by
  have hlt : mantissa x.toNat n < 2 ^ 24 := (mantissa_lt_iff x.toNat n (Nat.zero_le 24)).mpr (by omega)
  have hmod : ∀ k, 24 ≤ k → mantissa x.toNat n % 2 ^ k = mantissa x.toNat n := fun k hk =>
    Nat.mod_eq_of_lt (lt_of_lt_of_le hlt (Nat.pow_le_pow_right (by decide) hk))
  unfold packedWord
  split
  · rename_i hn
    have hsmall : x.toNat < 2 ^ 64 :=
      lt_of_lt_of_le h ((Nat.pow_le_pow_right (by decide) hn).trans (by decide))
    have hm : mantissa x.toNat n = x.toNat * 2 ^ (8 * (3 - n)) := by
      rw [mantissa, show n - 3 = 0 by omega, pow_zero, Nat.div_one, pow_256]
    rw [BitVec.toNat_setWidth, BitVec.toNat_shiftLeft, toNat_getLow64 _ (by decide), Nat.mod_eq_of_lt hsmall,
      Nat.shiftLeft_eq, ← hm, hmod 64 (by decide), hmod 32 (by decide)]
  · rename_i hn
    have hm : mantissa x.toNat n = x.toNat / 2 ^ (8 * (n - 3)) := by
      rw [mantissa, show 3 - n = 0 by omega, pow_zero, Nat.mul_one, pow_256]
    rw [BitVec.toNat_setWidth, toNat_getLow64 _ (by decide), toNat_shiftRight, ← hm, hmod 64 (by decide),
      hmod 32 (by decide)]

theorem sign_bit (v : BitVec 32) : v &&& 0x00800000#32 ≠ 0 ↔ v.toNat / 2 ^ 23 % 2 = 1 := and_bit v 23

theorem byte_count : x.toNat < 256 ^ ((x.bits + 7) / 8) ∧
    (0 < (x.bits + 7) / 8 → 256 ^ ((x.bits + 7) / 8 - 1) ≤ x.toNat) := by
  rw [bits_eq, pow_256, pow_256]
  refine ⟨lt_of_lt_of_le (Nat.lt_size_self _) (Nat.pow_le_pow_right (by decide) (by omega)), fun hpos => ?_⟩
  exact Nat.lt_size.mp (by omega)

/-- What `GetCompact` packs: the size, the top three bytes and the sign. -/
structure Packs (fNegative : Bool) (v s : Nat) (c : BitVec 32) : Prop where
  size : SignedSize v s
  le : s ≤ 33
  word : c.toNat = s * 2 ^ 24 + (if fNegative ∧ mantissa v s ≠ 0 then 2 ^ 23 else 0) + mantissa v s

/-- The end of `GetCompact`, from its assertions on. -/
def pack (fNegative : Bool) (nCompact : BitVec 32) (nSize : Nat) : Option (BitVec 32) :=
  if nCompact &&& ~~~0x007fffff#32 ≠ 0 then none
  else if 256 ≤ nSize then none
  else
    some (nCompact ||| BitVec.ofNat 32 nSize <<< 24 |||
      (if fNegative ∧ nCompact &&& 0x007fffff#32 ≠ 0 then 0x00800000#32 else 0))

theorem getCompact_eq_pack (fNegative : Bool) : x.getCompact fNegative =
    if x.packedWord ((x.bits + 7) / 8) &&& 0x00800000#32 ≠ 0 then
      pack fNegative (x.packedWord ((x.bits + 7) / 8) >>> 8) ((x.bits + 7) / 8 + 1)
    else pack fNegative (x.packedWord ((x.bits + 7) / 8)) ((x.bits + 7) / 8) := by
  unfold getCompact packedWord
  dsimp only
  generalize (if (x.bits + 7) / 8 ≤ 3 then _ else _ : BitVec 32) = w
  by_cases h : w &&& 0x00800000#32 ≠ 0
  · rw [if_pos h, if_pos h, if_pos h]
    rfl
  · rw [if_neg h, if_neg h, if_neg h]
    rfl

theorem pack_word {w : BitVec 32} {n : Nat} (fNegative : Bool) (hw : w.toNat < 2 ^ 23) (hn : n ≤ 33) :
    ∃ c, pack fNegative w n = some c ∧
      c.toNat = n * 2 ^ 24 + (if fNegative ∧ w.toNat ≠ 0 then 2 ^ 23 else 0) + w.toNat := by
  have hlow : w &&& 0x007fffff#32 = w := by
    apply BitVec.eq_of_toNat_eq
    rw [toNat_word, Nat.mod_eq_of_lt hw]
  have hhigh : w &&& ~~~0x007fffff#32 = 0 := by
    rw [← hlow, BitVec.and_assoc]
    exact BitVec.and_zero
  have hsize : (BitVec.ofNat 32 n <<< 24).toNat = 2 ^ 24 * n := by
    rw [BitVec.toNat_shiftLeft, BitVec.toNat_ofNat, Nat.shiftLeft_eq]
    omega
  have hzero : w ≠ 0 ↔ w.toNat ≠ 0 := by
    rw [Ne, ← BitVec.toNat_inj]
    rfl
  unfold pack
  rw [if_neg (not_not.mpr hhigh), if_neg (by omega), hlow]
  refine ⟨_, rfl, ?_⟩
  rw [BitVec.or_assoc, BitVec.or_comm, BitVec.or_assoc, BitVec.toNat_or, hsize]
  simp only [hzero]
  split
  · have hor : (0x00800000#32 ||| w).toNat = 2 ^ 23 * 1 + w.toNat := by
      rw [BitVec.toNat_or, Nat.two_pow_add_eq_or_of_lt hw]
      rfl
    rw [hor, ← Nat.two_pow_add_eq_or_of_lt (by omega)]
    omega
  · have hor : 0 ||| w = w := BitVec.zero_or
    rw [hor, ← Nat.two_pow_add_eq_or_of_lt (by omega)]
    omega

theorem getCompact_packs (fNegative : Bool) :
    ∃ s c, x.getCompact fNegative = some c ∧ Packs fNegative x.toNat s c := by
  obtain ⟨hlt, hge⟩ := x.byte_count
  rw [getCompact_eq_pack]
  generalize (x.bits + 7) / 8 = n at hlt hge ⊢
  have hn : n ≤ 32 := by
    by_contra hn
    have hle : 256 ^ 32 ≤ 256 ^ (n - 1) := Nat.pow_le_pow_right (by decide) (by omega)
    exact absurd (lt_of_le_of_lt (hle.trans (hge (by omega))) x.toNat_lt) (by decide +kernel)
  have hword := x.toNat_packedWord hlt
  have hbound : mantissa x.toNat n < 2 ^ 24 := (mantissa_lt_iff x.toNat n (Nat.zero_le 24)).mpr (by omega)
  have hhalf := mantissa_lt_iff x.toNat n (show 1 ≤ 24 by decide)
  by_cases hsign : mantissa x.toNat n < 2 ^ 23
  · rw [if_neg (by rw [sign_bit, hword]; omega)]
    obtain ⟨c, hc, hcn⟩ := pack_word fNegative (hword ▸ hsign) (hn.trans (by decide))
    rw [hword] at hcn
    exact ⟨n, c, hc, ⟨hhalf.mp hsign, fun hpos => by have := hge hpos; omega⟩, by omega, hcn⟩
  · have hshift : (x.packedWord n >>> 8).toNat = mantissa x.toNat (n + 1) := by
      rw [BitVec.toNat_ushiftRight, Nat.shiftRight_eq_div_pow, hword, mantissa_succ]
    have hsucc := mantissa_succ x.toNat n
    rw [if_pos (by rw [sign_bit, hword]; omega)]
    obtain ⟨c, hc, hcn⟩ := pack_word fNegative (w := x.packedWord n >>> 8) (by omega) (show n + 1 ≤ 33 by omega)
    rw [hshift] at hcn
    refine ⟨n + 1, c, hc, ⟨?_, fun _ => ?_⟩, by omega, hcn⟩
    · rw [pow_succ]
      omega
    · have hle := mt hhalf.mpr hsign
      rw [Nat.add_sub_cancel]
      omega

end

/-! ## Both ways -/

section
variable {fNegative : Bool} {v s : Nat} {c : BitVec 32}

theorem Packs.fields (h : Packs fNegative v s c) : compactSize c = s ∧ c.toNat % 2 ^ 23 = mantissa v s := by
  have hm := h.size.mantissa_lt
  have hword := h.word
  unfold compactSize
  split at hword <;> omega

theorem Packs.compactValue (h : Packs fNegative v s c) : compactValue c = truncate 256 v (s - 3) := by
  rw [BaseUint.compactValue, h.fields.1, h.fields.2, mantissa_decodes]

theorem Packs.value (h : Packs fNegative v s c) (hv : v < 2 ^ 256) :
    (setCompact c).value.toNat = truncate 256 v (s - 3) := by
  rw [setCompact_value, h.compactValue]
  exact Nat.mod_eq_of_lt (lt_of_le_of_lt (truncate_le 256 v (s - 3)) hv)

theorem Packs.overflow (h : Packs fNegative v s c) (hv : v < 2 ^ 256) : (setCompact c).overflow = false := by
  have hle := truncate_le 256 v (s - 3)
  rw [← Bool.not_eq_true, setCompact_overflow, h.compactValue]
  omega

theorem Packs.negative (h : Packs false v s c) : (setCompact c).negative = false := by
  have hm := h.size.mantissa_lt
  have hword := h.word
  have hbit : ¬c &&& 0x00800000#32 ≠ 0 := by
    rw [sign_bit]
    simp only [Bool.false_eq_true, false_and, if_false] at hword
    omega
  rw [setCompact_negative, decide_eq_false hbit, Bool.and_false]

theorem Packs.unique {d : BitVec 32} (hc : Packs fNegative v s c)
    (hd : Packs fNegative (truncate 256 v (s - 3)) s d) :
    c = d := by
  apply BitVec.eq_of_toNat_eq
  rw [hc.word, hd.word, truncate_mantissa]

end

/-- The targets a compact word stands for. -/
def Representable (y : BaseUint 8) : Prop :=
  ∃ nCompact, (setCompact nCompact).negative = false ∧ (setCompact nCompact).overflow = false ∧
    (setCompact nCompact).value = y

theorem Representable.fits {y : BaseUint 8} (h : Representable y) : Fits 256 (2 ^ 23) y.toNat := by
  obtain ⟨c, -, hover, rfl⟩ := h
  rw [← Bool.not_eq_true, setCompact_overflow, Nat.not_le] at hover
  rw [setCompact_value, Nat.mod_eq_of_lt hover]
  exact ⟨_, _, lt_of_le_of_lt (Nat.div_le_self _ _) (mantissa_lt c), rfl⟩

theorem getCompact_setCompact {x : BaseUint 8} {fNegative : Bool} {c : BitVec 32}
    (h : x.getCompact fNegative = some c) :
    (setCompact c).value.getCompact fNegative = some c := by
  obtain ⟨s, d, hd, hpacks⟩ := x.getCompact_packs fNegative
  obtain rfl : d = c := Option.some.inj (hd.symm.trans h)
  obtain ⟨t, e, he, hpacks'⟩ := (setCompact d).value.getCompact_packs fNegative
  rw [hpacks.value x.toNat_lt] at hpacks'
  obtain rfl : t = s := hpacks'.size.unique hpacks.size.truncate
  rw [he, hpacks.unique hpacks']

theorem setCompact_getCompact_mono {x₁ x₂ : BaseUint 8} {c₁ c₂ : BitVec 32} (hle : x₁.toNat ≤ x₂.toNat)
    (h₁ : x₁.getCompact false = some c₁) (h₂ : x₂.getCompact false = some c₂) :
    (setCompact c₁).value.toNat ≤ (setCompact c₂).value.toNat := by
  obtain ⟨s, d, hd, hpacks⟩ := x₁.getCompact_packs false
  obtain ⟨t, e, he, hpacks'⟩ := x₂.getCompact_packs false
  obtain rfl : d = c₁ := Option.some.inj (hd.symm.trans h₁)
  obtain rfl : e = c₂ := Option.some.inj (he.symm.trans h₂)
  rw [hpacks.value x₁.toNat_lt, hpacks'.value x₂.toNat_lt]
  exact hpacks.size.scales.truncate_mono (by decide) (by decide) hpacks'.size.scales hle

/-- Below one unit of the last packed byte, counted in the 256th parts that a size below three has. -/
theorem sub_truncate_lt_unit (v s : Nat) : (v - truncate 256 v (s - 3)) * 256 ^ 3 < 256 ^ s := by
  rcases Nat.lt_or_ge s 3 with hs | hs
  · rw [show s - 3 = 0 by omega, truncate, pow_zero, Nat.div_one, Nat.mul_one, Nat.sub_self, Nat.zero_mul]
    exact Nat.pow_pos (by decide)
  · have hlt := sub_truncate_lt (B := 256) (by decide) v (s - 3)
    calc (v - truncate 256 v (s - 3)) * 256 ^ 3 < 256 ^ (s - 3) * 256 ^ 3 :=
          Nat.mul_lt_mul_of_pos_right hlt (by decide)
      _ = 256 ^ s := by rw [← pow_add, Nat.sub_add_cancel hs]

/-- `GetCompact` never fails an assertion and rounds down to the nearest target that has a compact form. -/
theorem getCompact_rounds_down :
    (∀ (x : BaseUint 8) (fNegative : Bool), (x.getCompact fNegative).isSome) ∧
    (∀ (x : BaseUint 8) (nCompact : BitVec 32), x.getCompact false = some nCompact →
      (setCompact nCompact).negative = false ∧ (setCompact nCompact).overflow = false ∧
      Representable (setCompact nCompact).value ∧
      (setCompact nCompact).value.toNat ≤ x.toNat ∧
      (∀ y, Representable y → y.toNat ≤ x.toNat → y.toNat ≤ (setCompact nCompact).value.toNat) ∧
      (x.toNat - (setCompact nCompact).value.toNat) * 256 ^ 3 < 256 ^ (nCompact.toNat / 2 ^ 24)) ∧
    (∀ (x : BaseUint 8) (fNegative : Bool) (nCompact : BitVec 32), x.getCompact fNegative = some nCompact →
      (setCompact nCompact).value.getCompact fNegative = some nCompact) ∧
    (∀ (x₁ x₂ : BaseUint 8) (c₁ c₂ : BitVec 32), x₁.toNat ≤ x₂.toNat → x₁.getCompact false = some c₁ →
      x₂.getCompact false = some c₂ → (setCompact c₁).value.toNat ≤ (setCompact c₂).value.toNat) := by
  refine ⟨fun x fNegative => ?_, fun x nCompact h => ?_, fun x fNegative nCompact h => getCompact_setCompact h,
    fun x₁ x₂ c₁ c₂ hle h₁ h₂ => setCompact_getCompact_mono hle h₁ h₂⟩
  · obtain ⟨s, c, hc, -⟩ := x.getCompact_packs fNegative
    rw [hc]
    rfl
  · obtain ⟨s, c, hc, hpacks⟩ := x.getCompact_packs false
    obtain rfl : c = nCompact := Option.some.inj (hc.symm.trans h)
    have hneg := hpacks.negative
    have hover := hpacks.overflow x.toNat_lt
    have hsize : c.toNat / 2 ^ 24 = s := hpacks.fields.1
    refine ⟨hneg, hover, ⟨c, hneg, hover, rfl⟩, ?_, fun y hy hle => ?_, ?_⟩
    · rw [hpacks.value x.toNat_lt]
      exact truncate_le 256 x.toNat (s - 3)
    · rw [hpacks.value x.toNat_lt]
      exact hpacks.size.scales.le_truncate (by decide) (by decide) hy.fits hle
    · rw [hpacks.value x.toNat_lt, hsize]
      exact sub_truncate_lt_unit x.toNat s

end BaseUint

end UnicityPow
