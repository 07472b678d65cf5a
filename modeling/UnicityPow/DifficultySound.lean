import UnicityPow.AcceptedChain
import UnicityPow.AsertSound
import UnicityPow.WorkSound

/-!
# The required work is usable

Whatever the anchor's target and the parameters, ASERT answers between 1 and the limit, and the compact
form keeps that. So every accepted block has work of its own.
-/

namespace UnicityPow

open Forest BlockMap BaseUint

/-! ## The target -/

theorem uintToArith256_eq_zero {a : Uint256} (h : uintToArith256 a = 0) : a = 0 := by
  have hrev : byteReverse (uintToArith256 a) = a := byteReverse_byteReverse a
  rw [← hrev, h]
  decide +kernel

theorem PowParams.powLimit256_pos {params : PowParams} (h : params.powLimit ≠ 0) :
    1 ≤ params.powLimit256.toNat := by
  unfold powLimit256
  rw [toNat_ofArith, Nat.one_le_iff_ne_zero]
  intro hzero
  exact h (uintToArith256_eq_zero (BitVec.eq_of_toNat_eq hzero))

/-- Also for arguments that are clamped or wrap. -/
theorem calculateASERT_range (refTarget : BaseUint 8) (s t n h : Int) {powLimit : BaseUint 8}
    (hpos : 1 ≤ powLimit.toNat) : 1 ≤ (calculateASERT refTarget s t n powLimit h).toNat ∧
      (calculateASERT refTarget s t n powLimit h).toNat ≤ powLimit.toNat := by
  have hlimit : (BaseUint.arithU512ToU256 (.ofUint256 powLimit)).toNat = powLimit.toNat := by
    rw [toNat_arithU512ToU256 (by rw [toNat_ofUint256]; exact powLimit.toNat_lt), toNat_ofUint256]
  unfold calculateASERT
  split
  · rw [hlimit]
    exact ⟨hpos, le_rfl⟩
  · split
    · rw [hlimit]
      exact ⟨hpos, le_rfl⟩
    · split
      · rw [hlimit]
        exact ⟨hpos, le_rfl⟩
      · dsimp only
        rw [clamp_eq]
        exact ⟨le_max_left _ _, max_le hpos (min_le_left _ _)⟩

/-! ## The compact form -/

/-- The word stands for a target in reach of the limit, and is the one `GetCompact` gives it. -/
structure Usable (powLimit : BaseUint 8) (nBits : BitVec 32) : Prop where
  nonnegative : (BaseUint.setCompact nBits).negative = false
  fits : (BaseUint.setCompact nBits).overflow = false
  pos : 0 < (BaseUint.setCompact nBits).value.toNat
  le : (BaseUint.setCompact nBits).value.toNat ≤ powLimit.toNat
  canonical : (BaseUint.setCompact nBits).value.getCompact false = some nBits

theorem getCompact_usable {x powLimit : BaseUint 8} (hpos : 1 ≤ x.toNat) (hle : x.toNat ≤ powLimit.toNat) :
    ∃ nBits, x.getCompact false = some nBits ∧ Usable powLimit nBits := by
  obtain ⟨s, nBits, hbits, hpacks⟩ := x.getCompact_packs false
  have hvalue := hpacks.value x.toNat_lt
  have hs : 0 < s := by
    by_contra hs
    have hfits := hpacks.size.fits
    rw [show s = 0 by omega, pow_zero] at hfits
    omega
  have hleast := hpacks.size.truncate.least hs
  refine ⟨nBits, hbits, hpacks.negative, hpacks.overflow x.toNat_lt, ?_, ?_, getCompact_setCompact hbits⟩
  · have hpow : 0 < 256 ^ (s - 1) := Nat.pow_pos (by decide)
    omega
  · rw [hvalue]
    exact (Truncation.truncate_le 256 x.toNat (s - 3)).trans hle

theorem Usable.proofOf_pos {powLimit : BaseUint 8} {nBits : BitVec 32} (h : Usable powLimit nBits) :
    0 < proofOf nBits := by
  have hlt := (BaseUint.setCompact nBits).value.toNat_lt
  unfold proofOf
  rw [if_pos ⟨h.nonnegative, h.fits, h.pos.ne'⟩]
  exact Nat.div_pos hlt (Nat.succ_pos _)

/-! ## Below a block -/

section
variable {getHash : CBlockHeader → Uint256} {params : PowParams} {m : BlockMap} {genesis : BlockPtr}

theorem getNextWorkRequired_usable (T : TreeShape m genesis) (hlimit : params.powLimit ≠ 0)
    (hanchor : 0 ≤ params.nASERTAnchorHeight) (pindexPrev : Option BlockPtr)
    (hmem : ∀ p, pindexPrev = some p → p ∈ m) :
    ∃ nBits, getNextWorkRequired params m pindexPrev = some nBits ∧ Usable params.powLimit256 nBits := by
  have hpos := PowParams.powLimit256_pos hlimit
  unfold getNextWorkRequired
  cases pindexPrev with
  | none => exact getCompact_usable hpos le_rfl
  | some p =>
    dsimp only
    split
    · exact getCompact_usable hpos le_rfl
    · split
      · exact getCompact_usable hpos le_rfl
      · rename_i hbelow
        obtain ⟨a, ha, -, hah⟩ := T.getAncestor_spec (hmem p rfl) hanchor (not_lt.mp hbelow)
        rw [ha]
        dsimp only
        rw [if_neg (not_not.mpr hah)]
        obtain ⟨h1, hle⟩ := calculateASERT_range (BaseUint.setCompact (m.nBits a)).value params.nPowTargetSpacing
          ((m.nTime p - m.nTime a).toNat : Int) (toInt32 (m.nHeight p - params.nASERTAnchorHeight)) params.nASERTHalfLife hpos
        exact getCompact_usable h1 hle

theorem checkContext_ok {header : CBlockHeader} {expected_bits : BitVec 32} {median : Option Int} {t : Int}
    (h : checkContext header expected_bits median t = .ok ()) :
    header.nBits = expected_bits ∧ ∀ x, median = some x → x < header.getBlockTime := by
  unfold checkContext at h
  split at h
  · cases h
  · rename_i hbits
    split at h
    · cases h
    · rename_i hold
      refine ⟨not_not.mp hbits, ?_⟩
      rintro x rfl
      simpa using hold

theorem AcceptedTree.checked (A : AcceptedTree getHash params m genesis) {p q : BlockPtr} {b : CBlockIndex}
    (hb : m[p]? = some b) (hq : b.pprev = some q) :
    getNextWorkRequired params m (some q) = some b.nBits ∧ m.getMedianTimePast q < b.getBlockTime := by
  obtain ⟨t, ht⟩ := A.accepted p b q hb hq
  unfold contextualCheckBlockHeader at ht
  obtain ⟨expected, hexpected, hcheck⟩ := Option.map_eq_some_iff.mp ht
  obtain ⟨hbits, htime⟩ := checkContext_ok hcheck
  exact ⟨by rw [hexpected, ← hbits]; rfl, htime _ rfl⟩

/-- With an anchor at a height, the work required below any block, or below none, is a usable target,
and every accepted block adds work to its chain. -/
theorem required_work_usable (A : AcceptedTree getHash params m genesis) (hlimit : params.powLimit ≠ 0)
    (hanchor : 0 ≤ params.nASERTAnchorHeight) :
    (∀ tip ∈ m, ∃ nBits, getNextWorkRequired params m (some tip) = some nBits ∧
      (BaseUint.setCompact nBits).negative = false ∧ (BaseUint.setCompact nBits).overflow = false ∧
      0 < (BaseUint.setCompact nBits).value.toNat ∧
      (BaseUint.setCompact nBits).value.toNat ≤ params.powLimit256.toNat ∧
      (BaseUint.setCompact nBits).value.getCompact false = some nBits) ∧
    (∀ (p : BlockPtr) (b : CBlockIndex), m[p]? = some b → b.pprev ≠ none →
      ∃ proof, BaseUint.getBlockProof b.nBits = some proof ∧ 0 < proof.toNat) ∧
    (∀ (p : BlockPtr) (b : CBlockIndex) (q : BlockPtr), m[p]? = some b → b.pprev = some q →
      ∃ proof, BaseUint.getBlockProof b.nBits = some proof ∧
        ((m.nChainWork q).toNat + proof.toNat < 2 ^ 256 → (m.nChainWork q).toNat < (m.nChainWork p).toNat)) := by
  have hpos : ∀ (p : BlockPtr) (b : CBlockIndex) (q : BlockPtr), m[p]? = some b → b.pprev = some q →
      0 < proofOf b.nBits := by
    intro p b q hb hq
    obtain ⟨nBits, hbits, husable⟩ := getNextWorkRequired_usable A.toTreeShape hlimit hanchor (some q)
      (fun x hx => by cases hx; exact (A.parent p b q hb hq).1)
    obtain rfl : nBits = b.nBits := Option.some.inj (hbits.symm.trans (A.checked hb hq).1)
    exact husable.proofOf_pos
  refine ⟨fun tip htip => ?_, fun p b hb hroot => ?_, fun p b q hb hq => ?_⟩
  · obtain ⟨nBits, hbits, husable⟩ := getNextWorkRequired_usable A.toTreeShape hlimit hanchor (some tip)
      (fun x hx => by cases hx; exact htip)
    exact ⟨nBits, hbits, husable.nonnegative, husable.fits, husable.pos, husable.le, husable.canonical⟩
  · obtain ⟨q, hq⟩ := Option.ne_none_iff_exists'.mp hroot
    obtain ⟨proof, hproof, hn⟩ := getBlockProof_eq b.nBits
    exact ⟨proof, hproof, by rw [hn]; exact hpos p b q hb hq⟩
  · obtain ⟨proof, hproof, hn⟩ := getBlockProof_eq b.nBits
    refine ⟨proof, hproof, fun hlt => ?_⟩
    have hadd := hpos p b q hb hq
    rw [hn] at hlt
    rw [nChainWork_of_get hb, A.work p b hb, hq, Option.elim_some, BitVec.toNat_add, toNat_getBlockProof,
      Nat.mod_eq_of_lt hlt]
    omega

end

theorem required_work_usable_mined :
    ∃ nBits, getNextWorkRequired asertParams minedChain.blockIndex (some 4) = some nBits ∧
    0 < (BaseUint.setCompact nBits).value.toNat := by
  obtain ⟨genesis, -, A⟩ := minedChain_checked
  obtain ⟨nBits, h, -, -, hpos, -⟩ := (required_work_usable A (by decide +kernel) (by decide)).1 4 (by decide +kernel)
  exact ⟨nBits, h, hpos⟩

def belowParams : PowParams := { asertParams with nASERTAnchorHeight := -1 }

/-- With an anchor below genesis there is no anchor block, and an assertion fails. -/
theorem negative_anchor_fails :
    ¬ ∀ (getHash : CBlockHeader → Uint256) (params : PowParams) (m : BlockMap) (genesis : BlockPtr),
      AcceptedTree getHash params m genesis → params.powLimit ≠ 0 → ∀ tip ∈ m, ∃ nBits,
        getNextWorkRequired params m (some tip) = some nBits ∧ 0 < (BaseUint.setCompact nBits).value.toNat := by
  intro hall
  have hgenesis : CheckedState nonceHash belowParams (genesisState nonceHash false (minedHeader 0 1 10 0x207fffff#32)) :=
    checkedState_genesis false _ rfl
  obtain ⟨genesis, -, A⟩ := hgenesis
  obtain ⟨nBits, h, -⟩ := hall _ _ _ _ A (by decide +kernel) 1 (by decide +kernel)
  have hnone : getNextWorkRequired belowParams
      (genesisState nonceHash false (minedHeader 0 1 10 0x207fffff#32)).blockIndex (some 1) = none := by
    decide +kernel
  rw [hnone] at h
  cases h

end UnicityPow
