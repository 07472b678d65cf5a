import UnicityPow.CompactSound
import UnicityPow.TreeSound

/-!
# The two computations of work agree

A target that is no failed encoding is never all ones, so `GetBlockProof` and
`CalculateHeadersWork` divide alike, and the work a batch claims is what its blocks add up to in
the index.
-/

namespace UnicityPow

open BlockMap

namespace BaseUint

/-! ## One header -/

/-- The expected number of hashes for a target. -/
def proofOf (nBits : BitVec 32) : Nat :=
  if (setCompact nBits).negative = false ∧ (setCompact nBits).overflow = false ∧
      (setCompact nBits).value.toNat ≠ 0 then
    2 ^ 256 / ((setCompact nBits).value.toNat + 1)
  else 0

theorem Representable.ne_ones {y : BaseUint 8} (h : Representable y) : y.toNat + 1 < 2 ^ 256 := by
  have hlt := y.toNat_lt
  by_contra hge
  have hones : y.toNat = 2 ^ 256 - 1 := by omega
  obtain ⟨m, e, hm, hy⟩ := h.fits
  rw [hones] at hy
  cases e with
  | zero =>
    rw [pow_zero, Nat.mul_one] at hy
    omega
  | succ e =>
    have heven : (2 ^ 256 - 1) % 256 = 0 := by rw [hy, pow_succ, ← Nat.mul_assoc, Nat.mul_mod_left]
    exact absurd heven (by decide +kernel)

theorem complement_div {N t : Nat} (ht : t + 1 ≤ N) : (N - 1 - t) / (t + 1) + 1 = N / (t + 1) := by
  rw [Nat.div_eq_sub_div (Nat.succ_pos t) ht, show N - (t + 1) = N - 1 - t by omega]

theorem targetWork_eq {x : BaseUint 8} (hpos : x.toNat ≠ 0) (hlt : x.toNat + 1 < 2 ^ 256) :
    ∃ p, targetWork x = some p ∧ p.toNat = 2 ^ 256 / (x.toNat + 1) := by
  have hone : (ofUint64 1 : BaseUint 8).toNat = 1 := toNat_ofUint64 (by decide) 1
  have hadd : (x.add (ofUint64 1)).toNat = x.toNat + 1 := by
    rw [toNat_add, hone]
    exact Nat.mod_eq_of_lt hlt
  have hcompl : x.complement.toNat = 2 ^ 256 - 1 - x.toNat := by
    have := x.toNat_complement
    omega
  unfold targetWork
  rcases div_eq x.complement (x.add (ofUint64 1)) with ⟨hzero, -⟩ | ⟨-, q, hq, hqn⟩
  · omega
  · refine ⟨q.add (ofUint64 1), by rw [hq]; rfl, ?_⟩
    have hsmall : 2 ^ 256 / (x.toNat + 1) < 2 ^ 256 := Nat.div_lt_self (Nat.two_pow_pos _) (by omega)
    rw [toNat_add, hqn, hone, hcompl, hadd, complement_div (by omega)]
    exact Nat.mod_eq_of_lt hsmall

/-- What both computations test before they divide. -/
theorem usable_iff (nBits : BitVec 32) : ((setCompact nBits).negative || (setCompact nBits).overflow ||
    (setCompact nBits).value.equalTo 0) = false ↔
      (setCompact nBits).negative = false ∧ (setCompact nBits).overflow = false ∧
      (setCompact nBits).value.toNat ≠ 0 := by
  rw [Bool.or_eq_false_iff, Bool.or_eq_false_iff, and_assoc,
    ← Bool.not_eq_true ((setCompact nBits).value.equalTo 0),
    equalTo_iff _ (by decide)]
  rfl

theorem getBlockProof_eq (nBits : BitVec 32) : ∃ p, getBlockProof nBits = some p ∧ p.toNat = proofOf nBits := by
  unfold getBlockProof proofOf
  by_cases h : ((setCompact nBits).negative || (setCompact nBits).overflow || (setCompact nBits).value.equalTo 0) = false
  · have huse := (usable_iff nBits).mp h
    have hlt := Representable.ne_ones ⟨nBits, huse.1, huse.2.1, rfl⟩
    have hones : (setCompact nBits).value ≠ zero.complement := by
      intro heq
      have := (zero : BaseUint 8).toNat_complement
      rw [← heq, toNat_zero] at this
      omega
    rw [if_neg (Bool.not_eq_true _ ▸ h), if_neg hones, if_pos huse]
    exact targetWork_eq huse.2.2 hlt
  · rw [if_pos (Bool.not_eq_false _ ▸ h), if_neg (mt (usable_iff nBits).mpr h)]
    exact ⟨_, rfl, toNat_ofUint64 (by decide) 0⟩

/-! ## A batch -/

theorem addHeaderWork_eq (total_work : BaseUint 8) (header : CBlockHeader) : ∃ w,
    addHeaderWork total_work header = some w ∧ w.toNat = (total_work.toNat + proofOf header.nBits) % 2 ^ 256 := by
  unfold addHeaderWork proofOf
  by_cases h : ((setCompact header.nBits).negative || (setCompact header.nBits).overflow ||
      (setCompact header.nBits).value.equalTo 0) = false
  · have huse := (usable_iff header.nBits).mp h
    obtain ⟨p, hp, hpn⟩ := targetWork_eq huse.2.2 (Representable.ne_ones ⟨header.nBits, huse.1, huse.2.1, rfl⟩)
    rw [if_neg (Bool.not_eq_true _ ▸ h), if_pos huse, hp]
    exact ⟨_, rfl, by rw [toNat_add, hpn]⟩
  · rw [if_pos (Bool.not_eq_false _ ▸ h), if_neg (mt (usable_iff header.nBits).mpr h), Nat.add_zero]
    exact ⟨total_work, rfl, (Nat.mod_eq_of_lt total_work.toNat_lt).symm⟩

theorem foldlM_addHeaderWork (headers : List CBlockHeader) : ∀ total_work : BaseUint 8, ∃ w,
    headers.foldlM addHeaderWork total_work = some w ∧
    w.toNat = (total_work.toNat + (headers.map (fun header => proofOf header.nBits)).sum) % 2 ^ 256 := by
  induction headers with
  | nil =>
    intro total_work
    rw [List.map_nil, List.sum_nil, Nat.add_zero]
    exact ⟨total_work, rfl, (Nat.mod_eq_of_lt total_work.toNat_lt).symm⟩
  | cons header rest ih =>
    intro total_work
    obtain ⟨v, hv, hvn⟩ := addHeaderWork_eq total_work header
    obtain ⟨w, hw, hwn⟩ := ih v
    refine ⟨w, by rw [List.foldlM_cons, hv]; exact hw, ?_⟩
    rw [hwn, hvn, List.map_cons, List.sum_cons, Nat.mod_add_mod, Nat.add_assoc]

theorem calculateHeadersWork_eq (headers : List CBlockHeader) : ∃ w, calculateHeadersWork headers = some w ∧
    w.toNat = (headers.map (fun header => proofOf header.nBits)).sum % 2 ^ 256 := by
  obtain ⟨w, hw, hwn⟩ := foldlM_addHeaderWork headers (ofUint64 0)
  have hzero : (ofUint64 0 : BaseUint 8).toNat = 0 := toNat_ofUint64 (by decide) 0
  rw [hzero, Nat.zero_add] at hwn
  exact ⟨w, hw, hwn⟩

/-! ## Bit vectors -/

theorem toNat_getBlockProof (nBits : BitVec 32) : (UnicityPow.getBlockProof nBits).toNat = proofOf nBits := by
  have hvalue := setCompact_toNat nBits
  have hzero : ((UnicityPow.setCompact nBits).value == 0) = true ↔ (setCompact nBits).value.toNat = 0 := by
    rw [beq_iff_eq, ← BitVec.toNat_inj, hvalue]
    rfl
  have hflags : (UnicityPow.setCompact nBits).negative = (setCompact nBits).negative ∧
      (UnicityPow.setCompact nBits).overflow = (setCompact nBits).overflow := ⟨rfl, rfl⟩
  unfold UnicityPow.getBlockProof proofOf
  dsimp only
  rw [hflags.1, hflags.2]
  by_cases h : (setCompact nBits).negative = false ∧ (setCompact nBits).overflow = false ∧
      (setCompact nBits).value.toNat ≠ 0
  · have hlt := Representable.ne_ones ⟨nBits, h.1, h.2.1, rfl⟩
    have hones : ¬((UnicityPow.setCompact nBits).value == ~~~(0 : ArithUint256)) = true := by
      rw [beq_iff_eq, ← BitVec.toNat_inj, ← hvalue]
      intro heq
      rw [heq] at hlt
      exact absurd hlt (by decide +kernel)
    have hpos : ((UnicityPow.setCompact nBits).value == 0) = false := by
      rw [← Bool.not_eq_true, hzero]
      exact h.2.2
    rw [if_neg (by rw [h.1, h.2.1, hpos]; decide), if_neg hones, if_pos h, ← complement_div hlt.le]
    rw [hvalue] at hlt h ⊢
    have hsmall := complement_div (N := 2 ^ 256) (t := (UnicityPow.setCompact nBits).value.toNat) hlt.le
    have hbound : 2 ^ 256 / ((UnicityPow.setCompact nBits).value.toNat + 1) < 2 ^ 256 :=
      Nat.div_lt_self (Nat.two_pow_pos _) (by omega)
    rw [BitVec.toNat_add, BitVec.toNat_udiv, BitVec.toNat_not, BitVec.toNat_add]
    rw [show (1 : BitVec 256).toNat = 1 from rfl, Nat.mod_eq_of_lt hlt, Nat.mod_eq_of_lt (hsmall ▸ hbound)]
  · rw [if_neg h]
    split
    · rfl
    · rename_i hcond
      simp only [Bool.or_eq_true, not_or, Bool.not_eq_true] at hcond
      exact absurd ⟨hcond.1.1, hcond.1.2, fun hz => by rw [hzero.mpr hz] at hcond; cases hcond.2⟩ h

/-- All ones is no target, so the test for it changes nothing. -/
theorem headerWork_eq (header : CBlockHeader) : headerWork header = UnicityPow.getBlockProof header.nBits := by
  unfold headerWork UnicityPow.getBlockProof
  dsimp only
  split
  · rfl
  · rename_i hcond
    simp only [Bool.or_eq_true, not_or, Bool.not_eq_true] at hcond
    have hlt := Representable.ne_ones ⟨header.nBits, hcond.1.1, hcond.1.2, rfl⟩
    rw [setCompact_toNat] at hlt
    rw [if_neg]
    intro hones
    rw [beq_iff_eq.mp hones] at hlt
    exact absurd hlt (by decide +kernel)

theorem toNat_calculateHeadersWork (headers : List CBlockHeader) :
    (UnicityPow.calculateHeadersWork headers).toNat =
    (headers.map (fun header => proofOf header.nBits)).sum % 2 ^ 256 := by
  unfold UnicityPow.calculateHeadersWork
  induction headers with
  | nil => rfl
  | cons header rest ih =>
    rw [List.map_cons, List.sum_cons, BitVec.toNat_add, ih, headerWork_eq, toNat_getBlockProof, List.map_cons,
      List.sum_cons, Nat.add_mod_mod]

end BaseUint

open BaseUint

/-! ## The index -/

section
variable {getHash : CBlockHeader → Uint256} {params : ConsensusParams} {env : Env} {genesis : BlockPtr}

/-- The block of the index was made from this header, below another block. -/
def HoldsHeader (getHash : CBlockHeader → Uint256) (m : BlockMap) (header : CBlockHeader) : Prop :=
  ∃ b, m[getHash header]? = some b ∧ b.getBlockHeader = header ∧ b.pprev ≠ none

theorem HoldsHeader.nChainWork {m : BlockMap} (T : HeaderTree getHash m genesis) {header : CBlockHeader}
    (h : HoldsHeader getHash m header) : (m.nChainWork (getHash header)).toNat =
      ((m.nChainWork header.hashPrevBlock).toNat + proofOf header.nBits) % 2 ^ 256 := by
  obtain ⟨b, hb, hheader, hprev⟩ := h
  obtain ⟨q, hq⟩ := Option.ne_none_iff_exists'.mp hprev
  have hhash : header.hashPrevBlock = q := by
    rw [← hheader]
    change b.pprev.getD 0 = q
    rw [hq]
    rfl
  have hbits : header.nBits = b.nBits := by
    rw [← hheader]
    rfl
  rw [nChainWork_of_get hb, T.work _ b hb, hq, hhash, hbits, BitVec.toNat_add, toNat_getBlockProof]
  rfl

theorem nChainWork_chain {m : BlockMap} (T : HeaderTree getHash m genesis) : ∀ (first : CBlockHeader)
    (rest : List CBlockHeader), checkHeadersAreContinuous getHash (first :: rest) = true →
    (∀ header ∈ first :: rest, HoldsHeader getHash m header) →
    (m.nChainWork (getHash ((first :: rest).getLast (List.cons_ne_nil first rest)))).toNat =
      ((m.nChainWork first.hashPrevBlock).toNat +
        ((first :: rest).map (fun header => proofOf header.nBits)).sum) % 2 ^ 256 := by
  intro first rest
  induction rest generalizing first with
  | nil =>
    intro _ h
    rw [List.getLast_singleton, (h first (List.mem_singleton_self first)).nChainWork T, List.map_singleton,
      List.sum_singleton]
  | cons next rest ih =>
    intro hcont h
    unfold checkHeadersAreContinuous at hcont
    rw [Bool.and_eq_true, beq_iff_eq] at hcont
    have hsum : ((first :: next :: rest).map (fun header => proofOf header.nBits)).sum =
        proofOf first.nBits + ((next :: rest).map (fun header => proofOf header.nBits)).sum := by
      rw [List.map_cons, List.sum_cons]
    rw [List.getLast_cons (List.cons_ne_nil next rest),
      ih next hcont.2 (fun x hx => h x (List.mem_cons_of_mem _ hx)),
      hcont.1, (h first List.mem_cons_self).nChainWork T, hsum, Nat.mod_add_mod, Nat.add_assoc]

/-! ## Accepting a batch -/

namespace ChainstateManager

/-- `AcceptBlockHeader` for each header of a batch. -/
def acceptHeaders (getHash : CBlockHeader → Uint256) (params : ConsensusParams) (env : Env) (s : ChainstateManager)
    (headers : List CBlockHeader) : ChainstateManager :=
  headers.foldl (fun s header => (s.acceptBlockHeader getHash params env header true).1) s

end ChainstateManager

variable (params env) in
theorem acceptHeaders_extends {s : ChainstateManager} (W : Wf getHash genesis s) (headers : List CBlockHeader) :
    Wf getHash genesis (s.acceptHeaders getHash params env headers) ∧
    Extends s.blockIndex (s.acceptHeaders getHash params env headers).blockIndex := by
  unfold ChainstateManager.acceptHeaders
  refine List.foldlRecOn (motive := fun v => Wf getHash genesis v ∧ Extends s.blockIndex v.blockIndex) headers _
    ⟨W, Extends.refl s.blockIndex⟩ (fun u hu header _ => ?_)
  refine ChainstateManager.acceptBlockHeader_induct
    (P := fun v => Wf getHash genesis v ∧ Extends s.blockIndex v.blockIndex)
    (fun v o c hv => ⟨hv.1.withPool o c, hv.2⟩) (fun v header minPow hv => ?_) hu header true
  rcases acceptOne_cases params env hv.1 header minPow with ⟨state, h⟩ | ⟨h, -⟩ | ⟨v', b, h, -, -, hins⟩ <;> rw [h]
  · exact hv
  · exact hv
  · exact ⟨hins.wf hv.1, hv.2.trans hins.extends⟩

end

theorem mapM_getBlockProof (headers : List CBlockHeader) : ∃ proofs,
    headers.mapM (fun header => BaseUint.getBlockProof header.nBits) = some proofs ∧
    proofs.map BaseUint.toNat = headers.map (fun header => proofOf header.nBits) := by
  induction headers with
  | nil => exact ⟨[], rfl, rfl⟩
  | cons header rest ih =>
    obtain ⟨p, hp, hpn⟩ := getBlockProof_eq header.nBits
    obtain ⟨proofs, hproofs, hmap⟩ := ih
    refine ⟨p :: proofs, ?_, ?_⟩
    · rw [List.mapM_cons, hp, hproofs]
      rfl
    · rw [List.map_cons, hpn, hmap, List.map_cons]

/-- `GetBlockProof` is the quotient of `2 ^ 256`, `CalculateHeadersWork` its sum over a batch, and a
batch of new blocks that is accepted in any reachable state adds that sum to the work of its parent. -/
theorem work_computations_agree :
    (∀ nBits : BitVec 32, ∃ p, BaseUint.getBlockProof nBits = some p ∧ p.toNat =
      if (BaseUint.setCompact nBits).negative = false ∧ (BaseUint.setCompact nBits).overflow = false ∧
          (BaseUint.setCompact nBits).value.toNat ≠ 0 then 2 ^ 256 / ((BaseUint.setCompact nBits).value.toNat + 1)
      else 0) ∧
    (∀ headers : List CBlockHeader, ∃ w proofs, BaseUint.calculateHeadersWork headers = some w ∧
      headers.mapM (fun header => BaseUint.getBlockProof header.nBits) = some proofs ∧
      w.toNat = (proofs.map BaseUint.toNat).sum % 2 ^ 256) ∧
    (∀ (getHash : CBlockHeader → Uint256) (params : ConsensusParams) (env : Env) (skipPow : Bool)
      (s : ChainstateManager) (first : CBlockHeader) (rest : List CBlockHeader),
      Run.Reaches (ChainstateManager.step getHash params) (fun _ _ => True) (ChainstateManager.fresh skipPow) s →
      checkHeadersAreContinuous getHash (first :: rest) = true → first.hashPrevBlock ∈ s.blockIndex →
      (∀ header ∈ first :: rest, getHash header ∉ s.blockIndex) →
      (∀ header ∈ first :: rest, ∃ b,
        (s.acceptHeaders getHash params env (first :: rest)).blockIndex[getHash header]? = some b ∧
          b.getBlockHeader = header) →
      ∃ w, BaseUint.calculateHeadersWork (first :: rest) = some w ∧
        ((s.acceptHeaders getHash params env (first :: rest)).blockIndex.nChainWork
          (getHash ((first :: rest).getLast (List.cons_ne_nil first rest)))).toNat =
            ((s.blockIndex.nChainWork first.hashPrevBlock).toNat + w.toNat) % 2 ^ 256) := by
  refine ⟨getBlockProof_eq, fun headers => ?_,
    fun getHash params env skipPow s first rest hrun hcont hprev hnew hacc => ?_⟩
  · obtain ⟨w, hw, hwn⟩ := calculateHeadersWork_eq headers
    obtain ⟨proofs, hproofs, hmap⟩ := mapM_getBlockProof headers
    exact ⟨w, proofs, hw, hproofs, by rw [hwn, hmap]⟩
  · obtain ⟨w, hw, hwn⟩ := calculateHeadersWork_eq (first :: rest)
    refine ⟨w, hw, ?_⟩
    rcases reaches_blank_or_inUse hrun with hblank | ⟨genesis, W⟩
    · exact absurd (hblank.get first.hashPrevBlock) (by rw [Std.ExtTreeMap.getElem?_eq_some_getElem hprev]; simp)
    · obtain ⟨W', hext⟩ := acceptHeaders_extends params env W (first :: rest)
      have hold : ∀ header ∈ first :: rest,
          HoldsHeader getHash (s.acceptHeaders getHash params env (first :: rest)).blockIndex header := by
        intro header hmem
        obtain ⟨b, hb, hheader⟩ := hacc header hmem
        refine ⟨b, hb, hheader, fun hroot => hnew header hmem ?_⟩
        rw [(W'.tree.root _ b hb hroot).1]
        exact W.tree.genesis_mem
      rw [nChainWork_chain W'.tree first rest hcont hold, hext.nChainWork _ hprev, hwn, Nat.add_mod_mod]

theorem work_computations_agree_nonce :
    ∃ w, BaseUint.calculateHeadersWork [nonceHeader 1 2, nonceHeader 2 3] = some w ∧
      (((ChainstateManager.step nonceHash nonceParams (ChainstateManager.fresh false)
        (.setup (nonceHeader 0 1))).acceptHeaders nonceHash nonceParams {}
          [nonceHeader 1 2, nonceHeader 2 3]).blockIndex.nChainWork 3).toNat = (2 + w.toNat) % 2 ^ 256 :=
  work_computations_agree.2.2 nonceHash nonceParams {} false _ (nonceHeader 1 2) [nonceHeader 2 3]
    (.next .start trivial) (by decide) (by decide +kernel) (by decide +kernel) (by
      intro header hmem
      rcases List.mem_pair.mp hmem with rfl | rfl
      · exact ⟨_, rfl, by decide +kernel⟩
      · exact ⟨_, rfl, by decide +kernel⟩)

end UnicityPow
