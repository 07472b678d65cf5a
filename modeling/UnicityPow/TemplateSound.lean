import UnicityPow.MinerSound

/-!
# What is mined is accepted

A template repeats what `ContextualCheckBlockHeader` will look up, and the mining mode of
`CheckProofOfWork` computes what the other modes compare.
-/

namespace UnicityPow

/-! ## Templates -/

theorem medianTime_nonneg {l : List Int} (h : ∀ x ∈ l, 0 ≤ x) : 0 ≤ medianTime l := by
  unfold medianTime
  cases hx : (l.insertionSort (· ≤ ·))[l.length / 2]? with
  | none => exact le_rfl
  | some x => exact h x ((List.mem_insertionSort (· ≤ ·)).mp (List.mem_of_getElem? hx))

theorem getMedianTimePast_nonneg (m : BlockMap) (p : BlockPtr) : 0 ≤ m.getMedianTimePast p := by
  refine medianTime_nonneg fun x hx => ?_
  obtain ⟨header, -, rfl⟩ := List.mem_map.mp hx
  exact Int.natCast_nonneg _

/-- What stays of a template while its time and nonce move. -/
structure MadeFrom (params : PowParams) (view : MinerView) (w : MinerWorker) : Prop where
  bits : getNextWorkRequired params view.blockIndex view.tip = some w.localTemplate.header.nBits
  nBits : w.localTemplate.nBits = w.localTemplate.header.nBits
  version : w.localTemplate.header.nVersion = 1
  late : ∀ p, view.tip = some p → view.blockIndex.getMedianTimePast p < 2 ^ 32 - 1 →
    view.blockIndex.getMedianTimePast p < w.localTemplate.header.nTime.toNat

variable {params : PowParams} {view : MinerView}

theorem MadeFrom.create {w : MinerWorker} (h : MinerWorker.create params view = some w) :
    MadeFrom params view w := by
  unfold MinerWorker.create at h
  obtain ⟨tmpl, htmpl, rfl⟩ := Option.map_eq_some_iff.mp h
  unfold createBlockTemplate at htmpl
  obtain ⟨nBits, hbits, rfl⟩ := Option.map_eq_some_iff.mp htmpl
  refine ⟨hbits, rfl, rfl, fun p hp hmtp => ?_⟩
  have hnonneg := getMedianTimePast_nonneg view.blockIndex p
  simp only [hp, Option.map_some]
  split
  · rw [BitVec.toNat_ofInt]
    omega
  · omega

/-- One more second is later still, since the time does not wrap below a bound. -/
theorem toNat_succ_time {t bound : BitVec 32} (h : t < bound) : (t + 1).toNat = t.toNat + 1 := by
  have := bound.isLt
  rw [BitVec.lt_def] at h
  rw [BitVec.toNat_add, show (1 : BitVec 32).toNat = 1 from rfl, Nat.mod_eq_of_lt (by omega)]

theorem MadeFrom.attempt {w w' : MinerWorker} {r : MinerRound} (h : MadeFrom params view w)
    (hnext : (w.attempt params r).1 = some w') (hno : MinerEvent.template ∉ (w.attempt params r).2) :
    MadeFrom params view w' := by
  obtain ⟨hbits, hnBits, hversion, hlate⟩ := h
  revert hnext hno
  unfold MinerWorker.attempt
  dsimp only
  split
  · exact fun hnext => by cases hnext
  · split
    · rintro ⟨⟩ -
      exact ⟨hbits, hnBits, hversion, hlate⟩
    · split
      · exact fun hnext => by cases hnext
      · exact fun _ hno => absurd (by simp) hno
  · split
    · rintro ⟨⟩ -
      exact ⟨hbits, hnBits, hversion, hlate⟩
    · split
      · rename_i htime
        rintro ⟨⟩ -
        refine ⟨hbits, hnBits, hversion, fun p hp hmtp => ?_⟩
        have hlater := hlate p hp hmtp
        have hsucc : (w.header.nTime + 1).toNat = w.localTemplate.header.nTime.toNat + 1 := toNat_succ_time htime
        change _ < (((w.header.nTime + 1).toNat : Nat) : Int)
        rw [hsucc]
        omega
      · exact fun _ hno => absurd (by simp) hno

/-- The states of the worker since its template was made of a view. -/
inductive WorksOn (params : PowParams) (view : MinerView) : MinerWorker → Prop
  | create {w : MinerWorker} : MinerWorker.create params view = some w → WorksOn params view w
  | next {w w' : MinerWorker} {r : MinerRound} : WorksOn params view w → (w.iteration params r).1 = some w' →
    MinerEvent.template ∉ (w.iteration params r).2 → WorksOn params view w'

theorem WorksOn.madeFrom {w : MinerWorker} (h : WorksOn params view w) : MadeFrom params view w := by
  induction h with
  | create h => exact .create h
  | @next w w' r _ hnext hno ih =>
    rcases w.iteration_cases params r with ⟨-, h⟩ | ⟨-, h⟩ | ⟨-, w0, -, h⟩ | ⟨-, -, h⟩
    · rw [h] at hnext; cases hnext
    · rw [h] at hnext; cases hnext
    · rw [h] at hno
      exact absurd List.mem_cons_self hno
    · rw [h] at hnext hno
      exact ih.attempt hnext hno

/-- Of the contextual checks only the one on the future can fail. -/
theorem MadeFrom.contextualCheck {w : MinerWorker} (h : MadeFrom params view w) {p : BlockPtr}
    (hp : view.tip = some p)
    (hmtp : view.blockIndex.getMedianTimePast p < 2 ^ 32 - 1) (nonce : BitVec 32) (adjusted_time : Int) :
    contextualCheckBlockHeader params view.blockIndex { w.localTemplate.header with nNonce := nonce } (some p)
        adjusted_time = some (.ok ()) ∨
      ∃ message, contextualCheckBlockHeader params view.blockIndex { w.localTemplate.header with nNonce := nonce }
        (some p) adjusted_time = some (.error (.invalid "time-too-new" message)) := by
  have hbits := h.bits
  have hlate := h.late p hp hmtp
  rw [hp] at hbits
  unfold contextualCheckBlockHeader
  rw [hbits, Option.map_some, Option.map_some]
  unfold checkContext CBlockHeader.getBlockTime
  dsimp only
  rw [if_neg (by simp), if_neg (by simp; omega)]
  split
  · exact .inr ⟨_, rfl⟩
  · rw [if_neg (by rw [h.version]; decide)]
    exact .inl rfl

/-! ## The modes of the proof-of-work check -/

namespace RandomX

variable {rx : RandomX} {header : CBlockHeader} {nBits : BitVec 32} {hash : Uint256}

/-- What a successful attempt of the miner has computed. -/
theorem mining_some (h : rx.checkProofOfWork header nBits .MINING true = .ok (some hash)) :
    ((BaseUint.setCompact nBits).negative || (BaseUint.setCompact nBits).value.equalTo 0 ||
        (BaseUint.setCompact nBits).overflow) = false ∧
      rx.hash (getEpoch header.nTime rx.nRandomXEpochDuration) header.withoutHash = some hash ∧
      exceeds (rx.commitment header.withoutHash hash) (BaseUint.setCompact nBits).value = false := by
  unfold checkProofOfWork at h
  dsimp only at h
  split at h
  · cases h
  · rename_i hrange
    rw [if_neg (by simp), if_neg (by simp), if_neg (by decide)] at h
    split at h
    · cases h
    · rename_i rxHash hhash
      rw [if_neg (by simp)] at h
      split at h
      · cases h
      · rename_i htarget
        cases h
        exact ⟨by simpa using hrange, hhash, by simpa [getRandomXCommitment] using htarget⟩

/-- With its hash filled in, what was mined passes the other modes. -/
theorem mined_passes (h : rx.checkProofOfWork header nBits .MINING true = .ok (some hash)) (hne : hash ≠ 0)
    {mode : POWVerifyMode} (hmode : mode ≠ .MINING) (outHash : Bool) :
    rx.checkProofOfWork { header with hashRandomX := hash } nBits mode outHash = .ok (some hash) := by
  obtain ⟨hrange, hhash, htarget⟩ := mining_some h
  have hcommitment : exceeds (rx.getRandomXCommitment { header with hashRandomX := hash } none)
      (BaseUint.setCompact nBits).value = false := htarget
  have hagain : rx.hash (getEpoch header.nTime rx.nRandomXEpochDuration)
      (CBlockHeader.withoutHash { header with hashRandomX := hash }) = some hash := hhash
  unfold checkProofOfWork
  dsimp only
  rw [if_neg (by rw [hrange]; decide), if_neg (by simp [hmode]),
    if_neg (by rw [hcommitment]; simpa using fun _ => hne)]
  split
  · rfl
  · rw [hagain]
    simp

end RandomX

/-- The header of a template, with any nonce and whatever time the miner gives it, fails no contextual
check on its tip but the one on the future. A header that the miner's check accepts with a hash that is not
null passes the other two modes with that hash. -/
theorem miner_agrees_with_validator (params : PowParams) (rx : RandomX) (view : MinerView) (w : MinerWorker)
    (h : WorksOn params view w) (nonce : BitVec 32) :
    (∀ p, view.tip = some p → view.blockIndex.getMedianTimePast p < 2 ^ 32 - 1 → ∀ adjusted_time,
      contextualCheckBlockHeader params view.blockIndex { w.localTemplate.header with nNonce := nonce } (some p)
          adjusted_time = some (.ok ()) ∨
        ∃ message, contextualCheckBlockHeader params view.blockIndex { w.localTemplate.header with nNonce := nonce }
          (some p) adjusted_time = some (.error (.invalid "time-too-new" message))) ∧
    ∀ hash, rx.checkProofOfWork { w.localTemplate.header with nNonce := nonce } w.localTemplate.nBits .MINING true =
        .ok (some hash) → hash ≠ 0 →
      ∀ outHash, rx.checkProofOfWork { w.localTemplate.header with nNonce := nonce, hashRandomX := hash }
          w.localTemplate.header.nBits .COMMITMENT_ONLY outHash = .ok (some hash) ∧
        rx.checkProofOfWork { w.localTemplate.header with nNonce := nonce, hashRandomX := hash }
          w.localTemplate.header.nBits .FULL outHash = .ok (some hash) := by
  have hmade := h.madeFrom
  refine ⟨fun p hp hmtp adjusted_time => hmade.contextualCheck hp hmtp nonce adjusted_time,
    fun hash hmined hne outHash => ?_⟩
  rw [hmade.nBits] at hmined
  exact ⟨RandomX.mined_passes hmined hne (by decide) outHash, RandomX.mined_passes hmined hne (by decide) outHash⟩

/-- A chain of one block. -/
def oneBlockView : MinerView where
  blockIndex := (∅ : BlockMap).insert 1 (CBlockIndex.ofHeader { nTime := 5 })
  tip := some 1
  time := 1000

/-- Every commitment meets every target. -/
def easyRandomX : RandomX where
  nRandomXEpochDuration := 3600
  hash _ _ := some 7
  commitment _ _ := 0

theorem miner_agrees_with_validator_oneBlock :
    ∃ w, MinerWorker.create regtestPow oneBlockView = some w ∧
      (contextualCheckBlockHeader regtestPow oneBlockView.blockIndex
          { w.localTemplate.header with nNonce := 9 } (some 1) 2000 = some (.ok ()) ∨
        ∃ message, contextualCheckBlockHeader regtestPow oneBlockView.blockIndex
          { w.localTemplate.header with nNonce := 9 } (some 1) 2000 =
            some (.error (.invalid "time-too-new" message))) ∧
      easyRandomX.checkProofOfWork { w.localTemplate.header with nNonce := 9, hashRandomX := 7 }
        w.localTemplate.header.nBits .FULL false = .ok (some 7) := by
  obtain ⟨w, hw⟩ : ∃ w, MinerWorker.create regtestPow oneBlockView = some w :=
    Option.isSome_iff_exists.mp (by decide +kernel)
  have hmtp : oneBlockView.blockIndex.getMedianTimePast 1 < 2 ^ 32 - 1 := by decide +kernel
  have hmined : easyRandomX.checkProofOfWork { w.localTemplate.header with nNonce := 9 } w.localTemplate.nBits
      .MINING true = .ok (some 7) := by
    have hmade := MadeFrom.create hw
    have hbits : w.localTemplate.nBits = 553713663 := by
      have hwork : getNextWorkRequired regtestPow oneBlockView.blockIndex oneBlockView.tip = some 553713663 := by
        decide +kernel
      rw [hmade.nBits, ← Option.some.injEq, ← hmade.bits, hwork]
    have htarget : RandomX.exceeds 0#256 (BaseUint.setCompact 553713663#32).value = false := by decide +kernel
    have hrange : ((BaseUint.setCompact 553713663).negative || (BaseUint.setCompact 553713663).value.equalTo 0 ||
        (BaseUint.setCompact 553713663).overflow) = false := by decide +kernel
    rw [hbits]
    unfold RandomX.checkProofOfWork
    dsimp only
    rw [hrange]
    simp [easyRandomX, RandomX.getRandomXCommitment, htarget]
  have h := miner_agrees_with_validator regtestPow easyRandomX oneBlockView w (.create hw) 9
  exact ⟨w, hw, h.1 1 rfl hmtp 2000, (h.2 7 hmined (by decide) false).2⟩

end UnicityPow
