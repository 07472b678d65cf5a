import UnicityPow.TreeSound

/-!
# What `InvalidateBlock` marks, and what it leaves to select from

The statuses, the tip and the answer follow from the block alone. The candidates do not: the
parent of a block of the active chain enters the set unchecked.
-/

namespace UnicityPow

open Forest BlockMap

namespace ChainstateManager

/-- The block fails validation and its proper descendants fail through it; the tip is the parent
of a block of the active chain, and stays otherwise. -/
structure Marks (s : ChainstateManager) (hash : BlockPtr) (r : ChainstateManager × Bool × List Notification) :
    Prop where
  answer : r.2.1 = true
  tipKept : s.activeChain.contains s.blockIndex hash = false → r.1.getTip = s.getTip
  tipParent : s.activeChain.contains s.blockIndex hash = true → r.1.getTip = s.blockIndex.pprev hash
  block : ∀ b, s.blockIndex[hash]? = some b →
    r.1.blockIndex[hash]? = some { b with status := { b.status with failure := FailureState.VALIDATION_FAILED } }
  descendant : ∀ (p : BlockPtr) (b : CBlockIndex), p ≠ hash → Anc s.blockIndex.pprev hash p →
    s.blockIndex[p]? = some b →
    r.1.blockIndex[p]? = some { b with status := { b.status with failure := FailureState.ANCESTOR_FAILED } }
  other : ∀ p : BlockPtr, ¬ Anc s.blockIndex.pprev hash p → r.1.blockIndex[p]? = s.blockIndex[p]?

def NoFailedCandidate (s : ChainstateManager) : Prop := ∀ x ∈ s.candidates, s.blockIndex.isFailed x = false

end ChainstateManager

open ChainstateManager

section
variable {getHash : CBlockHeader → Uint256} {params : ConsensusParams} {genesis hash : BlockPtr} {s s' : ChainstateManager}

/-! ## Statuses -/

theorem descendsFrom_iff (W : Wf getHash genesis s) {p : BlockPtr} (hp : p ∈ s.blockIndex) :
    descendsFrom s.blockIndex hash p = true ↔ p ≠ hash ∧ Anc s.blockIndex.pprev hash p := by
  unfold descendsFrom
  rw [Bool.and_eq_true, W.tree.toTreeShape.descendsFrom_iff hp, bne_iff_ne]

theorem Invalidated.entry (h : Invalidated s hash s') (p : BlockPtr) :
    s'.blockIndex[p]? = s.blockIndex[p]?.map (markEntry s.blockIndex hash p) := by
  rw [h.index, Std.ExtTreeMap.getElem?_map]

theorem Invalidated.marks (W : Wf getHash genesis s) (h : Invalidated s hash s') (events : List Notification) :
    Marks s hash (s', true, events) := by
  obtain ⟨tip, -, ht, -⟩ := W.tip_exists
  have hcon := W.contains_iff ht (p := hash)
  refine ⟨rfl, fun hoff => ?_, fun hon => ?_, fun b hb => ?_, fun p b hne hanc hb => ?_, fun p hna => ?_⟩
  · rw [← Bool.not_eq_true, hcon] at hoff
    rcases h.chain tip ht with ⟨-, hc, -⟩ | ⟨hanc, -⟩
    · exact congrArg CChain.tip hc
    · exact absurd hanc hoff
  · rcases h.chain tip ht with ⟨hna, -⟩ | ⟨-, q, hq, hpath, -⟩
    · exact absurd (hcon.mp hon) hna
    · rw [hq]
      exact hpath.tip_eq
  · rw [h.entry, hb]
    simp [markEntry, BlockStatus.markFailed]
  · rw [h.entry, hb]
    simp [markEntry, hne, (descendsFrom_iff W (mem_of_get hb)).mpr ⟨hne, hanc⟩, BlockStatus.markAncestorFailed]
  · rw [h.entry]
    cases hb : s.blockIndex[p]? with
    | none => rfl
    | some b =>
      have hne : p ≠ hash := fun e => hna (e ▸ .refl)
      have hnd : descendsFrom s.blockIndex hash p ≠ true := fun hd =>
        hna ((descendsFrom_iff W (mem_of_get hb)).mp hd).2
      simp [markEntry, hne, hnd]

/-! ## Candidates -/

theorem Invalidated.isFailed_off (W : Wf getHash genesis s) (h : Invalidated s hash s') {p : BlockPtr}
    (hp : p ∈ s.blockIndex) (hna : ¬ Anc s.blockIndex.pprev hash p) :
    s'.blockIndex.isFailed p = s.blockIndex.isFailed p := by
  rw [Bool.eq_iff_iff, h.isFailed_iff W hp, or_iff_left hna]

/-- The failed candidates that are left were candidates before, or are the parent. -/
theorem CandidatesLeft.noFailed_iff (W : Wf getHash genesis s) (h : Invalidated s hash s')
    (hleft : CandidatesLeft s hash s') :
    NoFailedCandidate s' ↔
      (∀ x ∈ s.candidates, ¬ Anc s.blockIndex.pprev hash x → s.blockIndex.isFailed x = false) ∧
      (s.activeChain.contains s.blockIndex hash = true →
        ∀ q, s.blockIndex.pprev hash = some q → s.blockIndex.isFailed q = false) := by
  have T := W.tree.toTreeShape
  have hparent : ∀ q, s.blockIndex.pprev hash = some q →
      s'.blockIndex.isFailed q = s.blockIndex.isFailed q := by
    intro q hq
    refine h.isFailed_off W (T.mem_parent hq) (fun hanc => ?_)
    have := hanc.rank_le T.ranked
    have := T.ranked _ _ hq
    omega
  constructor
  · intro hno
    refine ⟨fun x hx hna => ?_, fun hon q hq => ?_⟩
    · rw [← h.isFailed_off W (W.candidates x hx) hna]
      exact hno x (hleft.kept x hx hna)
    · rw [← hparent q hq]
      exact hno q (hleft.parent q hon hq)
  · rintro ⟨hold, hpar⟩ x hx
    rcases hleft.only x hx with hv | ⟨hx, hna⟩ | ⟨hon, hq⟩
    · exact isFailed_of_isValid hv
    · rw [h.isFailed_off W (W.candidates x hx) hna]
      exact hold x hx hna
    · rw [hparent x hq]
      exact hpar hon x hq

/-! ## Every reachable state -/

/-- In every state that any calls reach from a new manager: an unknown hash and genesis are
refused without a change; any other block is marked with its descendants and the tip cut back to
its parent, and no failed block is left among the candidates if and only if none off its
descendants was there before and, on the active chain, its parent is not failed. -/
theorem invalidateBlock_effect {skipPow : Bool}
    (hrun : Run.Reaches (step getHash params) (fun _ _ => True) (fresh skipPow) s) (hash : Uint256) :
    (hash ∉ s.blockIndex ∨ s.blockIndex.nHeight hash = 0 → s.invalidateBlock hash = (s, false, [])) ∧
    (hash ∈ s.blockIndex → s.blockIndex.nHeight hash ≠ 0 → Marks s hash (s.invalidateBlock hash) ∧
      (NoFailedCandidate (s.invalidateBlock hash).1 ↔
        (∀ x ∈ s.candidates, ¬ Anc s.blockIndex.pprev hash x → s.blockIndex.isFailed x = false) ∧
        (s.activeChain.contains s.blockIndex hash = true →
          ∀ q, s.blockIndex.pprev hash = some q → s.blockIndex.isFailed q = false))) := by
  rcases reaches_blank_or_inUse hrun with h | ⟨genesis, W⟩
  · have hnone : hash ∉ s.blockIndex := fun hm => by simpa [h.get] using mem_iff.mp hm
    refine ⟨fun _ => ?_, fun hm => absurd hm hnone⟩
    rw [invalidateBlock, h.get]
  · have T := W.tree.toTreeShape
    rcases invalidateBlock_spec W hash with ⟨he, hwhy⟩ | ⟨s', events, he, hm, hng, -, hinv, -, hleft⟩
    · refine ⟨fun _ => he, fun hm h0 => ?_⟩
      rcases hwhy with hnot | rfl
      · exact absurd hm hnot
      · exact absurd T.nHeight_genesis h0
    · refine ⟨fun hwhy => ?_, fun _ _ => ?_⟩
      · rcases hwhy with hnot | h0
        · exact absurd hm hnot
        · exact absurd (T.genesis_of_height hm h0) hng
      · rw [he]
        exact ⟨hinv.marks W events, hleft.noFailed_iff W hinv⟩

end

/-! ## A failed parent -/

/-- Headers 2 and 3 above genesis, 2 invalidated, and 3, which failed with it, activated. -/
def failedTip : ChainstateManager :=
  step nonceHash nonceParams (step nonceHash nonceParams (step nonceHash nonceParams (step nonceHash nonceParams
    (step nonceHash nonceParams (fresh false) (.setup (nonceHeader 0 1)))
      (.processNewBlockHeader {} (nonceHeader 1 2) true)) (.processNewBlockHeader {} (nonceHeader 2 3) true))
        (.invalidateBlock 2)) (.activateBestChain (some 3))

theorem failedTip_reaches :
    Run.Reaches (step nonceHash nonceParams) (fun _ _ => True) (fresh false) failedTip :=
  .next (.next (.next (.next (.next .start trivial) trivial) trivial) trivial) trivial

theorem invalidateBlock_effect_nonce : Marks failedTip 3 (failedTip.invalidateBlock 3) :=
  ((invalidateBlock_effect failedTip_reaches 3).2 (by decide +kernel) (by decide +kernel)).1

/-- Invalidating 3 makes its failed parent a candidate. -/
theorem failed_parent_offered :
    ¬ ∀ (s : ChainstateManager) (hash : Uint256),
      Run.Reaches (step nonceHash nonceParams) (fun _ _ => True) (fresh false) s → hash ∈ s.blockIndex →
      s.blockIndex.nHeight hash ≠ 0 →
      Marks s hash (s.invalidateBlock hash) ∧ NoFailedCandidate (s.invalidateBlock hash).1 := by
  intro h
  have hno := (h failedTip 3 failedTip_reaches (by decide +kernel) (by decide +kernel)).2
  have := hno 2 (by decide +kernel)
  exact absurd this (by decide +kernel)

end UnicityPow
