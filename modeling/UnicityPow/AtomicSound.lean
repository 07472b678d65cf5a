import UnicityPow.TreeSound

/-!
# A refused header leaves no trace

`AcceptBlockHeader` changes the state only when it inserts. The block it answers with is
in the index and unfailed from then on, whatever its orphans do, so a second call finds it there.
-/

namespace UnicityPow

open BlockMap ChainstateManager

section
variable {getHash : CBlockHeader → Uint256} {params : ConsensusParams} {genesis : BlockPtr} {s : ChainstateManager}

/-! ## Known headers -/

/-- The header is in the index, and not failed. -/
def KnownHeader (getHash : CBlockHeader → Uint256) (header : CBlockHeader) (s : ChainstateManager) : Prop :=
  getHash header ∈ s.blockIndex ∧ s.blockIndex.isFailed (getHash header) = false

variable (params) in
theorem KnownHeader.acceptBlockHeader {env : Env} {header : CBlockHeader} (h : KnownHeader getHash header s)
    (minPow : Bool) :
    s.acceptBlockHeader getHash params env header minPow = (s, .ok (getHash header)) := by
  obtain ⟨b, hb⟩ := mem_iff.mp h.1
  have hf := h.2
  rw [isFailed_of_get hb] at hf
  have hone : s.acceptOne getHash params env header minPow = (s, .known (getHash header)) := by
    unfold acceptOne
    simp only [hb, hf, Bool.false_eq_true, if_false]
  unfold ChainstateManager.acceptBlockHeader
  rw [hone]

theorem KnownHeader.inserted {env : Env} {header other : CBlockHeader} {s' : ChainstateManager} {b : CBlockIndex}
    (h : KnownHeader getHash header s) (hins : Inserted getHash genesis env s other s' b) :
    KnownHeader getHash header s' :=
  ⟨hins.extends.mem _ h.1, by rw [hins.isFailed_old]; exact h.2⟩

theorem Inserted.known {env : Env} {header : CBlockHeader} {s' : ChainstateManager} {b : CBlockIndex}
    (hins : Inserted getHash genesis env s header s' b) : KnownHeader getHash header s' :=
  ⟨mem_of_get hins.get, by rw [isFailed_of_get hins.get, CBlockIndex.isFailed_of_isValid hins.isValid]⟩

theorem processOrphanHeaders_known {env : Env} {header : CBlockHeader} (W : Wf getHash genesis s)
    (h : KnownHeader getHash header s) (fuel : Nat) (parent : Uint256) :
    KnownHeader getHash header (processOrphanHeaders getHash params env fuel s parent) := by
  refine (processOrphanHeaders_induct (P := fun t => Wf getHash genesis t ∧ KnownHeader getHash header t)
    (fun t o c ht => ⟨ht.1.withPool o c, ht.2⟩) (fun t other ht => ⟨ht.1.acceptOne other true, ?_⟩)
    fuel s parent ⟨W, h⟩).2
  rcases acceptOne_cases params env ht.1 other true with ⟨st, he⟩ | ⟨he, -⟩ | ⟨t', b, he, -, -, hins⟩
  · rw [he]; exact ht.2
  · rw [he]; exact ht.2
  · rw [he]; exact ht.2.inserted hins

/-! ## The two exits -/

variable (params) in
/-- Either nothing changed, or the header was new and is known from now on. -/
theorem acceptBlockHeader_exits (W : Wf getHash genesis s) (env : Env) (header : CBlockHeader) (minPow : Bool) :
    (s.acceptBlockHeader getHash params env header minPow).1 = s ∧
      ((∃ state, (s.acceptBlockHeader getHash params env header minPow).2 = .error state) ∨
        (s.acceptBlockHeader getHash params env header minPow).2 = .ok (getHash header) ∧
          KnownHeader getHash header s) ∨
    getHash header ∉ s.blockIndex ∧
      (s.acceptBlockHeader getHash params env header minPow).2 = .ok (getHash header) ∧
      KnownHeader getHash header (s.acceptBlockHeader getHash params env header minPow).1 := by
  rcases acceptOne_cases params env W header minPow with ⟨st, he⟩ | ⟨he, hm, hf⟩ | ⟨s', b, he, -, -, hins⟩
  · left
    unfold ChainstateManager.acceptBlockHeader
    rw [he]
    exact ⟨rfl, .inl ⟨st, rfl⟩⟩
  · left
    rw [KnownHeader.acceptBlockHeader params ⟨hm, hf⟩ minPow]
    exact ⟨rfl, .inr ⟨rfl, hm, hf⟩⟩
  · right
    unfold ChainstateManager.acceptBlockHeader
    rw [he]
    exact ⟨hins.isNew, rfl, processOrphanHeaders_known (hins.wf W) hins.known _ _⟩

/-- In every state that any calls reach from a new manager, a header that is refused or already
indexed changes nothing, and an accepted one is answered again with the same block and no
change, at any later time and whatever else is asked of it. -/
theorem acceptBlockHeader_atomic {skipPow : Bool}
    (hrun : Run.Reaches (step getHash params) (fun _ _ => True) (fresh skipPow) s) (env : Env) (header : CBlockHeader)
    (minPow : Bool) :
    ((∃ state, (s.acceptBlockHeader getHash params env header minPow).2 = .error state) →
      (s.acceptBlockHeader getHash params env header minPow).1 = s) ∧
    (∀ p, (s.acceptBlockHeader getHash params env header minPow).2 = .ok p → p ∈ s.blockIndex →
      (s.acceptBlockHeader getHash params env header minPow).1 = s) ∧
    (∀ p env' minPow', (s.acceptBlockHeader getHash params env header minPow).2 = .ok p →
      (s.acceptBlockHeader getHash params env header minPow).1.acceptBlockHeader getHash params env' header minPow' =
        ((s.acceptBlockHeader getHash params env header minPow).1, .ok p)) := by
  rcases reaches_blank_or_inUse hrun with h | ⟨genesis, W⟩
  · obtain ⟨st, he⟩ := h.acceptBlockHeader getHash params env header minPow
    rw [he]
    exact ⟨fun _ => rfl, fun p hp => (by cases hp), fun p _ _ hp => (by cases hp)⟩
  · rcases acceptBlockHeader_exits params W env header minPow with
      ⟨hs, ⟨st, he⟩ | ⟨he, hk⟩⟩ | ⟨hnew, he, hk⟩
    · rw [hs, he]
      exact ⟨fun _ => rfl, fun _ _ _ => rfl, fun p _ _ hp => (by cases hp)⟩
    · rw [hs, he]
      refine ⟨fun _ => rfl, fun _ _ _ => rfl, fun p env' minPow' hp => ?_⟩
      cases hp
      exact hk.acceptBlockHeader params minPow'
    · rw [he]
      refine ⟨fun ⟨st, h⟩ => (by cases h), fun p hp hm => ?_, fun p env' minPow' hp => ?_⟩
      · cases hp
        exact absurd hm hnew
      · cases hp
        exact hk.acceptBlockHeader params minPow'

end

theorem acceptBlockHeader_atomic_nonce :
    ∃ s, s = step nonceHash nonceParams (fresh false) (.setup (nonceHeader 0 1)) ∧
      (s.acceptBlockHeader nonceHash nonceParams {} (nonceHeader 1 2) true).2 = .ok 2 ∧
      ((s.acceptBlockHeader nonceHash nonceParams {} (nonceHeader 1 2) true).1.acceptBlockHeader nonceHash nonceParams
        {} (nonceHeader 1 2) false).2 = .ok 2 := by
  refine ⟨_, rfl, by decide +kernel, ?_⟩
  rw [(acceptBlockHeader_atomic (.next .start trivial) {} (nonceHeader 1 2) true).2.2 2 {} false (by decide +kernel)]

end UnicityPow
