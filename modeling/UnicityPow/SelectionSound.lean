import UnicityPow.ExpirationSound

/-!
# What `ActivateBestChain` selects

One round tries the first valid candidate: it stops, refuses the candidate for good, or makes it
the tip. The loop ends after at most as many rounds as there are candidates, at the first one
that the policy admits.
-/

namespace UnicityPow

open Forest BlockMap

namespace ChainstateManager

/-- `p` is the first valid candidate. -/
structure IsFirst (s : ChainstateManager) (p : BlockPtr) : Prop where
  mem : p ∈ s.candidates
  valid : s.blockIndex.isValid p = true
  first : ∀ q ∈ s.candidates, s.blockIndex.isValid q = true → q = p ∨ workBefore s.blockIndex p q = true

/-- A valid candidate with more work than the tip that forks off less deep than the policy
bounds, if it does. -/
structure Admissible (params : ConsensusParams) (s : ChainstateManager) (old p : BlockPtr) : Prop where
  mem : p ∈ s.candidates
  valid : s.blockIndex.isValid p = true
  work : s.blockIndex.nChainWork old < s.blockIndex.nChainWork p
  depth : 0 < params.nSuspiciousReorgDepth → ∃ f, IsFork s.blockIndex.pprev old p f ∧
    s.blockIndex.nHeight old - s.blockIndex.nHeight f < params.nSuspiciousReorgDepth

/-- The tip moves to the first admissible candidate or, when there is none, stays; what came
before it, or has more work than the tip that stays, is out of the set. Nothing else changes. -/
structure Selected (params : ConsensusParams) (s : ChainstateManager) (old : BlockPtr) (s' : ChainstateManager) :
    Prop where
  frame : s' =
    { s with
      activeChain := s'.activeChain
      candidates := s'.candidates }
  fewer : s'.candidates.Sublist s.candidates
  outcome :
    (∃ p, Admissible params s old p ∧
      (∀ q, Admissible params s old q → q = p ∨ workBefore s.blockIndex p q = true) ∧ s'.getTip = some p ∧
      ∀ q ∈ s.candidates, s.blockIndex.isValid q = true → workBefore s.blockIndex q p = true → q ∉ s'.candidates) ∨
    ((∀ q, ¬ Admissible params s old q) ∧ s'.activeChain = s.activeChain ∧
      ∀ q ∈ s.candidates, s.blockIndex.isValid q = true →
        s.blockIndex.nChainWork old < s.blockIndex.nChainWork q → q ∉ s'.candidates)

end ChainstateManager

open ChainstateManager

section
variable {getHash : CBlockHeader → Uint256} {params : ConsensusParams} {genesis old p q : BlockPtr}
  {s s' : ChainstateManager}

/-! ## One round -/

theorem ChainstateManager.IsFirst.work (h : s.IsFirst p) (hq : q ∈ s.candidates) (hv : s.blockIndex.isValid q = true) :
    s.blockIndex.nChainWork q ≤ s.blockIndex.nChainWork p := by
  rcases h.first q hq hv with rfl | hb
  · exact BitVec.le_refl _
  · exact workBefore_work hb

theorem ChainstateManager.IsFirst.unique (h : s.IsFirst p) (h' : s.IsFirst q) : p = q := by
  have hlt := workBefore_strictTotal s.blockIndex
  rcases h.first q h'.mem h'.valid with rfl | hb
  · rfl
  · rcases h'.first p h.mem h.valid with rfl | hb'
    · rfl
    · have := hlt.trans _ _ _ hb hb'
      rw [hlt.irrefl] at this
      cases this

theorem resolveCandidate_first (W : Wf getHash genesis s) :
    ∃ l, l.Sublist s.candidates ∧ (∀ q ∈ s.candidates, s.blockIndex.isValid q = true → q ∈ l) ∧
      ((s.resolveCandidate none = ({ s with candidates := l }, none) ∧
          ∀ q ∈ s.candidates, s.blockIndex.isValid q = false) ∨
        ∃ p, s.resolveCandidate none = ({ s with candidates := l }, some p) ∧ s.IsFirst p) := by
  obtain ⟨l, he, hsub, hmem, hv, hbest⟩ := resolveCandidate_spec s
  refine ⟨l, hsub, hmem, ?_⟩
  cases hl : l.head? with
  | none =>
    refine .inl ⟨by rw [he, hl], fun q hq => ?_⟩
    rw [← Bool.not_eq_true]
    intro hqv
    have := hmem q hq hqv
    rw [List.head?_eq_none_iff.mp hl] at this
    exact List.not_mem_nil this
  | some p =>
    exact .inr ⟨p, by rw [he, hl], hsub.subset (List.mem_of_mem_head? hl), hv p hl, hbest W.sorted p hl⟩

variable (params) in
theorem activateBestChainStep_noWork (hold : s.getTip = some old)
    (hw : s.blockIndex.nChainWork p ≤ s.blockIndex.nChainWork old) :
    (activateBestChainStep params s p).result = .OK := by
  unfold activateBestChainStep
  rw [hold]
  simp only [hw, if_true]
  split <;> rfl

section
variable {s1 : ChainstateManager} (he : s.resolveCandidate none = (s1, some p)) (htip : s1.getTip ≠ some p)
  (hexp : pastExpiration params s1.blockIndex p = false)
include he htip hexp

theorem activateLoop_ok (hr : (activateBestChainStep params s1 p).result = .OK) (fuel : Nat) (sent : List Notification) :
    activateLoop params (fuel + 1) s none sent = ((activateBestChainStep params s1 p).state, true,
      sent ++ (activateBestChainStep params s1 p).immediate ++ (activateBestChainStep params s1 p).events) := by
  unfold activateLoop
  simp only [he, htip, hexp, hr, Bool.false_eq_true, if_false]

theorem activateLoop_refused (hr : (activateBestChainStep params s1 p).result = .POLICY_REFUSED) (fuel : Nat)
    (sent : List Notification) :
    activateLoop params (fuel + 1) s none sent =
      activateLoop params fuel ((activateBestChainStep params s1 p).state.dropCandidate p) none
        (sent ++ (activateBestChainStep params s1 p).immediate) := by
  rw [activateLoop]
  simp only [he, htip, hexp, hr, Bool.false_eq_true, if_false]

end

variable (params) in
/-- The rounds of the loop: no valid candidate has more work than the tip; or the first one lies
past the expiration; or the policy refuses it, and the loop goes on without it; or it becomes
the tip. -/
theorem activateLoop_round (W : Wf getHash genesis s) (hold : s.getTip = some old) :
    ∃ l, l.Sublist s.candidates ∧ (∀ q ∈ s.candidates, s.blockIndex.isValid q = true → q ∈ l) ∧
      (((∀ q ∈ s.candidates, s.blockIndex.isValid q = true →
            s.blockIndex.nChainWork q ≤ s.blockIndex.nChainWork old) ∧
          ∀ fuel sent, activateLoop params (fuel + 1) s none sent = ({ s with candidates := l }, true, sent)) ∨
        (∃ p, s.IsFirst p ∧ pastExpiration params s.blockIndex p = true ∧
          ∀ fuel sent, activateLoop params (fuel + 1) s none sent = ({ s with candidates := l }, false,
            sent ++ [.networkExpired (s.blockIndex.nHeight p) params.nNetworkExpirationInterval])) ∨
        (∃ p f im, s.IsFirst p ∧ pastExpiration params s.blockIndex p = false ∧
          s.blockIndex.nChainWork old < s.blockIndex.nChainWork p ∧ IsFork s.blockIndex.pprev old p f ∧
          suspiciousReorg params s.blockIndex old f = true ∧
          ∀ fuel sent, activateLoop params (fuel + 1) s none sent =
            activateLoop params fuel (dropCandidate { s with candidates := l } p) none (sent ++ im)) ∨
        ∃ p f s' es, s.IsFirst p ∧ pastExpiration params s.blockIndex p = false ∧
          s.blockIndex.nChainWork old < s.blockIndex.nChainWork p ∧ IsFork s.blockIndex.pprev old p f ∧
          suspiciousReorg params s.blockIndex old f = false ∧ Switched { s with candidates := l } p s' ∧
          ∀ fuel sent, activateLoop params (fuel + 1) s none sent = (s', true, sent ++ es)) := by
  obtain ⟨l, hsub, hmem, hres⟩ := resolveCandidate_first W
  refine ⟨l, hsub, hmem, ?_⟩
  have W1 := W.sublistCandidates hsub
  have hold1 : ({ s with candidates := l } : ChainstateManager).getTip = some old := hold
  rcases hres with ⟨he, hnone⟩ | ⟨p, he, hfirst⟩
  · refine .inl ⟨fun q hq hv => ?_, fun fuel sent => ?_⟩
    · rw [hnone q hq] at hv
      cases hv
    · unfold activateLoop
      rw [he]
  · by_cases htip : old = p
    · subst htip
      refine .inl ⟨fun q hq hv => hfirst.work hq hv, fun fuel sent => ?_⟩
      unfold activateLoop
      rw [he]
      simp only [hold1, if_true]
    · have htip' : ({ s with candidates := l } : ChainstateManager).getTip ≠ some p := by
        rw [hold1]
        simpa using htip
      cases hexp : pastExpiration params s.blockIndex p with
      | true =>
        refine .inr (.inl ⟨p, hfirst, hexp, fun fuel sent => ?_⟩)
        unfold activateLoop
        rw [he]
        simp only [htip', hexp, if_true, if_false]
      | false =>
        rcases activateBestChainStep_cases params W1 hold1 (W.candidates p hfirst.mem) with
          ⟨hs, hw⟩ | ⟨f, im, hs, -, hfork, hsus⟩ | ⟨f, hok, hfork, hsus, hwork, hsw, -⟩
        · refine .inl ⟨fun q hq hv => BitVec.le_trans (hfirst.work hq hv) hw, fun fuel sent => ?_⟩
          rw [activateLoop_ok he htip' hexp (by rw [hs]), hs]
          simp only [List.append_nil]
        · refine .inr (.inr (.inl ⟨p, f, im, hfirst, hexp, ?_, hfork, hsus, fun fuel sent => ?_⟩))
          · rw [← BitVec.not_le]
            intro hw
            have := activateBestChainStep_noWork params hold1 hw
            rw [hs] at this
            cases this
          · rw [activateLoop_refused he htip' hexp (by rw [hs]), hs]
        · have hrun := activateLoop_ok he htip' hexp hok
          simp only [List.append_assoc] at hrun
          exact .inr (.inr (.inr ⟨p, f, _, _, hfirst, hexp, hwork, hfork, hsus, hsw, hrun⟩))

/-! ## The loop -/

theorem dropCandidate_length (hp : p ∈ s.candidates) :
    (s.dropCandidate p).candidates.length < s.candidates.length :=
  List.length_filter_lt_length_iff_exists.mpr
    ⟨p, hp, by simp [(OrderedSet.equiv_iff (workBefore_strictTotal s.blockIndex)).mpr rfl]⟩

theorem suspiciousReorg_iff {m : BlockMap} {f : BlockPtr} : suspiciousReorg params m old f = true ↔
    0 < params.nSuspiciousReorgDepth ∧ params.nSuspiciousReorgDepth ≤ m.nHeight old - m.nHeight f := by
  unfold suspiciousReorg
  rw [Bool.and_eq_true, decide_eq_true_eq, decide_eq_true_eq]
  rfl

theorem not_admissible_of_suspicious (T : TreeShape s.blockIndex genesis) {f : BlockPtr}
    (hfork : IsFork s.blockIndex.pprev old p f) (hsus : suspiciousReorg params s.blockIndex old f = true) :
    ¬ Admissible params s old p := by
  intro h
  obtain ⟨hd, hle⟩ := suspiciousReorg_iff.mp hsus
  obtain ⟨g, hg, hlt⟩ := h.depth hd
  rw [hg.unique T.ranked hfork] at hlt
  omega

theorem admissible_of_not_suspicious (hfirst : s.IsFirst p) (hw : s.blockIndex.nChainWork old < s.blockIndex.nChainWork p)
    {f : BlockPtr} (hfork : IsFork s.blockIndex.pprev old p f)
    (hsus : suspiciousReorg params s.blockIndex old f = false) : Admissible params s old p := by
  refine ⟨hfirst.mem, hfirst.valid, hw, fun hd => ⟨f, hfork, ?_⟩⟩
  rw [← Bool.not_eq_true, suspiciousReorg_iff] at hsus
  omega

/-- A round that refuses its candidate leaves the choice to the rest. -/
theorem ChainstateManager.Selected.of_refused {l : List BlockPtr} (hl : l.Sublist s.candidates)
    (hmem : ∀ q ∈ s.candidates, s.blockIndex.isValid q = true → q ∈ l) (hno : ¬ Admissible params s old p)
    (h : Selected params (dropCandidate { s with candidates := l } p) old s') : Selected params s old s' := by
  have hdrop : ∀ q, q ∈ (dropCandidate { s with candidates := l } p).candidates ↔ q ∈ l ∧ q ≠ p :=
    fun q => mem_dropCandidate
  have hsub : (dropCandidate { s with candidates := l } p).candidates.Sublist s.candidates :=
    List.filter_sublist.trans hl
  have hadm : ∀ q, Admissible params (dropCandidate { s with candidates := l } p) old q ↔ Admissible params s old q := by
    refine fun q => ⟨fun hq => ⟨hsub.subset hq.mem, hq.valid, hq.work, hq.depth⟩, fun hq => ?_⟩
    exact ⟨(hdrop q).mpr ⟨hmem q hq.mem hq.valid, fun e => hno (e ▸ hq)⟩, hq.valid, hq.work, hq.depth⟩
  -- a candidate that is out of the smaller set, or in it and dropped later, is out
  have hout : ∀ q ∈ s.candidates, s.blockIndex.isValid q = true →
      (q ∈ (dropCandidate { s with candidates := l } p).candidates → q ∉ s'.candidates) → q ∉ s'.candidates := by
    intro q hq hv hlater hin
    exact hlater (h.fewer.subset hin) hin
  refine ⟨h.frame, h.fewer.trans hsub, ?_⟩
  rcases h.outcome with ⟨p', hp', hfirst, htip, hgone⟩ | ⟨hnone, hchain, hgone⟩
  · exact .inl ⟨p', (hadm p').mp hp', fun q hq => hfirst q ((hadm q).mpr hq), htip,
      fun q hq hv hb => hout q hq hv (fun hin => hgone q hin hv hb)⟩
  · exact .inr ⟨fun q hq => hnone q ((hadm q).mpr hq), hchain,
      fun q hq hv hw => hout q hq hv (fun hin => hgone q hin hv hw)⟩

theorem activateLoop_selects (hexp : params.nNetworkExpirationInterval ≤ 0) : ∀ (fuel : Nat) (s : ChainstateManager)
    (sent : List Notification), Wf getHash genesis s → s.getTip = some old → s.candidates.length < fuel →
      (activateLoop params fuel s none sent).2.1 = true ∧
        Selected params s old (activateLoop params fuel s none sent).1 := by
  intro fuel
  induction fuel with
  | zero => exact fun s _ _ _ hlen => absurd hlen (Nat.not_lt_zero _)
  | succ fuel ih =>
    intro s sent W hold hlen
    obtain ⟨l, hsub, hmem, hround⟩ := activateLoop_round params W hold
    rcases hround with ⟨hbest, he⟩ | ⟨p, -, hpast, -⟩ | ⟨p, f, im, hfirst, -, -, hfork, hsus, he⟩ |
      ⟨p, f, s', es, hfirst, -, hw, hfork, hsus, hsw, he⟩
    · -- no valid candidate has more work than the tip
      rw [he]
      refine ⟨rfl, rfl, hsub, .inr ⟨fun q hq => ?_, rfl, fun q hq hv hw => ?_⟩⟩
      · exact BitVec.not_lt.mpr (hbest q hq.mem hq.valid) hq.work
      · exact absurd hw (BitVec.not_lt.mpr (hbest q hq hv))
    · simp only [pastExpiration, Bool.and_eq_true, decide_eq_true_eq] at hpast
      omega
    · rw [he]
      have hlt := dropCandidate_length (s := { s with candidates := l }) (hmem p hfirst.mem hfirst.valid)
      have := hsub.length_le
      simp only [] at hlt
      obtain ⟨hok, hsel⟩ := ih _ (sent ++ im) ((W.sublistCandidates hsub).dropCandidate p) hold (by omega)
      exact ⟨hok, hsel.of_refused hsub hmem (not_admissible_of_suspicious W.tree.toTreeShape hfork hsus)⟩
    · rw [he]
      refine ⟨rfl, hsw.frame, hsw.fewer.trans hsub, .inl ⟨p, admissible_of_not_suspicious hfirst hw hfork hsus,
        fun q hq => hfirst.first q hq.mem hq.valid, hsw.getTip, fun q hq hv hb => ?_⟩⟩
      have hlt := workBefore_strictTotal s.blockIndex
      rcases hfirst.first q hq hv with rfl | hb'
      · rw [hlt.irrefl] at hb
        cases hb
      · have := hlt.trans _ _ _ hb hb'
        rw [hlt.irrefl] at this
        cases this

/-- The loop takes no more rounds than there are candidates, and one to see that none is left. -/
theorem activateLoop_fuel : ∀ (fuel : Nat) (s : ChainstateManager) (sent : List Notification), Wf getHash genesis s →
    s.getTip = some old → s.candidates.length < fuel →
      activateLoop params (fuel + 1) s none sent = activateLoop params fuel s none sent := by
  intro fuel
  induction fuel with
  | zero => exact fun s _ _ _ hlen => absurd hlen (Nat.not_lt_zero _)
  | succ fuel ih =>
    intro s sent W hold hlen
    obtain ⟨l, hsub, hmem, hround⟩ := activateLoop_round params W hold
    rcases hround with ⟨-, he⟩ | ⟨p, -, -, he⟩ | ⟨p, f, im, hfirst, -, -, -, -, he⟩ | ⟨p, f, s', es, -, -, -, -, -, -, he⟩
    · rw [he, he]
    · rw [he, he]
    · rw [he, he]
      have hlt := dropCandidate_length (s := { s with candidates := l }) (hmem p hfirst.mem hfirst.valid)
      have := hsub.length_le
      simp only [] at hlt
      exact ih _ (sent ++ im) ((W.sublistCandidates hsub).dropCandidate p) hold (by omega)
    · rw [he, he]

/-- In every state that any calls reach, and with the expiration off, the call ends after at
most one round for each candidate, answers `true` and selects the first admissible candidate,
whatever depth the policy bounds. -/
theorem activateBestChain_selects {skipPow : Bool}
    (hrun : Run.Reaches (step getHash params) (fun _ _ => True) (fresh skipPow) s)
    (hexp : params.nNetworkExpirationInterval ≤ 0) :
    (∀ fuel, s.candidates.length < fuel → activateLoop params fuel s none [] = activateBestChain params s none) ∧
    (activateBestChain params s none).2.1 = true ∧
    (s.getTip = none → (activateBestChain params s none).1 = s) ∧
    ∀ old, s.getTip = some old → Selected params s old (activateBestChain params s none).1 := by
  rcases reaches_blank_or_inUse hrun with h | ⟨genesis, W⟩
  · have hstop : ∀ fuel, activateLoop params (fuel + 1) s none [] = (s, true, []) := by
      intro fuel
      obtain ⟨bm, ⟨cs, best⟩, o, c, f, l, t⟩ := s
      cases h.candidates
      rfl
    refine ⟨fun fuel hfuel => ?_, congrArg (fun r => r.2.1) (hstop _), fun _ => h.activateBestChain, fun old hold => ?_⟩
    · obtain ⟨n, rfl⟩ : ∃ n, fuel = n + 1 := ⟨fuel - 1, by omega⟩
      exact (hstop n).trans (hstop _).symm
    · have hnone : s.getTip = none := by
        unfold BlockManager.getTip
        rw [h.manager]
        rfl
      rw [hnone] at hold
      cases hold
  · obtain ⟨tip, -, htip, -⟩ := W.tip_exists
    have hsel := activateLoop_selects hexp _ s [] W htip (Nat.lt_add_of_pos_right (by decide : 0 < 2))
    refine ⟨fun fuel hfuel => ?_, hsel.1, fun hnone => ?_, fun old hold => ?_⟩
    · have hall : ∀ n, s.candidates.length < n →
          activateLoop params n s none [] = activateLoop params (s.candidates.length + 1) s none [] := by
        intro n hn
        induction n, hn using Nat.le_induction with
        | base => rfl
        | succ n hn ih => rw [activateLoop_fuel n s [] W htip hn, ih]
      exact (hall fuel hfuel).trans (hall _ (by omega)).symm
    · rw [htip] at hnone
      cases hnone
    · rw [htip] at hold
      cases hold
      exact hsel.2

/-! ## The block at the expiration -/

/-- A valid block not past the expiration, with the most work of those. -/
structure IsBestWithin (params : ConsensusParams) (m : BlockMap) (p : BlockPtr) : Prop where
  valid : m.isValid p = true
  within : m.nHeight p ≤ params.nNetworkExpirationInterval
  best : ∀ q, m.isValid q = true → m.nHeight q ≤ params.nNetworkExpirationInterval →
    m.nChainWork q ≤ m.nChainWork p

/-- With an expiration and no policy, the call makes the first valid candidate the tip, if that
does not lie past the expiration. So while some valid block within it has more work than the
tip, the tip moves to the best of them if and only if that one is the first valid candidate. -/
theorem activation_reaches_expiration {skipPow : Bool}
    (hrun : Run.Reaches (step getHash params) (fun _ _ => True) (fresh skipPow) s)
    (hpol : params.nSuspiciousReorgDepth ≤ 0) {old : BlockPtr} (hold : s.getTip = some old)
    (hmore : ∃ q, s.blockIndex.isValid q = true ∧ s.blockIndex.nHeight q ≤ params.nNetworkExpirationInterval ∧
      s.blockIndex.nChainWork old < s.blockIndex.nChainWork q) :
    (∃ p, (activateBestChain params s none).1.getTip = some p ∧
        IsBestWithin params (activateBestChain params s none).1.blockIndex p) ↔
      ∃ p, s.IsFirst p ∧ IsBestWithin params s.blockIndex p := by
  obtain ⟨genesis, W⟩ : InUse getHash s := by
    refine (reaches_blank_or_inUse hrun).resolve_left (fun h => ?_)
    have : s.getTip = none := by
      unfold BlockManager.getTip
      rw [h.manager]
      rfl
    rw [this] at hold
    cases hold
  rw [activateBestChain_index params W none (fun _ h => by cases h)]
  have hnot : ¬ IsBestWithin params s.blockIndex old := by
    intro h
    obtain ⟨q, hv, hh, hw⟩ := hmore
    exact BitVec.not_lt.mpr (h.best q hv hh) hw
  obtain ⟨l, hsub, hmem, hround⟩ := activateLoop_round params W hold
  unfold activateBestChain
  rcases hround with ⟨hbest, he⟩ | ⟨p, hfirst, hpast, he⟩ | ⟨p, f, im, -, -, -, -, hsus, -⟩ |
    ⟨p, f, s', es, hfirst, -, -, -, -, hsw, he⟩
  · rw [he]
    constructor
    · rintro ⟨p, hp, hb⟩
      rw [show s.getTip = some p from hp] at hold
      cases hold
      exact absurd hb hnot
    · rintro ⟨p, hfirst, hb⟩
      obtain ⟨q, hv, hh, hw⟩ := hmore
      have := BitVec.le_trans (hb.best q hv hh) (hbest p hfirst.mem hfirst.valid)
      exact absurd hw (BitVec.not_lt.mpr this)
  · rw [he]
    simp only [pastExpiration, Bool.and_eq_true, decide_eq_true_eq] at hpast
    constructor
    · rintro ⟨p', hp, hb⟩
      rw [show s.getTip = some p' from hp] at hold
      cases hold
      exact absurd hb hnot
    · rintro ⟨p', hfirst', hb⟩
      obtain rfl := hfirst.unique hfirst'
      have := hb.within
      omega
  · have := (suspiciousReorg_iff.mp hsus).1
    omega
  · rw [he]
    constructor
    · rintro ⟨p', hp, hb⟩
      obtain rfl : p = p' := Option.some.inj (hsw.getTip.symm.trans hp)
      exact ⟨p, hfirst, hb⟩
    · rintro ⟨p', hfirst', hb⟩
      obtain rfl := hfirst.unique hfirst'
      exact ⟨p, hsw.getTip, hb⟩

end

/-- One block above genesis, not activated yet. -/
def pendingBlock : ChainstateManager :=
  step nonceHash nonceParams (step nonceHash nonceParams (fresh false) (.setup (nonceHeader 0 1)))
    (.acceptAndTryAdd {} (nonceHeader 1 2) true)

theorem pendingBlock_reaches :
    Run.Reaches (step nonceHash nonceParams) (fun _ _ => True) (fresh false) pendingBlock :=
  .next (.next .start trivial) trivial

theorem activateBestChain_selects_nonce :
    (activateBestChain nonceParams pendingBlock none).2.1 = true ∧
      Selected nonceParams pendingBlock 1 (activateBestChain nonceParams pendingBlock none).1 := by
  have h := activateBestChain_selects pendingBlock_reaches (by decide)
  exact ⟨h.2.1, h.2.2.2 1 (by decide +kernel)⟩

/-- Headers 2 and 3 in one batch: 3 lies past the expiration and has replaced its parent among
the candidates. -/
def batchPastExpiration : ChainstateManager :=
  step nonceHash expiringParams (step nonceHash expiringParams (step nonceHash expiringParams (fresh false)
    (.setup (nonceHeader 0 1))) (.acceptAndTryAdd {} (nonceHeader 1 2) true)) (.acceptAndTryAdd {} (nonceHeader 2 3) true)

theorem batchPastExpiration_reaches :
    Run.Reaches (step nonceHash expiringParams) (fun _ _ => True) (fresh false) batchPastExpiration :=
  .next (.next (.next .start trivial) trivial) trivial

theorem activation_reaches_expiration_nonce :
    (∃ p, (activateBestChain expiringParams batchPastExpiration none).1.getTip = some p ∧
        IsBestWithin expiringParams (activateBestChain expiringParams batchPastExpiration none).1.blockIndex p) ↔
      ∃ p, batchPastExpiration.IsFirst p ∧ IsBestWithin expiringParams batchPastExpiration.blockIndex p :=
  activation_reaches_expiration batchPastExpiration_reaches (by decide) (show _ = some 1 by decide +kernel)
    ⟨2, by decide +kernel⟩

/-- The call is refused for header 3, and the tip stays on genesis. -/
theorem expiration_block_missed :
    ¬ ∀ (s : ChainstateManager) (old : BlockPtr),
      Run.Reaches (step nonceHash expiringParams) (fun _ _ => True) (fresh false) s → s.getTip = some old →
      (∃ q, s.blockIndex.isValid q = true ∧ s.blockIndex.nHeight q ≤ expiringParams.nNetworkExpirationInterval ∧
        s.blockIndex.nChainWork old < s.blockIndex.nChainWork q) →
      ∃ p, (activateBestChain expiringParams s none).1.getTip = some p ∧
        IsBestWithin expiringParams (activateBestChain expiringParams s none).1.blockIndex p := by
  intro h
  obtain ⟨p, hp, hb⟩ := h batchPastExpiration 1 batchPastExpiration_reaches (by decide +kernel) ⟨2, by decide +kernel⟩
  have htip : (activateBestChain expiringParams batchPastExpiration none).1.getTip = some 1 := by decide +kernel
  obtain rfl : 1 = p := Option.some.inj (htip.symm.trans hp)
  have := hb.best 2 (by decide +kernel) (by decide +kernel)
  exact absurd this (by decide +kernel)

end UnicityPow
