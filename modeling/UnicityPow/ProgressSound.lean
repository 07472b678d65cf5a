import UnicityPow.BestChainSound
import UnicityPow.DeliverySound
import UnicityPow.ServeSound

/-!
# Progress of header synchronisation

A requester asks from its own tip, so a round that leaves its tip and its index alone asks for
the same headers again. The rounds that do are exactly those whose batch is skipped, or holds
known headers only and does not move the tip to a block with another parent.
-/

namespace UnicityPow

open Forest BlockMap

/-! ## What a request depends on -/

section
variable {getHash : CBlockHeader → Uint256} {params : ConsensusParams} {genesis : BlockPtr}
  {c c' : ChainstateManager}

theorem locatorWalk_extends (m : BlockMap) : ∀ (fuel : Nat) (index : Option BlockPtr) (step : Int) (acc : List Uint256),
    acc <+: locatorWalk m fuel index step acc
  | 0, _, _, _ => List.prefix_rfl
  | _ + 1, none, _, _ => List.prefix_rfl
  | fuel + 1, some p, step, acc => by
    rw [locatorWalk]
    dsimp only
    split
    · exact List.prefix_append acc [p]
    · exact (List.prefix_append acc [p]).trans (locatorWalk_extends m fuel _ _ _)

theorem locatorEntries_head (m : BlockMap) (p : BlockPtr) : (locatorEntries m (some p)).head? = some p := by
  unfold locatorEntries
  rw [locatorWalk]
  dsimp only
  split
  · rfl
  · obtain ⟨l, hl⟩ := locatorWalk_extends m ((m.nHeight p).toNat) (m.getAncestor p (max (m.nHeight p - 1) 0))
      (if 10 < ([] ++ [p] : List Uint256).length then toInt32 (1 * 2) else 1) ([] ++ [p])
    exact hl ▸ rfl

/-- In one index, requests differ exactly when they start with different blocks. -/
theorem getLocatorFromPrev_eq_iff {tip tip' : BlockPtr} (htip : c.getTip = some tip) (htip' : c'.getTip = some tip')
    (hindex : c'.blockIndex = c.blockIndex) :
    c'.getLocatorFromPrev = c.getLocatorFromPrev ↔ c'.requestStart tip' = c.requestStart tip := by
  rw [getLocatorFromPrev_eq htip, getLocatorFromPrev_eq htip', hindex]
  constructor
  · intro h
    have hhead := congrArg List.head? h
    rw [locatorEntries_head, locatorEntries_head] at hhead
    exact Option.some.inj hhead
  · intro h
    rw [h]

/-! ## Activation with the reorganisation policy off -/

/-- The first valid candidate in the order of the set. -/
def IsFirstValid (m : BlockMap) (candidates : List BlockPtr) (p : BlockPtr) : Prop :=
  p ∈ candidates ∧ m.isValid p = true ∧
    ∀ q ∈ candidates, m.isValid q = true → q = p ∨ workBefore m p q = true

variable (params) in
theorem activateBestChain_tip (W : Wf getHash genesis c) (hpol : params.nSuspiciousReorgDepth ≤ 0) {old : BlockPtr}
    (hold : c.getTip = some old) :
    (∃ p, IsFirstValid c.blockIndex c.candidates p ∧ c.blockIndex.nChainWork old < c.blockIndex.nChainWork p ∧
      ChainstateManager.pastExpiration params c.blockIndex p = false ∧
      (ChainstateManager.activateBestChain params c none).1.getTip = some p) ∨
    ((∀ p, IsFirstValid c.blockIndex c.candidates p → c.blockIndex.nChainWork p ≤ c.blockIndex.nChainWork old ∨
        ChainstateManager.pastExpiration params c.blockIndex p = true) ∧
      (ChainstateManager.activateBestChain params c none).1.getTip = some old) := by
  obtain ⟨l, he, hsub, hmem, hv, hbest⟩ := resolveCandidate_spec c
  have hbest := hbest W.sorted
  have W1 := W.sublistCandidates hsub
  have hlt := workBefore_strictTotal c.blockIndex
  unfold ChainstateManager.activateBestChain ChainstateManager.activateLoop
  rw [he]
  cases hl : l.head? with
  | none =>
    refine .inr ⟨fun p hp => ?_, hold⟩
    have := hmem p hp.1 hp.2.1
    rw [List.head?_eq_none_iff.mp hl] at this
    exact absurd this List.not_mem_nil
  | some p =>
    have hpc : p ∈ c.candidates := hsub.subset (List.mem_of_mem_head? hl)
    have hfirst : IsFirstValid c.blockIndex c.candidates p := ⟨hpc, hv p hl, hbest p hl⟩
    have hunique : ∀ q, IsFirstValid c.blockIndex c.candidates q → q = p := by
      intro q hq
      rcases hq.2.2 p hpc hfirst.2.1 with h | h
      · exact h.symm
      rcases hfirst.2.2 q hq.1 hq.2.1 with h' | h'
      · exact h'
      · exact absurd (hlt.trans _ _ _ h h') (by rw [hlt.irrefl]; decide)
    have hstay : (c.blockIndex.nChainWork p ≤ c.blockIndex.nChainWork old ∨
        ChainstateManager.pastExpiration params c.blockIndex p = true) → ∀ q, IsFirstValid c.blockIndex c.candidates q →
        c.blockIndex.nChainWork q ≤ c.blockIndex.nChainWork old ∨
          ChainstateManager.pastExpiration params c.blockIndex q = true :=
      fun h q hq => hunique q hq ▸ h
    dsimp only
    split
    · rename_i htip
      have : old = p := by rw [show c.getTip = some p from htip] at hold; exact (Option.some.inj hold).symm
      subst this
      exact .inr ⟨hstay (.inl (BitVec.le_refl _)), hold⟩
    split
    · rename_i hexp
      exact .inr ⟨hstay (.inr hexp), hold⟩
    · rename_i hexp
      rcases activateBestChainStep_cases params W1 hold (W.candidates p hpc) with
        ⟨hst, hw⟩ | ⟨f, im, -, -, -, hsus⟩ | ⟨f, hok, -, -, hwork, hsw, -⟩
      · rw [hst]
        exact .inr ⟨hstay (.inl hw), hold⟩
      · have : ¬ (0 < params.nSuspiciousReorgDepth) := by omega
        simp [ChainstateManager.suspiciousReorg, this] at hsus
      · rw [hok]
        exact .inl ⟨p, hfirst, hwork, by simpa using hexp, hsw.getTip⟩

end

/-! ## Candidates from a batch -/

section
variable {getHash : CBlockHeader → Uint256} {params : ConsensusParams} {genesis : BlockPtr}
  {c : ChainstateManager} {l : List BlockPtr}

/-- A valid block without children, which `TryAddBlockIndexCandidate` makes a candidate. -/
def IsValidLeaf (m : BlockMap) (p : BlockPtr) : Prop := m.isValid p = true ∧ m.hasChildren p = false

/-- A candidate of the activation that follows a batch of the blocks `l`: a valid leaf of the
batch, or a candidate that no leaf of the batch replaces. -/
def Contends (c : ChainstateManager) (l : List BlockPtr) (p : BlockPtr) : Prop :=
  (p ∈ l ∧ IsValidLeaf c.blockIndex p) ∨
    (p ∈ c.candidates ∧ ∀ q ∈ l, IsValidLeaf c.blockIndex q → c.blockIndex.pprev q ≠ some p)

def ChainstateManager.tryAddCandidates (c : ChainstateManager) (l : List BlockPtr) : ChainstateManager :=
  l.foldl ChainstateManager.tryAddCandidate c

theorem tryAddCandidate_frame (c : ChainstateManager) (p : BlockPtr) :
    c.tryAddCandidate p = { c with candidates := (c.tryAddCandidate p).candidates } := by
  unfold ChainstateManager.tryAddCandidate
  rcases tryAdd_spec c.toChainSelector c.blockIndex p with ⟨-, he⟩ | ⟨-, -, l, he, -⟩ <;> rw [he]

theorem tryAddCandidates_frame (l : List BlockPtr) (c : ChainstateManager) :
    c.tryAddCandidates l = { c with candidates := (c.tryAddCandidates l).candidates } := by
  induction l generalizing c with
  | nil => rfl
  | cons p l ih =>
    change (c.tryAddCandidate p).tryAddCandidates l = { c with candidates := ((c.tryAddCandidate p).tryAddCandidates l).candidates }
    have h := ih (c.tryAddCandidate p)
    rw [h, tryAddCandidate_frame]

theorem Wf.tryAddCandidates (l : List BlockPtr) (W : Wf getHash genesis c) :
    Wf getHash genesis (c.tryAddCandidates l) :=
  List.foldlRecOn _ _ W (fun _ W p _ => W.tryAddCandidate p)

theorem mem_tryAddCandidates {p : BlockPtr} : ∀ {l : List BlockPtr} {c : ChainstateManager},
    p ∈ (c.tryAddCandidates l).candidates ↔ Contends c l p
  | [], c => by
    unfold ChainstateManager.tryAddCandidates Contends
    simp
  | q :: l, c => by
    have hindex : (c.tryAddCandidate q).blockIndex = c.blockIndex := rfl
    change p ∈ ((c.tryAddCandidate q).tryAddCandidates l).candidates ↔ _
    rw [mem_tryAddCandidates, Contends, Contends, mem_tryAddCandidate, hindex]
    by_cases hq : c.blockIndex.isValid q = true ∧ c.blockIndex.hasChildren q = false
    · rw [if_pos hq]
      constructor
      · rintro (⟨hp, hleaf⟩ | ⟨rfl | ⟨hp, hpq⟩, hl⟩)
        · exact .inl ⟨List.mem_cons_of_mem _ hp, hleaf⟩
        · exact .inl ⟨List.mem_cons_self, hq⟩
        · exact .inr ⟨hp, List.forall_mem_cons.mpr ⟨fun _ => hpq, hl⟩⟩
      · rintro (⟨hp, hleaf⟩ | ⟨hp, hl⟩)
        · rcases List.mem_cons.mp hp with rfl | hp
          · -- no block has the leaf as its parent
            refine .inr ⟨.inl rfl, fun r _ _ hr => ?_⟩
            have := hasChildren_iff.mpr ⟨r, hr⟩
            rw [hleaf.2] at this
            cases this
          · exact .inl ⟨hp, hleaf⟩
        · obtain ⟨hpq, hl⟩ := List.forall_mem_cons.mp hl
          exact .inr ⟨.inr ⟨hp, hpq hq⟩, hl⟩
    · rw [if_neg hq]
      constructor
      · rintro (⟨hp, hleaf⟩ | ⟨hp, hl⟩)
        · exact .inl ⟨List.mem_cons_of_mem _ hp, hleaf⟩
        · exact .inr ⟨hp, List.forall_mem_cons.mpr ⟨fun h => absurd h hq, hl⟩⟩
      · rintro (⟨hp, hleaf⟩ | ⟨hp, hl⟩)
        · rcases List.mem_cons.mp hp with rfl | hp
          · exact absurd hleaf hq
          · exact .inl ⟨hp, hleaf⟩
        · exact .inr ⟨hp, (List.forall_mem_cons.mp hl).2⟩

/-- The first valid contender after a batch of known blocks has more work than the tip, is within
the expiration, and has another parent than the tip. -/
def TurnsTip (params : ConsensusParams) (c : ChainstateManager) (l : List BlockPtr) : Prop :=
  ∃ tip p, c.getTip = some tip ∧ Contends c l p ∧ c.blockIndex.isValid p = true ∧
    (∀ q, Contends c l q → c.blockIndex.isValid q = true → q = p ∨ workBefore c.blockIndex p q = true) ∧
    c.blockIndex.nChainWork tip < c.blockIndex.nChainWork p ∧
    ChainstateManager.pastExpiration params c.blockIndex p = false ∧ c.requestStart p ≠ c.requestStart tip

/-- A batch of known blocks changes the request exactly when it turns the tip. -/
theorem request_changes_iff (W : Wf getHash genesis c) (hpol : params.nSuspiciousReorgDepth ≤ 0) :
    (ChainstateManager.activateBestChain params (c.tryAddCandidates l) none).1.getLocatorFromPrev ≠
      c.getLocatorFromPrev ↔ TurnsTip params c l := by
  obtain ⟨tip, -, htip, -⟩ := W.tip_exists
  have hframe := tryAddCandidates_frame l c
  have W1 := W.tryAddCandidates l
  have htip1 : (c.tryAddCandidates l).getTip = some tip := by rw [hframe]; exact htip
  have hindex : (c.tryAddCandidates l).blockIndex = c.blockIndex := by rw [hframe]
  have hindex' := activateBestChain_index params W1 none (fun _ h => by cases h)
  have hstart : ∀ q, (ChainstateManager.activateBestChain params (c.tryAddCandidates l) none).1.requestStart q =
      c.requestStart q := by
    intro q
    unfold ChainstateManager.requestStart
    rw [hindex', hindex]
  have hfirst : ∀ p, IsFirstValid c.blockIndex (c.tryAddCandidates l).candidates p ↔
      Contends c l p ∧ c.blockIndex.isValid p = true ∧
        ∀ q, Contends c l q → c.blockIndex.isValid q = true → q = p ∨ workBefore c.blockIndex p q = true := by
    intro p
    unfold IsFirstValid
    simp only [mem_tryAddCandidates]
  have hact := activateBestChain_tip params W1 hpol htip1
  rw [hindex] at hact
  rcases hact with ⟨p, hp, hwork, hexp, hnew⟩ | ⟨hnone, hold⟩
  · rw [not_iff_comm, getLocatorFromPrev_eq_iff htip hnew (hindex'.trans hindex), hstart]
    obtain ⟨hcont, hvalid, hbest⟩ := (hfirst p).mp hp
    constructor
    · intro hno
      by_contra hne
      exact hno ⟨tip, p, htip, hcont, hvalid, hbest, hwork, hexp, hne⟩
    · rintro heq ⟨tip', p', htip', hcont', hvalid', hbest', -, -, hne⟩
      rw [htip] at htip'
      cases htip'
      rcases hbest p' hcont' hvalid' with rfl | h
      · exact hne heq
      rcases hbest' p hcont hvalid with rfl | h'
      · exact hne heq
      · have hlt := workBefore_strictTotal c.blockIndex
        exact absurd (hlt.trans _ _ _ h h') (by rw [hlt.irrefl]; decide)
  · refine iff_of_false (fun hne => hne ?_) ?_
    · rw [getLocatorFromPrev_eq_iff htip hold (hindex'.trans hindex), hstart]
    · rintro ⟨tip', p, htip', hcont, hvalid, hbest, hwork, hexp, -⟩
      rw [htip] at htip'
      cases htip'
      rcases hnone p ((hfirst p).mpr ⟨hcont, hvalid, hbest⟩) with h | h
      · exact absurd hwork (BitVec.not_lt.mpr h)
      · rw [hexp] at h
        cases h

end

/-! ## The accept loop -/

section
variable {getHash : CBlockHeader → Uint256} {params : ConsensusParams} {env : Env} {genesis : BlockPtr}
  {c : ChainstateManager}

theorem acceptBlockHeader_known {header : CBlockHeader} (hm : getHash header ∈ c.blockIndex)
    (hf : c.blockIndex.isFailed (getHash header) = false) (minPowChecked : Bool) :
    c.acceptBlockHeader getHash params env header minPowChecked = (c, .ok (getHash header)) := by
  obtain ⟨b, hb⟩ := mem_iff.mp hm
  rw [isFailed_of_get hb] at hf
  unfold ChainstateManager.acceptBlockHeader ChainstateManager.acceptOne
  simp only [hb, hf, Bool.false_eq_true, if_false]

/-- A manager in use that has the block `q`. -/
def HasBlock (getHash : CBlockHeader → Uint256) (genesis q : BlockPtr) (c : ChainstateManager) : Prop :=
  Wf getHash genesis c ∧ q ∈ c.blockIndex

theorem HasBlock.acceptOne {q : BlockPtr} (h : HasBlock getHash genesis q c) (header : CBlockHeader) (minPowChecked : Bool) :
    HasBlock getHash genesis q (c.acceptOne getHash params env header minPowChecked).1 := by
  refine ⟨h.1.acceptOne header minPowChecked, ?_⟩
  rcases acceptOne_cases params env h.1 header minPowChecked with
    ⟨st, he⟩ | ⟨he, -⟩ | ⟨s', b, he, -, -, hins⟩ <;> rw [he]
  · exact h.2
  · exact h.2
  · exact hins.mem_iff.mpr (.inr h.2)

theorem HasBlock.acceptBlockHeader {q : BlockPtr} (h : HasBlock getHash genesis q c) (header : CBlockHeader)
    (minPowChecked : Bool) :
    HasBlock getHash genesis q (c.acceptBlockHeader getHash params env header minPowChecked).1 :=
  ChainstateManager.acceptBlockHeader_induct (fun _ o n h => ⟨h.1.withPool o n, h.2⟩)
    (fun _ header minPow h => h.acceptOne header minPow) h header minPowChecked

theorem hasBlock_kept (H : CBlockHeader → Prop) (q : BlockPtr) :
    KeptByCalls getHash params H (HasBlock getHash genesis q) :=
  .of_accept (fun _ _ h W hindex => ⟨W, hindex ▸ h.2⟩) (fun _ h => h.1)
    (fun _ _ header _ h => h.acceptBlockHeader header true)

variable (params) in
theorem acceptBlockHeader_passes (W : Wf getHash genesis c) (header : CBlockHeader) (hnew : getHash header ∉ c.blockIndex)
    (hpass : ChainstateManager.Passes env c header) :
    ∃ c', c.acceptBlockHeader getHash params env header true = (c', .ok (getHash header)) ∧
      HasBlock getHash genesis (getHash header) c' := by
  obtain ⟨c1, b, he, hins⟩ := acceptOne_passes params W hnew hpass
  unfold ChainstateManager.acceptBlockHeader
  rw [he]
  exact ⟨_, rfl, ChainstateManager.processOrphanHeaders_induct (fun _ o n h => ⟨h.1.withPool o n, h.2⟩)
    (fun _ orphan h => h.acceptOne orphan true) _ _ _ ⟨hins.wf W, hins.mem_iff.mpr (.inl rfl)⟩⟩

end

/-- What the requester finds of a batch whose headers it does not object to. -/
structure BatchFits (getHash : CBlockHeader → Uint256) (env : Env) (c : ChainstateManager) (first : CBlockHeader)
    (rest : List CBlockHeader) : Prop where
  prev_mem : first.hashPrevBlock ∈ c.blockIndex
  commitment : c.checkHeadersPoW env (first :: rest) = true
  continuous : checkHeadersAreContinuous getHash (first :: rest) = true
  unfailed : ∀ header ∈ first :: rest, c.blockIndex.isFailed (getHash header) = false
  passes : ∀ header ∈ first :: rest, getHash header ∉ c.blockIndex → header.hashPrevBlock ∈ c.blockIndex →
    ChainstateManager.Passes env c header

theorem BatchFits.congr {getHash : CBlockHeader → Uint256} {env : Env} {c c' : ChainstateManager} {first : CBlockHeader}
    {rest : List CBlockHeader} (h : BatchFits getHash env c first rest) (hindex : c'.blockIndex = c.blockIndex)
    (hskip : c'.testSkipPowChecks = c.testSkipPowChecks) : BatchFits getHash env c' first rest where
  prev_mem := by rw [hindex]; exact h.prev_mem
  commitment := by
    have hcommit := h.commitment
    unfold ChainstateManager.checkHeadersPoW at hcommit ⊢
    simp only [checkProofOfWork_congr _ hskip]
    exact hcommit
  continuous := h.continuous
  unfailed := by rw [hindex]; exact h.unfailed
  passes := by
    simp only [hindex, passes_congr hindex hskip]
    exact h.passes

namespace NetworkManager

section
variable {getHash : CBlockHeader → Uint256} {params : ConsensusParams} {env : NetEnv} {genesis : BlockPtr}
  {s : NetworkManager}

variable (params env) in
theorem acceptHeaders_known (peerId : Int) (skipDos : Bool) (rest : List CBlockHeader) :
    ∀ (l : List CBlockHeader) {s : NetworkManager},
    (∀ header ∈ l, getHash header ∈ s.chainstate.blockIndex ∧
      s.chainstate.blockIndex.isFailed (getHash header) = false) →
    acceptHeaders getHash params env peerId skipDos (l ++ rest) s =
      acceptHeaders getHash params env peerId skipDos rest
        { s with chainstate := s.chainstate.tryAddCandidates (l.map getHash) }
  | [], _, _ => rfl
  | header :: l, s, h => by
    obtain ⟨⟨hm, hf⟩, hl⟩ := List.forall_mem_cons.mp h
    rw [List.cons_append, acceptHeaders, acceptHeader, acceptBlockHeader_known hm hf]
    exact acceptHeaders_known peerId skipDos rest l hl

variable (params) in
theorem acceptHeaders_grows (W : Wf getHash genesis s.chainstate) (peerId : Int) (skipDos : Bool)
    {first : CBlockHeader} {rest : List CBlockHeader} (hfits : BatchFits getHash env.toEnv s.chainstate first rest)
    (hnew : ∃ header ∈ first :: rest, getHash header ∉ s.chainstate.blockIndex) :
    ∃ q ∉ s.chainstate.blockIndex, HasBlock getHash genesis q
      (acceptHeaders getHash params env peerId skipDos (first :: rest) s).1.chainstate := by
  -- the headers before the first unknown one only touch the candidates
  have hfind : ((first :: rest).find? (fun header => decide (getHash header ∉ s.chainstate.blockIndex))).isSome := by
    rw [List.find?_isSome]
    obtain ⟨header, hmem, hm⟩ := hnew
    exact ⟨header, hmem, decide_eq_true hm⟩
  obtain ⟨header, hheader⟩ := Option.isSome_iff_exists.mp hfind
  obtain ⟨hm, pre, post, hsplit, hpre⟩ := List.find?_eq_some_iff_append.mp hheader
  have hm := of_decide_eq_true hm
  have hpre : ∀ x ∈ pre, getHash x ∈ s.chainstate.blockIndex := fun x hx => by simpa using hpre x hx
  have hmem : ∀ x ∈ pre, x ∈ first :: rest := fun x hx => by simp [hsplit, hx]
  have hparent : header.hashPrevBlock ∈ s.chainstate.blockIndex := by
    rcases List.eq_nil_or_concat pre with rfl | ⟨l, a, rfl⟩
    · rw [List.nil_append] at hsplit
      cases hsplit
      exact hfits.prev_mem
    · have hcont := hfits.continuous
      rw [checkHeadersAreContinuous_iff, hsplit, List.concat_eq_append, List.append_assoc] at hcont
      rw [(List.isChain_append_cons_cons.mp hcont).2.1]
      exact hpre a (by simp)
  have hpass := hfits.passes header (by simp [hsplit]) hm hparent
  rw [hsplit, acceptHeaders_known _ _ peerId skipDos (header :: post) pre
    (fun x hx => ⟨hpre x hx, hfits.unfailed x (hmem x hx)⟩), acceptHeaders, acceptHeader]
  have hframe := tryAddCandidates_frame (pre.map getHash) s.chainstate
  have W1 := W.tryAddCandidates (pre.map getHash)
  obtain ⟨c', he, hhas⟩ := acceptBlockHeader_passes params W1 header (by rw [hframe]; exact hm)
    ((passes_congr (by rw [hframe]) (by rw [hframe])).mpr hpass)
  dsimp only
  rw [he]
  exact ⟨getHash header, hm, acceptHeaders_kept _ (hasBlock_kept (fun _ => True) (getHash header)) peerId skipDos
    (s := { s with chainstate := c'.tryAddCandidate (getHash header) }) (fun _ _ => trivial)
    ⟨hhas.1.tryAddCandidate _, hhas.2⟩⟩

/-! ## Progress of a round -/

/-- The message that `RequestHeadersFromPeer` sends next. -/
def nextRequest (s : NetworkManager) : GetHeadersMessage := ⟨PROTOCOL_VERSION, s.chainstate.getLocatorFromPrev, 0⟩

/-- The index has grown, or the next request is another one. -/
def Progress (s s' : NetworkManager) : Prop :=
  (∃ hash ∈ s'.chainstate.blockIndex, hash ∉ s.chainstate.blockIndex) ∨ s'.nextRequest ≠ s.nextRequest

/-- The same blocks and the same active chain. -/
structure SameBlocks (c c' : ChainstateManager) : Prop where
  index : c'.blockIndex = c.blockIndex
  chain : c'.activeChain = c.activeChain

variable (params env) in
theorem SameBlocks.latch (c : ChainstateManager) : SameBlocks c (c.isInitialBlockDownload params env.toEnv).1 := by
  rw [isInitialBlockDownload_frame]
  exact ⟨rfl, rfl⟩

theorem SameBlocks.nextRequest {s s' : NetworkManager} (h : SameBlocks s.chainstate s'.chainstate) :
    s'.nextRequest = s.nextRequest := by
  unfold NetworkManager.nextRequest ChainstateManager.getLocatorFromPrev ChainstateManager.getLocator
    BlockManager.getTip
  rw [h.index, h.chain]

theorem SameBlocks.progress_iff {s1 s s' : NetworkManager} (h : SameBlocks s1.chainstate s.chainstate) :
    Progress s s' ↔ Progress s1 s' := by
  unfold Progress
  rw [h.nextRequest, h.index]

theorem SameBlocks.not_progress {s s' : NetworkManager} (h : SameBlocks s.chainstate s'.chainstate) :
    ¬ Progress s s' := by
  unfold Progress
  rw [h.nextRequest, h.index]
  rintro (⟨hash, hm, hn⟩ | hne)
  · exact hn hm
  · exact hne rfl

variable (params env) in
theorem finishBatch_blocks (s : NetworkManager) (p : PeerPtr) :
    SameBlocks (ChainstateManager.activateBestChain params s.chainstate none).1 (s.finishBatch params env p).1.chainstate := by
  unfold finishBatch
  split <;> rename_i chain _ heq <;> rw [heq]
  · exact ⟨rfl, rfl⟩
  · have h := SameBlocks.latch params env chain
    dsimp only
    split
    · rw [requestHeadersFromPeer_chainstate]
      exact h
    · exact h

theorem acceptBatch_progress_iff (W : Wf getHash genesis s.chainstate) (hpol : params.nSuspiciousReorgDepth ≤ 0)
    (p : PeerPtr) (peerId : Int) (skipDos : Bool) {first : CBlockHeader} {rest : List CBlockHeader}
    (hfits : BatchFits getHash env.toEnv s.chainstate first rest) :
    Progress s (s.acceptBatch getHash params env p peerId skipDos (first :: rest)).1 ↔
      (∃ header ∈ first :: rest, getHash header ∉ s.chainstate.blockIndex) ∨
        TurnsTip params s.chainstate ((first :: rest).map getHash) := by
  unfold acceptBatch
  by_cases hnew : ∃ header ∈ first :: rest, getHash header ∉ s.chainstate.blockIndex
  · refine iff_of_true (.inl ?_) (.inl hnew)
    obtain ⟨q, hq, hhas⟩ := acceptHeaders_grows params (s := { s with lastBatchSize := (first :: rest).length }) W peerId skipDos hfits hnew
    refine ⟨q, ?_, hq⟩
    split <;> rename_i heq <;> rw [heq] at hhas
    · exact hhas.2
    · exact (finishBatch_kept (hasBlock_kept (fun _ => True) q) hhas p).2
  · rw [or_iff_right hnew, ← request_changes_iff W hpol]
    have hknown : ∀ header ∈ first :: rest, getHash header ∈ s.chainstate.blockIndex ∧
        s.chainstate.blockIndex.isFailed (getHash header) = false := by
      intro header hmem
      refine ⟨?_, hfits.unfailed header hmem⟩
      by_contra hm
      exact hnew ⟨header, hmem, hm⟩
    have hloop := acceptHeaders_known params env peerId skipDos []
      (s := { s with lastBatchSize := (first :: rest).length }) (first :: rest) hknown
    rw [List.append_nil] at hloop
    rw [hloop, acceptHeaders]
    dsimp only
    generalize (first :: rest).map getHash = l
    have hblocks := finishBatch_blocks params env
      { s with lastBatchSize := (first :: rest).length, chainstate := s.chainstate.tryAddCandidates l } p
    have hindex : (ChainstateManager.activateBestChain params (s.chainstate.tryAddCandidates l) none).1.blockIndex =
        s.chainstate.blockIndex := by
      rw [activateBestChain_index _ (W.tryAddCandidates l) none (fun _ h => by cases h), tryAddCandidates_frame]
    have hrequest := SameBlocks.nextRequest (s := { s with
      chainstate := (ChainstateManager.activateBestChain params (s.chainstate.tryAddCandidates l) none).1 }) hblocks
    unfold Progress
    rw [hblocks.index, hrequest]
    dsimp only
    rw [hindex]
    constructor
    · rintro (⟨hash, hm, hn⟩ | hne)
      · exact absurd hm hn
      · exact fun heq => hne (congrArg (fun l => (⟨PROTOCOL_VERSION, l, 0⟩ : GetHeadersMessage)) heq)
    · exact fun hne => .inr (fun heq => hne (congrArg GetHeadersMessage.blockLocatorHashes heq))

/-- The batch gets past the low-work check, and brings a new header or turns the tip. -/
def BatchAdvances (getHash : CBlockHeader → Uint256) (params : ConsensusParams) (s : NetworkManager)
    (headers : List CBlockHeader) : Prop :=
  (s.skipDosChecks getHash headers = true ∨ ∀ first ∈ headers.head?, s.isLowWork params headers first = false) ∧
    ((∃ header ∈ headers, getHash header ∉ s.chainstate.blockIndex) ∨
      TurnsTip params s.chainstate (headers.map getHash))

/-- The message is not dropped in the initial download, and its batch advances. -/
def RoundAdvances (getHash : CBlockHeader → Uint256) (params : ConsensusParams) (env : NetEnv) (s : NetworkManager)
    (peer : Peer) (headers : List CBlockHeader) : Prop :=
  ((s.isInitialBlockDownload params env).2 = true → s.gatesBatch peer.id headers = false) ∧
    BatchAdvances getHash params s headers

theorem processBatch_progress_iff (W : Wf getHash genesis s.chainstate) (hpol : params.nSuspiciousReorgDepth ≤ 0)
    (p : PeerPtr) (peerId : Int) {first : CBlockHeader} {rest : List CBlockHeader}
    (hfits : BatchFits getHash env.toEnv s.chainstate first rest) :
    Progress s (s.processBatch getHash params env p peerId (s.skipDosChecks getHash (first :: rest)) first
        (first :: rest)).1 ↔ BatchAdvances getHash params s (first :: rest) := by
  unfold processBatch BatchAdvances
  rw [decide_eq_true hfits.prev_mem]
  dsimp only
  rw [if_pos rfl, hfits.commitment, hfits.continuous, if_pos rfl]
  rw [if_neg (by decide), if_neg (by decide)]
  have hreset : SameBlocks s.chainstate (s.resetUnconnectingHeaders peerId).chainstate := ⟨rfl, rfl⟩
  have hlow : (s.resetUnconnectingHeaders peerId).isLowWork params (first :: rest) first =
      s.isLowWork params (first :: rest) first := rfl
  rw [hlow]
  by_cases hskip : (!s.skipDosChecks getHash (first :: rest) && s.isLowWork params (first :: rest) first) = true
  · rw [if_pos hskip]
    refine iff_of_false (SameBlocks.not_progress ?_) ?_
    · dsimp only
      split
      · rw [requestHeadersFromPeer_chainstate]
        exact hreset
      · exact hreset
    · rintro ⟨h, -⟩
      simp only [List.head?_cons, Option.mem_def, Option.some.injEq, forall_eq'] at h
      rcases h with h | h <;> rw [h] at hskip <;> simp at hskip
  · rw [if_neg hskip, ← hreset.progress_iff]
    have hpast : s.skipDosChecks getHash (first :: rest) = true ∨
        ∀ x ∈ (first :: rest).head?, s.isLowWork params (first :: rest) x = false := by
      simpa [or_iff_not_imp_left] using hskip
    rw [and_iff_right hpast]
    exact acceptBatch_progress_iff (s := s.resetUnconnectingHeaders peerId) W hpol p peerId _ hfits

theorem processHeaders_progress_iff (W : Wf getHash genesis s.chainstate) (hpol : params.nSuspiciousReorgDepth ≤ 0)
    (p : PeerPtr) (peerId : Int) {first : CBlockHeader} {rest : List CBlockHeader}
    (hfits : BatchFits getHash env.toEnv s.chainstate first rest) (hlen : (first :: rest).length ≤ MAX_HEADERS_SIZE) :
    Progress s (s.processHeaders getHash params env p peerId (first :: rest)).1 ↔
      BatchAdvances getHash params s (first :: rest) := by
  unfold processHeaders
  dsimp only
  rw [if_neg (Nat.not_lt.mpr hlen)]
  exact processBatch_progress_iff (s := { s with lastHeadersReceivedUs := env.nowUs }) W hpol p peerId hfits

theorem handleHeadersMessage_progress_iff (W : Wf getHash genesis s.chainstate)
    (hpol : params.nSuspiciousReorgDepth ≤ 0) (p : PeerPtr) (peer : Peer) {first : CBlockHeader}
    {rest : List CBlockHeader} (hfits : BatchFits getHash env.toEnv s.chainstate first rest)
    (hlen : (first :: rest).length ≤ MAX_HEADERS_SIZE) :
    Progress s (s.handleHeadersMessage getHash params env p peer (first :: rest)).1 ↔
      RoundAdvances getHash params env s peer (first :: rest) := by
  -- the latch of the download check changes no block
  have hlatch : SameBlocks s.chainstate (s.isInitialBlockDownload params env).1.chainstate := .latch _ _ s.chainstate
  have hrest : Progress s ((s.isInitialBlockDownload params env).1.processHeaders getHash params env p peer.id
      (first :: rest)).1 ↔ BatchAdvances getHash params s (first :: rest) := by
    rw [← hlatch.progress_iff]
    have W1 := W.latch params env.toEnv
    rw [isInitialBlockDownload_frame] at W1
    rw [isInitialBlockDownload_latch _ _]
    exact processHeaders_progress_iff W1 hpol p peer.id (hfits.congr rfl rfl) hlen
  unfold handleHeadersMessage RoundAdvances
  rcases hibd : s.isInitialBlockDownload params env with ⟨s1, b⟩
  rw [hibd] at hlatch hrest
  have hgate : s1.gatesBatch peer.id (first :: rest) = s.gatesBatch peer.id (first :: rest) := by
    have hs1 : s1 = (s.isInitialBlockDownload params env).1 := (congrArg Prod.fst hibd).symm
    subst hs1
    rfl
  cases b with
  | false =>
    rw [and_iff_right (by simp)]
    exact hrest
  | true =>
    dsimp only
    rw [hgate]
    cases hgated : s.gatesBatch peer.id (first :: rest) with
    | true =>
      rw [if_pos rfl]
      exact iff_of_false hlatch.not_progress (by simp)
    | false =>
      rw [if_neg (by decide), and_iff_right (by simp)]
      exact hrest

end

end NetworkManager

/-! ## A round between two nodes -/

/-- The requester `r` has nothing against the active chain of the server `c`: it holds no block of
it as failed, and the headers it lacks pass its checks once their parent is known. -/
structure ValidFor (getHash : CBlockHeader → Uint256) (env : Env) (c r : ChainstateManager) : Prop where
  commitment : ∀ q, c.isOnActiveChain q = true → c.blockIndex.pprev q ≠ none →
    r.checkProofOfWork env (c.headerOf q) .COMMITMENT_ONLY = true
  unfailed : ∀ q, c.isOnActiveChain q = true → r.blockIndex.isFailed q = false
  passes : ∀ q, c.isOnActiveChain q = true → q ∉ r.blockIndex → (c.headerOf q).hashPrevBlock ∈ r.blockIndex →
    ChainstateManager.Passes env r (c.headerOf q)

section
variable {getHash : CBlockHeader → Uint256} {params paramsS : ConsensusParams} {config configS : PeerConfig}
  {env : NetEnv} {skip skipS : Bool} {c : ChainstateManager} {r s : NetworkManager}

theorem ChainstateManager.BlankOrInUse.wf_of_mem {q : BlockPtr} (h : c.BlankOrInUse getHash) (hq : q ∈ c.blockIndex) :
    Wf getHash c.genesisHash c := by
  rcases h with h | ⟨genesis, W⟩
  · obtain ⟨b, hb⟩ := mem_iff.mp hq
    rw [h.get] at hb
    cases hb
  · exact W.genesisHash.symm ▸ W

theorem ChainstateManager.BlankOrInUse.wf_of_locator {q : BlockPtr} (h : c.BlankOrInUse getHash)
    (hq : q ∈ c.getLocatorFromPrev) : Wf getHash c.genesisHash c := by
  rcases h with h | ⟨genesis, W⟩
  · have htip : c.getTip = none := by
      unfold BlockManager.getTip
      rw [h.manager]
      rfl
    unfold ChainstateManager.getLocatorFromPrev ChainstateManager.getLocator at hq
    rw [htip] at hq
    exact absurd hq List.not_mem_nil
  · exact W.genesisHash.symm ▸ W

theorem ServesFrom.block {genesis q : BlockPtr} (W : Wf getHash genesis c) {h : Int} (h0 : 0 < h) {hashStop : Uint256}
    {room : Nat} {l : List BlockPtr} (hl : ServesFrom c h hashStop room l) (hq : q ∈ l) :
    c.isOnActiveChain q = true ∧ c.blockIndex.pprev q ≠ none ∧ getHash (c.headerOf q) = q := by
  have T := W.tree.toTreeShape
  obtain ⟨tip, -, htip, -⟩ := W.tip_exists
  obtain ⟨i, hi⟩ := List.mem_iff_getElem?.mp hq
  obtain ⟨hanc, hheight⟩ := (getBlockAtHeight_iff W htip).mp (hl.consecutive i q hi)
  refine ⟨(W.contains_iff htip).mpr hanc, fun hnone => ?_, getHash_headerOf W (T.mem_anc hanc (W.tip_mem htip))⟩
  have := T.nHeight_root hnone
  omega

theorem answer_above_fork (hs : s.chainstate.BlankOrInUse getHash) (peerId : Int) (msg : GetHeadersMessage)
    (hne : s.handleGetHeadersMessage paramsS peerId msg ≠ []) :
    ∃ genesis fork l, Wf getHash genesis s.chainstate ∧ fork ∈ msg.blockLocatorHashes ∧
      s.chainstate.isOnActiveChain fork = true ∧
      s.handleGetHeadersMessage paramsS peerId msg = l.map s.chainstate.headerOf ∧
      ServesFrom s.chainstate (s.chainstate.blockIndex.nHeight fork + 1) msg.hashStop MAX_HEADERS_SIZE l := by
  unfold NetworkManager.handleGetHeadersMessage at hne ⊢
  split at hne
  · exact absurd rfl hne
  rename_i hwork
  rw [if_neg hwork]
  cases hfind : s.findForkPoint msg.blockLocatorHashes with
  | none =>
    rw [hfind] at hne
    exact absurd rfl hne
  | some fork =>
    have hon := List.find?_some hfind
    simp only [Bool.and_eq_true, decide_eq_true_eq] at hon
    have W := hs.wf_of_mem hon.1
    obtain ⟨-, -, l, -, -, -, hl, hserves⟩ := serves_above_fork W hfind msg.hashStop
    exact ⟨_, fork, l, W, List.mem_of_find?_eq_some hfind, hon.2, hl, hserves⟩

variable (env) in
/-- What a full answer is to a requester that has nothing against it. -/
theorem full_answer_fits (hr : r.chainstate.BlankOrInUse getHash) (hs : s.chainstate.BlankOrInUse getHash)
    (hvalid : ValidFor getHash env.toEnv s.chainstate r.chainstate) (peerId : Int)
    (hfull : (s.handleGetHeadersMessage paramsS peerId r.nextRequest).length = MAX_HEADERS_SIZE) :
    Wf getHash r.chainstate.genesisHash r.chainstate ∧
      ∃ first rest, s.handleGetHeadersMessage paramsS peerId r.nextRequest = first :: rest ∧
        BatchFits getHash env.toEnv r.chainstate first rest := by
  obtain ⟨genesis, fork, l, W, hfork, hon, hanswer, hserves⟩ := answer_above_fork hs peerId r.nextRequest
    (fun hnil => by rw [hnil] at hfull; cases hfull)
  have WR := hr.wf_of_locator hfork
  obtain ⟨tipR, -, htipR, -⟩ := WR.tip_exists
  have hnonneg := W.tree.toTreeShape.nHeight_nonneg fork
  rw [hanswer] at hfull ⊢
  refine ⟨WR, ?_⟩
  cases l with
  | nil => cases hfull
  | cons p l =>
    have hblock : ∀ q ∈ p :: l, _ := fun q hq => hserves.block W (by omega) hq
    refine ⟨s.chainstate.headerOf p, l.map s.chainstate.headerOf, rfl, ?_⟩
    constructor
    case prev_mem =>
      rw [hserves.hashPrevBlock_head W hon]
      exact WR.tree.toTreeShape.mem_anc (getLocatorFromPrev_anc WR htipR hfork) (WR.tip_mem htipR)
    case continuous => exact checkHeadersAreContinuous_run W (p :: l) _ hserves.consecutive
    all_goals rw [← List.map_cons]
    case commitment =>
      unfold ChainstateManager.checkHeadersPoW
      rw [List.all_eq_true]
      intro header hheader
      obtain ⟨q, hq, rfl⟩ := List.mem_map.mp hheader
      exact hvalid.commitment q (hblock q hq).1 (hblock q hq).2.1
    case unfailed =>
      intro header hheader
      obtain ⟨q, hq, rfl⟩ := List.mem_map.mp hheader
      rw [(hblock q hq).2.2]
      exact hvalid.unfailed q (hblock q hq).1
    case passes =>
      intro header hheader hnew hprev
      obtain ⟨q, hq, rfl⟩ := List.mem_map.mp hheader
      rw [(hblock q hq).2.2] at hnew
      exact hvalid.passes q (hblock q hq).1 hnew hprev

/-- A full answer of a server whose active chain is valid for the requester makes progress exactly
when it is not dropped in the initial download or for its low work, and either brings a header that
the requester lacks or turns its tip. -/
theorem sync_round_progress_iff
    (hr : Run.Reaches (NetworkManager.step getHash params config) (fun _ _ => True)
      (NetworkManager.fresh (ChainstateManager.fresh skip)) r)
    (hs : Run.Reaches (NetworkManager.step getHash paramsS configS) (fun _ _ => True)
      (NetworkManager.fresh (ChainstateManager.fresh skipS)) s)
    (hpol : params.nSuspiciousReorgDepth ≤ 0)
    (hvalid : ValidFor getHash env.toEnv s.chainstate r.chainstate) (peerId : Int)
    (hfull : (s.handleGetHeadersMessage paramsS peerId r.nextRequest).length = MAX_HEADERS_SIZE) (p : PeerPtr)
    (peer : Peer) :
    NetworkManager.Progress r (r.handleHeadersMessage getHash params env p peer
        (s.handleGetHeadersMessage paramsS peerId r.nextRequest)).1 ↔
      NetworkManager.RoundAdvances getHash params env r peer
        (s.handleGetHeadersMessage paramsS peerId r.nextRequest) := by
  obtain ⟨W, first, rest, hanswer, hfits⟩ := full_answer_fits _ (NetworkManager.reaches_blankOrInUse hr)
    (NetworkManager.reaches_blankOrInUse hs) hvalid peerId hfull
  rw [hanswer] at hfull ⊢
  exact NetworkManager.handleHeadersMessage_progress_iff W hpol p peer hfits (Nat.le_of_eq hfull)

end

/-! ## A chain longer than an answer -/

/-- A node that is `n` headers ahead of genesis. -/
def longOps (n : Nat) : List NetOp :=
  genesisNodeOps ++
    (List.range n).map (fun k => .chain (.processNewBlockHeader {} (nonceHeader (k + 1) (k + 2)) true))

/-- The chain of the headers with nonces up to `n + 1`. -/
structure Grown (n : Nat) (c : ChainstateManager) : Prop where
  wf : Wf nonceHash 1 c
  best : c.TipIsBest
  pool : c.orphanHeaders = ∅
  tip : c.getTip = some (BitVec.ofNat 256 (n + 1))
  tipHeight : c.blockIndex.nHeight (BitVec.ofNat 256 (n + 1)) = n
  entry : ∀ (p : BlockPtr) (b : CBlockIndex), c.blockIndex[p]? = some b →
    p.toNat ≤ n + 1 ∧ b.isFailed = false ∧ b.nBits = 0x207fffff#32 ∧ b.nHeight ≤ n ∧
      b.nChainWork = BitVec.ofNat 256 (2 * (b.nHeight.toNat + 1))

theorem grown_genesis : Grown 0 (genesisState nonceHash false (nonceHeader 0 1)) where
  wf := genesisState_wf nonceHash (nonceHeader 0 1) false rfl
  best := genesisState_tipIsBest nonceHash false (nonceHeader 0 1)
  pool := rfl
  tip := rfl
  tipHeight := by decide
  entry p b hb := by
    rw [show (genesisState nonceHash false (nonceHeader 0 1)).blockIndex =
      (∅ : BlockMap).insert _ _ from rfl, getElem?_single] at hb
    split at hb
    · rename_i hp
      cases hb
      subst hp
      refine ⟨by decide, by decide, rfl, by decide, by decide⟩
    · cases hb

theorem nonceHash_nonceHeader {prev nonce : Nat} (h : nonce < 2 ^ 32) :
    nonceHash (nonceHeader prev nonce) = BitVec.ofNat 256 nonce := by
  apply BitVec.eq_of_toNat_eq
  simp [nonceHash, nonceHeader]
  omega

theorem toNat_ofNat_small {k : Nat} (h : k < 2 ^ 256) : (BitVec.ofNat 256 k).toNat = k := by
  rw [BitVec.toNat_ofNat, Nat.mod_eq_of_lt h]

section
variable {n : Nat} {c : ChainstateManager} (h : Grown n c) (hn : n < 2 ^ 31)
include h hn

theorem Grown.passes : BitVec.ofNat 256 (n + 2) ∉ c.blockIndex ∧
    ChainstateManager.Passes {} c (nonceHeader (n + 1) (n + 2)) := by
  have hprev : (nonceHeader (n + 1) (n + 2)).hashPrevBlock = BitVec.ofNat 256 (n + 1) := rfl
  have htip := h.wf.tip_mem h.tip
  constructor
  · intro hm
    obtain ⟨b, hb⟩ := mem_iff.mp hm
    have := (h.entry _ b hb).1
    rw [toNat_ofNat_small (by omega)] at this
    omega
  refine ⟨fun h0 => ?_, htip, ?_, ?_, rfl, ?_⟩
  · have := congrArg BitVec.toNat h0
    rw [hprev, toNat_ofNat_small (by omega)] at this
    cases this
  · obtain ⟨t, ht⟩ := mem_iff.mp htip
    rw [hprev, isFailed_of_get ht]
    exact (h.entry _ t ht).2.1
  · simp [ChainstateManager.checkProofOfWork]
  · simp [ChainstateManager.checkBlockHeaderWrapper]

theorem Grown.accepted : ∃ c' b, c.acceptBlockHeader nonceHash nonceParams {} (nonceHeader (n + 1) (n + 2)) true =
      (c', .ok (BitVec.ofNat 256 (n + 2))) ∧
    Inserted nonceHash 1 {} c (nonceHeader (n + 1) (n + 2)) c' b ∧ c'.orphanHeaders = ∅ ∧
    c'.blockIndex = c.blockIndex.insert (BitVec.ofNat 256 (n + 2)) b ∧ b.nHeight = n + 1 ∧ b.nBits = 0x207fffff#32 ∧
    b.nChainWork = BitVec.ofNat 256 (2 * (n + 2)) := by
  have hhash : nonceHash (nonceHeader (n + 1) (n + 2)) = BitVec.ofNat 256 (n + 2) :=
    nonceHash_nonceHeader (by omega)
  obtain ⟨hnew, hpass⟩ := h.passes hn
  obtain ⟨c', b, he, hins⟩ := acceptOne_passes nonceParams h.wf (by rw [hhash]; exact hnew) hpass
  have hpool : c'.orphanHeaders = ∅ := by rw [hins.frame]; exact h.pool
  have hprev : (nonceHeader (n + 1) (n + 2)).hashPrevBlock = BitVec.ofNat 256 (n + 1) := rfl
  refine ⟨c', b, ?_, hins, hpool, hhash ▸ hins.index, ?_, congrArg CBlockHeader.nBits hins.getBlockHeader, ?_⟩
  · unfold ChainstateManager.acceptBlockHeader
    rw [he]
    dsimp only
    rw [hpool, hhash]
    rfl
  · rw [hins.nHeight, hprev, h.tipHeight]
  · obtain ⟨t, ht⟩ := mem_iff.mp (h.wf.tip_mem h.tip)
    obtain ⟨-, -, -, -, hwork⟩ := h.entry _ t ht
    have hheight : t.nHeight = n := by rw [← nHeight_of_get ht]; exact h.tipHeight
    have hproof : getBlockProof (nonceHeader (n + 1) (n + 2)).nBits = BitVec.ofNat 256 2 := by
      change getBlockProof 0x207fffff#32 = _
      decide
    rw [hins.nChainWork, hprev, nChainWork_of_get ht, hwork, hheight, hproof, ← BitVec.ofNat_add]
    congr 1

theorem Grown.next : Grown (n + 1) (c.step nonceHash nonceParams
    (.processNewBlockHeader {} (nonceHeader (n + 1) (n + 2)) true)) := by
  obtain ⟨c1, b, haccept, hins, hpool, hinsert, hheight, hnbits, hwork⟩ := h.accepted hn
  obtain ⟨W, hbest⟩ := processNewBlockHeader_tipIsBest nonceParams {} h.wf h.best (by decide) rfl
    (nonceHeader (n + 1) (n + 2)) true (fun hchild => by
      obtain ⟨hash, orphan, horphan, -⟩ := hchild.child
      rw [h.pool] at horphan
      simp at horphan)
  have hact := activateBestChain_spec nonceParams
    ((hins.wf h.wf).tryAddCandidate (BitVec.ofNat 256 (n + 2))) none (fun _ h => by cases h)
  rw [ChainstateManager.step_processNewBlockHeader]
  unfold ChainstateManager.processNewBlockHeader at W hbest ⊢
  rw [haccept] at W hbest ⊢
  dsimp only at W hbest ⊢
  generalize (ChainstateManager.activateBestChain nonceParams
    (c1.tryAddCandidate (BitVec.ofNat 256 (n + 2))) none).1 = c2 at W hbest hact ⊢
  have hindex : c2.blockIndex = c.blockIndex.insert (BitVec.ofNat 256 (n + 2)) b := by
    rw [hact.frame, ← hinsert]
    rfl
  have hget : c2.blockIndex[(BitVec.ofNat 256 (n + 2) : BlockPtr)]? = some b := by
    rw [hindex]
    exact Std.ExtTreeMap.getElem?_insert_self
  have hentry : ∀ (p : BlockPtr) (e : CBlockIndex), c2.blockIndex[p]? = some e →
      p = BitVec.ofNat 256 (n + 2) ∧ e = b ∨ c.blockIndex[p]? = some e := by
    intro p e hp
    rw [hindex] at hp
    rcases get_insert hp with h | ⟨-, h⟩
    · exact .inl h
    · exact .inr h
  refine ⟨W, hbest, ?_, ?_, ?_, ?_⟩
  · rw [hact.frame]
    exact hpool
  · -- the block of most work is the new one
    obtain ⟨tip, htip2, hmax⟩ := hbest
    have hle := hmax (BitVec.ofNat 256 (n + 2)) (by rw [isValid_of_get hget]; exact hins.isValid)
    rw [nChainWork_of_get hget, hwork] at hle
    obtain ⟨e, he⟩ := mem_iff.mp (W.tip_mem htip2)
    rcases hentry tip e he with ⟨rfl, -⟩ | hold
    · exact htip2
    · obtain ⟨-, -, -, hlow, hw⟩ := h.entry tip e hold
      rw [nChainWork_of_get he, hw, BitVec.le_def, toNat_ofNat_small (by omega), toNat_ofNat_small (by omega)] at hle
      omega
  · rw [nHeight_of_get hget, hheight]
    push_cast
    ring
  · intro p e hp
    rcases hentry p e hp with ⟨rfl, rfl⟩ | hold
    · exact ⟨Nat.le_of_eq (toNat_ofNat_small (by omega)), CBlockIndex.isFailed_of_isValid hins.isValid, hnbits,
        by rw [hheight]; push_cast; omega, by rw [hwork, hheight]; congr 1⟩
    · obtain ⟨h1, h2, h3, h4, h5⟩ := h.entry p e hold
      exact ⟨by omega, h2, h3, by push_cast; omega, h5⟩

end

theorem setup_nonce : (ChainstateManager.fresh false).step nonceHash nonceParams (.setup (nonceHeader 0 1)) =
    genesisState nonceHash false (nonceHeader 0 1) := by
  rw [ChainstateManager.step_setup, setup_fresh nonceHash (nonceHeader 0 1) false rfl (by decide)]
  rfl

theorem grown_longOps : ∀ {n : Nat}, n < 2 ^ 31 → Grown n (nodeAfter (longOps n)).chainstate
  | 0, _ => by
    change Grown 0 ((ChainstateManager.fresh false).step nonceHash nonceParams (.setup (nonceHeader 0 1)))
    rw [setup_nonce]
    exact grown_genesis
  | n + 1, hn => by
    have h := (grown_longOps (n := n) (by omega)).next (by omega)
    have hops : longOps (n + 1) =
        longOps n ++ [.chain (.processNewBlockHeader {} (nonceHeader (n + 1) (n + 2)) true)] := by
      simp [longOps, List.range_succ]
    rw [hops, nodeAfter, List.foldl_append]
    exact h

/-! ## A node that never gets past the low-work check -/

/-- The minimum work is that of 2002 headers of least difficulty. -/
def stalledParams : ConsensusParams := { nonceParams with nMinimumChainWork := arithToUint256 4004 }

/-- A node at genesis that has sent its first request to its sync peer. -/
def requester : NetworkManager :=
  (genesisNodeOps ++ NetworkManager.selectedOps).foldl (NetworkManager.step nonceHash stalledParams {})
    (NetworkManager.fresh (ChainstateManager.fresh false))

theorem requester_chainstate : requester.chainstate = genesisState nonceHash false (nonceHeader 0 1) := by
  unfold requester genesisNodeOps NetworkManager.selectedOps
  simp only [List.cons_append, List.nil_append, List.foldl_cons, List.foldl_nil]
  change (NetworkManager.checkInitialSync {} _).chainstate = _
  rw [NetworkManager.checkInitialSync_chainstate]
  change (NetworkManager.step nonceHash stalledParams {} _ (.addPeer {} NetworkManager.outboundPeer 0 "")).chainstate = _
  change (NetworkManager.addPeer {} {} _ NetworkManager.outboundPeer 0 "").1.chainstate = _
  rw [NetworkManager.addPeer_chainstate]
  exact setup_nonce

theorem requester_mem {p : BlockPtr} : p ∈ requester.chainstate.blockIndex ↔ p = 1 := by
  rw [requester_chainstate]
  exact mem_single

theorem requester_locator : requester.nextRequest.blockLocatorHashes = [1] := by
  change requester.chainstate.getLocatorFromPrev = [1]
  rw [requester_chainstate]
  decide

theorem requester_validFor (c : ChainstateManager) : ValidFor nonceHash {} c requester.chainstate where
  commitment q _ _ := by simp [ChainstateManager.checkProofOfWork]
  unfailed q _ := by
    rw [requester_chainstate]
    unfold BlockMap.isFailed
    rw [show (genesisState nonceHash false (nonceHeader 0 1)).blockIndex = (∅ : BlockMap).insert _ _ from rfl,
      getElem?_single]
    split <;> rfl
  passes q _ _ hprev := by
    refine ⟨?_, hprev, ?_, by simp [ChainstateManager.checkProofOfWork], rfl,
      by simp [ChainstateManager.checkBlockHeaderWrapper]⟩
    · rw [requester_mem.mp hprev]
      decide
    · rw [requester_mem.mp hprev, requester_chainstate]
      decide

theorem calculateHeadersWork_least : ∀ {l : List CBlockHeader}, (∀ header ∈ l, header.nBits = 0x207fffff#32) →
    calculateHeadersWork l = BitVec.ofNat 256 (2 * l.length)
  | [], _ => rfl
  | header :: l, h => by
    obtain ⟨hbits, hl⟩ := List.forall_mem_cons.mp h
    have hwork : headerWork header = BitVec.ofNat 256 2 := by
      unfold headerWork
      rw [hbits]
      decide
    have hrest := calculateHeadersWork_least hl
    unfold calculateHeadersWork at hrest ⊢
    rw [List.map_cons, List.sum_cons, hwork, hrest, ← BitVec.ofNat_add, List.length_cons]
    congr 1
    omega

section
variable {n : Nat} {s : NetworkManager} (h : Grown n s.chainstate)
include h

theorem Grown.tipIndex : ∃ t, s.chainstate.tipIndex = some t ∧ t.nChainWork = BitVec.ofNat 256 (2 * (n + 1)) := by
  obtain ⟨t, ht⟩ := mem_iff.mp (h.wf.tip_mem h.tip)
  obtain ⟨-, -, -, -, hwork⟩ := h.entry _ t ht
  have hheight : t.nHeight = n := by rw [← nHeight_of_get ht]; exact h.tipHeight
  refine ⟨t, ?_, by rw [hwork, hheight]; rfl⟩
  unfold ChainstateManager.tipIndex
  rw [h.tip]
  exact ht

theorem Grown.nBits {q : BlockPtr} (hq : s.chainstate.isOnActiveChain q = true) :
    (s.chainstate.headerOf q).nBits = 0x207fffff#32 := by
  obtain ⟨e, he⟩ := mem_iff.mp (h.wf.tree.toTreeShape.mem_anc ((h.wf.contains_iff h.tip).mp hq) (h.wf.tip_mem h.tip))
  unfold BlockManager.headerOf
  rw [he]
  exact (h.entry q e he).2.2.1

theorem Grown.answer (hn : MAX_HEADERS_SIZE < n) :
    ∃ l, s.handleGetHeadersMessage nonceParams 7 requester.nextRequest = l.map s.chainstate.headerOf ∧
      l.length = MAX_HEADERS_SIZE ∧
      ServesFrom s.chainstate (s.chainstate.blockIndex.nHeight 1 + 1) 0 MAX_HEADERS_SIZE l ∧
      s.chainstate.isOnActiveChain 1 = true := by
  obtain ⟨t, ht, -⟩ := h.tipIndex
  have hnone : uintToArith256 nonceParams.nMinimumChainWork = 0 := by decide
  obtain ⟨pre, fork, post, l, hsplit, hon, -, hl, hserves⟩ := handleGetHeadersMessage_spec h.wf
    (lacksWork_of_tip nonceParams ht (by simp [hnone, BitVec.le_def])) 7 requester.nextRequest
    (by rw [requester_locator]; simp)
  rw [requester_locator] at hsplit
  obtain rfl : fork = 1 := by
    have hmem : fork ∈ [(1 : Uint256)] := by rw [hsplit]; simp
    simpa using hmem
  refine ⟨l, hl, ?_, hserves, hon⟩
  by_contra hne
  have hle := hserves.length_le
  rcases hserves.ends (Nat.lt_of_le_of_ne hle hne) with ⟨h0, -⟩ | hend
  · exact h0 rfl
  · rw [h.wf.tree.toTreeShape.nHeight_genesis, height_tip h.wf h.tip, h.tipHeight] at hend
    omega

theorem Grown.lacksWork (hn : MAX_HEADERS_SIZE < n) :
    ¬ NetworkManager.BatchAdvances nonceHash stalledParams requester
      (s.handleGetHeadersMessage nonceParams 7 requester.nextRequest) := by
  obtain ⟨l, hanswer, hlen, hserves, hon⟩ := h.answer hn
  have T := h.wf.tree.toTreeShape
  have hroot := T.nHeight_genesis
  have hblock : ∀ q ∈ l, _ := fun q hq => hserves.block h.wf (by omega) hq
  rw [hanswer]
  rintro ⟨hskip | hwork, -⟩
  · -- the last header is not on the requester's chain
    unfold NetworkManager.skipDosChecks at hskip
    rw [List.getLast?_map, Option.any_map, Option.any_eq_true] at hskip
    obtain ⟨q, hlast, hskip⟩ := hskip
    have hq := hblock q (List.mem_of_getLast? hlast)
    simp only [hq.2.2, Bool.and_eq_true, decide_eq_true_eq] at hskip
    exact hq.2.1 (requester_mem.mp hskip.1 ▸ T.genesis_root)
  · cases l with
    | nil => cases hlen
    | cons p l =>
      have hlow := hwork (s.chainstate.headerOf p) rfl
      have hsum := calculateHeadersWork_least (l := (p :: l).map s.chainstate.headerOf) (by
        intro header hheader
        obtain ⟨q, hq, rfl⟩ := List.mem_map.mp hheader
        exact h.nBits (hblock q hq).1)
      rw [List.length_map, hlen] at hsum
      unfold NetworkManager.isLowWork at hlow
      rw [hserves.hashPrevBlock_head h.wf hon, hsum, requester_chainstate] at hlow
      revert hlow
      decide

end

/-- A node whose chain has exactly the minimum work. -/
def server : NetworkManager := nodeAfter (longOps 2001)

theorem server_grown : Grown 2001 server.chainstate := grown_longOps (by decide)

theorem server_reaches : Run.Reaches (NetworkManager.step nonceHash nonceParams {}) (fun _ _ => True)
    (NetworkManager.fresh (ChainstateManager.fresh false)) server := nodeAfter_reaches _

theorem requester_reaches : Run.Reaches (NetworkManager.step nonceHash stalledParams {}) (fun _ _ => True)
    (NetworkManager.fresh (ChainstateManager.fresh false)) requester := Run.Reaches.foldl .start fun _ _ _ => trivial

theorem server_answer_length :
    (server.handleGetHeadersMessage nonceParams 7 requester.nextRequest).length = MAX_HEADERS_SIZE := by
  obtain ⟨l, hanswer, hlen, -⟩ := server_grown.answer (by decide)
  rw [hanswer, List.length_map, hlen]

theorem sync_round_progress_iff_nonce :
    NetworkManager.Progress requester (requester.handleHeadersMessage nonceHash stalledParams {} 0
        NetworkManager.outboundPeer (server.handleGetHeadersMessage nonceParams 7 requester.nextRequest)).1 ↔
      NetworkManager.RoundAdvances nonceHash stalledParams {} requester NetworkManager.outboundPeer
        (server.handleGetHeadersMessage nonceParams 7 requester.nextRequest) :=
  sync_round_progress_iff requester_reaches server_reaches (by decide) (requester_validFor _) 7 server_answer_length 0
    NetworkManager.outboundPeer

/-- Every round makes progress, as one would want it: the request has gone to a peer that answers
it in full. -/
def EveryRoundAdvances (getHash : CBlockHeader → Uint256) : Prop :=
  ∀ (params paramsS : ConsensusParams) (config configS : PeerConfig) (skip skipS : Bool) (r s : NetworkManager)
    (env : NetEnv) (p : PeerPtr) (peer : Peer) (peerId : Int) (tipR tip : CBlockIndex),
    Run.Reaches (NetworkManager.step getHash params config) (fun _ _ => True)
      (NetworkManager.fresh (ChainstateManager.fresh skip)) r →
    Run.Reaches (NetworkManager.step getHash paramsS configS) (fun _ _ => True)
      (NetworkManager.fresh (ChainstateManager.fresh skipS)) s →
    params.nSuspiciousReorgDepth ≤ 0 → r.chainstate.genesisHash = s.chainstate.genesisHash →
    r.chainstate.tipIndex = some tipR → s.chainstate.tipIndex = some tip → tipR.nChainWork < tip.nChainWork →
    ValidFor getHash env.toEnv s.chainstate r.chainstate → r.peers[p]? = some peer → (p, r.nextRequest) ∈ r.sent →
    (s.handleGetHeadersMessage paramsS peerId r.nextRequest).length = MAX_HEADERS_SIZE →
    NetworkManager.Progress r (r.handleHeadersMessage getHash params env p peer
      (s.handleGetHeadersMessage paramsS peerId r.nextRequest)).1

/-- The sync peer of the requester answers with headers that do not reach the minimum work, and is
asked for the same headers again. -/
theorem low_work_repeats_request : ¬ EveryRoundAdvances nonceHash := by
  intro h
  have hsome : requester.peers[0]?.isSome = true := by decide +kernel
  obtain ⟨peer, hpeer⟩ := Option.isSome_iff_exists.mp hsome
  have hgenesis : requester.chainstate.tipIndex = some (genesisEntry (nonceHeader 0 1)) := by
    rw [requester_chainstate]
    rfl
  obtain ⟨t, ht, hwork⟩ := server_grown.tipIndex
  have hprogress := h stalledParams nonceParams {} {} false false requester server {} 0 peer 7 _ t requester_reaches
    server_reaches (by decide) (by rw [server_grown.wf.genesisHash, requester_chainstate]; rfl) hgenesis ht
    (by rw [hwork]; decide +kernel) (requester_validFor _) hpeer (by decide +kernel) server_answer_length
  obtain ⟨W, first, rest, hcons, hfits⟩ := full_answer_fits {} (NetworkManager.reaches_blankOrInUse requester_reaches)
    (NetworkManager.reaches_blankOrInUse server_reaches) (requester_validFor _) 7 server_answer_length
  have hlen := server_answer_length
  have hlacks := server_grown.lacksWork (by decide)
  rw [hcons] at hlen hprogress hlacks
  exact hlacks ((NetworkManager.handleHeadersMessage_progress_iff W (by decide) 0 peer hfits
    (Nat.le_of_eq hlen)).mp hprogress).2

end UnicityPow
