import UnicityPow.AcceptSound
import UnicityPow.Activation
import UnicityPow.StackLog

/-!
# Activation keeps the state well formed

The active chain moves only in `switchTip`, which leaves the path to the candidate and
queues the blocks it took off and put on. What a whole call of `ActivateBestChain` can do
follows by induction over its rounds.
-/

namespace UnicityPow

open Forest BlockMap StackLog

/-! ## Block notifications -/

/-- The edit a subscriber makes to its chain: the parent of a connected block is the one its
header names. -/
def Notification.edit : Notification → Option (Edit BlockPtr)
  | .blockConnected header pindex => some (.push header.hashPrevBlock pindex)
  | .blockDisconnected _ pindex => some (.pop pindex)
  | _ => none

def blockEdits (events : List Notification) : List (Edit BlockPtr) := events.filterMap Notification.edit

@[simp] theorem blockEdits_append (es es' : List Notification) :
    blockEdits (es ++ es') = blockEdits es ++ blockEdits es' := List.filterMap_append

@[simp] theorem blockEdits_nil : blockEdits [] = [] := rfl

theorem blockEdits_cons (e : Notification) (es : List Notification) :
    blockEdits (e :: es) = e.edit.toList ++ blockEdits es := by
  unfold blockEdits
  cases h : e.edit <;> simp [h]

/-- The events take off the blocks from `old` down to the fork with `p` and put on those from
there up to `p`. -/
def Moves (m : BlockMap) (old p : BlockPtr) (events : List Notification) : Prop :=
  ∃ f l l', IsFork m.pprev old p f ∧ Segment m.pprev f l old ∧ Segment m.pprev f l' p ∧
    blockEdits events = pops l ++ pushes f l'

theorem hashPrevBlock_headerOf {bm : BlockManager} {p q : BlockPtr} (h : bm.blockIndex.pprev p = some q) :
    (bm.headerOf p).hashPrevBlock = q := by
  obtain ⟨b, hb⟩ := mem_iff.mp (mem_of_pprev h)
  rw [pprev_of_get hb] at h
  unfold BlockManager.headerOf
  rw [hb]
  simp [CBlockIndex.getBlockHeader, h]

/-! ## Candidates -/

section
variable {s : ChainstateManager} {p q : BlockPtr}

theorem mem_addUnchecked : q ∈ (s.addUnchecked p).candidates ↔ q = p ∨ q ∈ s.candidates :=
  OrderedSet.mem_insert (workBefore_strictTotal _)

theorem mem_dropCandidate : q ∈ (s.dropCandidate p).candidates ↔ q ∈ s.candidates ∧ q ≠ p :=
  OrderedSet.mem_erase (workBefore_strictTotal _)

/-- `TryAddBlockIndexCandidate` adds valid leaves, each in the place of its parent. -/
theorem tryAdd_spec (c : ChainSelector) (m : BlockMap) (p : BlockPtr) :
    (m.isValid p = false ∨ m.hasChildren p = true) ∧ c.tryAddBlockIndexCandidate m p = c ∨
      m.isValid p = true ∧ m.hasChildren p = false ∧
        ∃ l, c.tryAddBlockIndexCandidate m p = { c with candidates := OrderedSet.insert (workBefore m) p l } ∧
          (OrderedSet.Sorted (workBefore m) c.candidates → OrderedSet.Sorted (workBefore m) l) ∧
          ∀ q, q ∈ l ↔ q ∈ c.candidates ∧ m.pprev p ≠ some q := by
  have hlt := workBefore_strictTotal m
  unfold ChainSelector.tryAddBlockIndexCandidate
  split
  · rename_i hv
    exact .inl ⟨.inl (by simpa using hv), rfl⟩
  · rename_i hv
    split
    · rename_i hc
      exact .inl ⟨.inr hc, rfl⟩
    · rename_i hc
      refine .inr ⟨by simpa using hv, by simpa using hc, ?_⟩
      cases hq : m.pprev p with
      | none => exact ⟨c.candidates, rfl, id, fun q => by simp⟩
      | some r =>
        simp only []
        split
        · refine ⟨OrderedSet.erase (workBefore m) r c.candidates, rfl, OrderedSet.Sorted.erase, fun q => ?_⟩
          rw [OrderedSet.mem_erase hlt]
          simp [eq_comm]
        · rename_i hr
          refine ⟨c.candidates, rfl, id, fun q => ?_⟩
          rw [OrderedSet.contains_iff hlt] at hr
          constructor
          · intro hqc
            exact ⟨hqc, fun he => by cases he; exact hr hqc⟩
          · exact fun h => h.1

theorem mem_tryAddCandidate :
    q ∈ (s.tryAddCandidate p).candidates ↔
      if s.blockIndex.isValid p = true ∧ s.blockIndex.hasChildren p = false then
        q = p ∨ (q ∈ s.candidates ∧ s.blockIndex.pprev p ≠ some q)
      else q ∈ s.candidates := by
  unfold ChainstateManager.tryAddCandidate
  rcases tryAdd_spec s.toChainSelector s.blockIndex p with ⟨h, he⟩ | ⟨hv, hc, l, he, -, hl⟩
  · rw [if_neg (by rintro ⟨h1, h2⟩; rcases h with h | h <;> simp_all), he]
  · rw [if_pos ⟨hv, hc⟩, he]
    simp only [OrderedSet.mem_insert (workBefore_strictTotal _), hl]

end

section
variable {getHash : CBlockHeader → Uint256} {genesis : BlockPtr} {s : ChainstateManager}
  (W : Wf getHash genesis s)
include W

theorem Wf.withCandidates {l : List BlockPtr} (hl : ∀ p ∈ l, p ∈ s.blockIndex)
    (hs : OrderedSet.Sorted (workBefore s.blockIndex) l) (best : Option BlockPtr) :
    Wf getHash genesis { s with candidates := l, bestHeader := best } :=
  ⟨W.tree, W.active, W.genesisHash, W.initialized, W.valid, hl, hs⟩

theorem Wf.tryAddCandidate (p : BlockPtr) : Wf getHash genesis (s.tryAddCandidate p) := by
  have hlt := workBefore_strictTotal s.blockIndex
  unfold ChainstateManager.tryAddCandidate
  rcases tryAdd_spec s.toChainSelector s.blockIndex p with ⟨-, he⟩ | ⟨hv, -, l, he, hs, hl⟩
  · rw [he]
    exact W
  · rw [he]
    refine W.withCandidates (fun q hq => ?_) ((hs W.sorted).insert hlt) s.bestHeader
    rcases (OrderedSet.mem_insert hlt).mp hq with rfl | hq
    · exact mem_of_isValid hv
    · exact W.candidates q ((hl q).mp hq).1

theorem Wf.addUnchecked {p : BlockPtr} (hp : p ∈ s.blockIndex) : Wf getHash genesis (s.addUnchecked p) := by
  refine W.withCandidates (fun q hq => ?_) (W.sorted.insert (workBefore_strictTotal _)) s.bestHeader
  rcases (OrderedSet.mem_insert (workBefore_strictTotal _)).mp hq with rfl | hq
  · exact hp
  · exact W.candidates q hq

theorem Wf.dropCandidate (p : BlockPtr) : Wf getHash genesis (s.dropCandidate p) :=
  W.withCandidates (fun q hq => W.candidates q ((OrderedSet.mem_erase (workBefore_strictTotal _)).mp hq).1)
    W.sorted.erase s.bestHeader

theorem Wf.sublistCandidates {l : List BlockPtr} (hl : l.Sublist s.candidates) :
    Wf getHash genesis { s with candidates := l } :=
  W.withCandidates (fun q hq => W.candidates q (hl.subset hq)) (W.sorted.sublist hl) s.bestHeader

theorem Wf.withChain {c : CChain} {p : BlockPtr} (hp : p ∈ s.blockIndex)
    (hc : CChain.IsPath s.blockIndex c p) : Wf getHash genesis { s with activeChain := c } :=
  ⟨W.tree, ⟨p, hp, hc⟩, W.genesisHash, W.initialized, W.valid, W.candidates, W.sorted⟩

end

/-! ## The first valid candidate -/

theorem resolveCandidate_spec (s : ChainstateManager) :
    ∃ l, s.resolveCandidate none = ({ s with candidates := l }, l.head?) ∧ l.Sublist s.candidates ∧
      (∀ q ∈ s.candidates, s.blockIndex.isValid q = true → q ∈ l) ∧
      (∀ q, l.head? = some q → s.blockIndex.isValid q = true) ∧
      (OrderedSet.Sorted (workBefore s.blockIndex) s.candidates → ∀ p, l.head? = some p →
        ∀ q ∈ s.candidates, s.blockIndex.isValid q = true → q = p ∨ workBefore s.blockIndex p q = true) := by
  have hp : ∀ q, s.blockIndex.isValid q = true →
      (s.blockIndex.isFailed q || !s.blockIndex.isValid q) = false := by
    intro q hq
    rw [isFailed_of_isValid hq, hq]
    rfl
  refine ⟨_, rfl, List.dropWhile_sublist _, fun q hq hv => OrderedSet.mem_dropWhile_or hq (hp q hv), ?_, ?_⟩
  · intro q hq
    have := List.head?_dropWhile_not (fun p => s.blockIndex.isFailed p || !s.blockIndex.isValid p) s.candidates
    rw [hq] at this
    simp only [Bool.or_eq_false_iff, Bool.not_eq_false'] at this
    exact this.2
  · intro hs p hhead q hq hv
    obtain ⟨r, hr⟩ := List.head?_eq_some_iff.mp hhead
    exact OrderedSet.head_dropWhile hs hr hq (hp q hv)

/-! ## Moving the tip -/

section
variable {m : BlockMap} {genesis : BlockPtr} (T : TreeShape m genesis)
include T

theorem setActiveTip_path {bm : BlockManager} (hm : bm.blockIndex = m) (hc : CChain.Coherent m bm.activeChain)
    (p : BlockPtr) :
    ∃ c, bm.setActiveTip p = { bm with activeChain := c } ∧ CChain.IsPath m c p := by
  refine ⟨_, rfl, ?_⟩
  rw [hm]
  exact CChain.setTip_isPath T hc p

theorem connectTip_path (bm : BlockManager) (hm : bm.blockIndex = m) (hc : CChain.Coherent m bm.activeChain)
    (p : BlockPtr) :
    ∃ c, bm.connectTip p = ({ bm with activeChain := c }, .blockConnected (bm.headerOf p) p) ∧
      CChain.IsPath m c p := by
  obtain ⟨c, hc, hp⟩ := setActiveTip_path T hm hc p
  exact ⟨c, by rw [BlockManager.connectTip, hc], hp⟩

theorem disconnectTip_path (bm : BlockManager) {t q : BlockPtr} (hm : bm.blockIndex = m)
    (hp : CChain.IsPath m bm.activeChain t) (hq : m.pprev t = some q) :
    ∃ c, bm.disconnectTip = some ({ bm with activeChain := c }, .blockDisconnected (bm.headerOf t) t) ∧
      CChain.IsPath m c q := by
  obtain ⟨c, hc, hcp⟩ := setActiveTip_path T hm (hp.coherent T) q
  refine ⟨c, ?_, hcp⟩
  unfold BlockManager.disconnectTip BlockManager.getTip
  simp only [hp.tip_eq, hm, hq, hc]

theorem disconnectTo_path (f : BlockPtr) : ∀ (fuel : Nat) (bm : BlockManager) (events : List Notification)
    (t : BlockPtr), bm.blockIndex = m → CChain.IsPath m bm.activeChain t → Anc m.pprev f t →
      m.rank t < fuel + m.rank f →
      ∃ c l es, bm.disconnectTo f fuel events = ({ bm with activeChain := c }, events ++ es, true) ∧
        CChain.IsPath m c f ∧ Segment m.pprev f l t ∧ blockEdits es = pops l := by
  intro fuel
  induction fuel with
  | zero => intro bm events t _ _ hf hk; have := hf.rank_le T.ranked; omega
  | succ fuel ih =>
    intro bm events t hm hp hf hk
    unfold BlockManager.disconnectTo
    rw [show bm.getTip = some t from hp.tip_eq]
    by_cases htf : t = f
    · subst htf
      simp only [if_true]
      exact ⟨bm.activeChain, [], [], by simp, hp, .nil, rfl⟩
    · simp only [if_neg htf]
      obtain ⟨q, hq, hfq⟩ : ∃ q, m.pprev t = some q ∧ Anc m.pprev f q := by
        rcases anc_iff.mp hf with h | h
        · exact absurd h.symm htf
        · exact h
      obtain ⟨c, hd, hcp⟩ := disconnectTip_path T _ hm hp hq
      rw [hd]
      have := T.ranked t q hq
      obtain ⟨c', l, es, h1, h2, hl, hes⟩ := ih { bm with activeChain := c }
        (events ++ [.blockDisconnected (bm.headerOf t) t]) q hm hcp hfq (by omega)
      refine ⟨c', l ++ [t], .blockDisconnected (bm.headerOf t) t :: es, ?_, h2, .snoc hl hq, ?_⟩
      · rw [← List.append_cons] at h1
        exact h1
      · rw [pops_concat, ← hes]
        rfl

theorem connectBlocks_segment (f : BlockPtr) : ∀ (fuel : Nat) (p : BlockPtr) (acc : List BlockPtr),
    Anc m.pprev f p → m.rank p < fuel + m.rank f →
      ∃ l, BlockManager.connectBlocks m (some f) fuel (some p) acc = l ++ acc ∧ Segment m.pprev f l p := by
  intro fuel
  induction fuel with
  | zero => intro p acc hf hk; have := hf.rank_le T.ranked; omega
  | succ fuel ih =>
    intro p acc hf hk
    unfold BlockManager.connectBlocks
    by_cases hpf : p = f
    · subst hpf
      exact ⟨[], by simp, .nil⟩
    · rw [if_neg (by simpa using hpf)]
      obtain ⟨q, hq, hfq⟩ : ∃ q, m.pprev p = some q ∧ Anc m.pprev f q := by
        rcases anc_iff.mp hf with h | h
        · exact absurd h.symm hpf
        · exact h
      have := T.ranked p q hq
      obtain ⟨l, hl, hs⟩ := ih q (p :: acc) hfq (by omega)
      exact ⟨l ++ [p], by rw [hq, hl, List.append_assoc]; rfl, .snoc hs hq⟩

theorem connectAll_path {f p : BlockPtr} {l : List BlockPtr} (hs : Segment m.pprev f l p) (bm : BlockManager)
    (events : List Notification) (hm : bm.blockIndex = m) (hc : CChain.IsPath m bm.activeChain f) :
    ∃ c es, bm.connectAll events l = ({ bm with activeChain := c }, events ++ es) ∧ CChain.IsPath m c p ∧
      blockEdits es = pushes f l := by
  induction hs with
  | nil => exact ⟨bm.activeChain, [], by simp [BlockManager.connectAll], hc, rfl⟩
  | @snoc l p q hs hq ih =>
    obtain ⟨c, es, hl, hcq, hes⟩ := ih
    obtain ⟨c', hc', hp'⟩ := connectTip_path T { bm with activeChain := c } hm (hcq.coherent T) p
    refine ⟨c', es ++ [.blockConnected (BlockManager.headerOf { bm with activeChain := c } p) p], ?_, hp', ?_⟩
    · unfold BlockManager.connectAll at hl ⊢
      rw [List.foldl_append, hl]
      simp only [List.foldl_cons, List.foldl_nil, hc', List.append_assoc]
    · have hprev : (BlockManager.headerOf { bm with activeChain := c } p).hashPrevBlock = q :=
        hashPrevBlock_headerOf (by rw [hm]; exact hq)
      rw [blockEdits_append, hes, pushes_concat, hs.getLast, ← hprev]
      rfl

end

/-! ## One activation step -/

section
variable {getHash : CBlockHeader → Uint256} {params : ConsensusParams} {genesis : BlockPtr}
  {s : ChainstateManager}

/-- What a switch of the tip to `p` leaves: the path to `p`, and fewer candidates. -/
structure Switched (s : ChainstateManager) (p : BlockPtr) (s' : ChainstateManager) : Prop where
  path : CChain.IsPath s.blockIndex s'.activeChain p
  fewer : s'.candidates.Sublist s.candidates
  frame : s' =
    { s with
      activeChain := s'.activeChain
      candidates := s'.candidates }

theorem prune_sublist (c : ChainSelector) (bm : BlockManager) :
    ∃ l, c.pruneBlockIndexCandidates bm = { c with candidates := l } ∧ l.Sublist c.candidates := by
  unfold ChainSelector.pruneBlockIndexCandidates
  split
  · exact ⟨_, rfl, List.Sublist.refl _⟩
  · exact ⟨_, rfl, List.filter_sublist⟩

variable (params) in
theorem switchTip_spec (W : Wf getHash genesis s) {old p f : BlockPtr} (hold : s.getTip = some old)
    (hf : IsFork s.blockIndex.pprev old p f) :
    (ChainstateManager.switchTip params s (some f) p).result = .OK ∧
      Switched s p (ChainstateManager.switchTip params s (some f) p).state ∧
      Moves s.blockIndex old p ((ChainstateManager.switchTip params s (some f) p).immediate ++
        (ChainstateManager.switchTip params s (some f) p).events) := by
  have T := W.tree.toTreeShape
  have hpath := W.isPath hold
  obtain ⟨c, l, es, hd, hcf, hl, hes⟩ := disconnectTo_path T f s.activeChain.length s.toBlockManager [] old rfl
    hpath hf.left (by have := hpath.length; omega)
  obtain ⟨l', hl', hs'⟩ := connectBlocks_segment T f ((s.blockIndex.nHeight p).toNat + 1) p [] hf.right
    (by have : (s.blockIndex.nHeight p).toNat = s.blockIndex.rank p := rfl; omega)
  rw [List.append_nil] at hl'
  obtain ⟨c', es', hc', hp', hes'⟩ := connectAll_path T hs' { s.toBlockManager with activeChain := c }
    es rfl hcf
  obtain ⟨cs, hcs, hsub⟩ := prune_sublist s.toChainSelector { s.toBlockManager with activeChain := c' }
  unfold ChainstateManager.switchTip
  simp only [hd, List.nil_append, Bool.not_true, Bool.false_eq_true, if_false, hl', hc', hcs]
  refine ⟨trivial, ⟨hp', hsub, rfl⟩, f, l, l', hf, hl, hs', ?_⟩
  simp only [blockEdits_append, ← hes, ← hes']
  split <;> simp [blockEdits_cons, Notification.edit]

theorem Switched.getTip {p : BlockPtr} {s' : ChainstateManager} (h : Switched s p s') : s'.getTip = some p :=
  h.path.tip_eq

variable (params) in
theorem activateBestChainStep_cases (W : Wf getHash genesis s) {old p : BlockPtr} (hold : s.getTip = some old)
    (hp : p ∈ s.blockIndex) :
    (ChainstateManager.activateBestChainStep params s p = { state := s, result := .OK } ∧
      s.blockIndex.nChainWork p ≤ s.blockIndex.nChainWork old) ∨
    (∃ f im, ChainstateManager.activateBestChainStep params s p =
        { state := s, result := .POLICY_REFUSED, immediate := im } ∧ blockEdits im = [] ∧
      IsFork s.blockIndex.pprev old p f ∧
      ChainstateManager.suspiciousReorg params s.blockIndex old f = true) ∨
    (∃ f, (ChainstateManager.activateBestChainStep params s p).result = .OK ∧
      IsFork s.blockIndex.pprev old p f ∧
      ChainstateManager.suspiciousReorg params s.blockIndex old f = false ∧
      s.blockIndex.nChainWork old < s.blockIndex.nChainWork p ∧
      Switched s p (ChainstateManager.activateBestChainStep params s p).state ∧
      Moves s.blockIndex old p ((ChainstateManager.activateBestChainStep params s p).immediate ++
        (ChainstateManager.activateBestChainStep params s p).events)) := by
  unfold ChainstateManager.activateBestChainStep
  rw [hold]
  simp only []
  by_cases h1 : old = p
  · subst h1
    simp
  · rw [if_neg h1]
    by_cases h2 : s.blockIndex.nChainWork p ≤ s.blockIndex.nChainWork old
    · rw [if_pos h2]
      exact .inl ⟨rfl, h2⟩
    · rw [if_neg h2]
      obtain ⟨f, hf, hfork⟩ := W.tree.toTreeShape.lastCommonAncestor_spec (W.tip_mem hold) hp
      rw [hf]
      simp only []
      by_cases h3 : ChainstateManager.suspiciousReorg params s.blockIndex old f = true
      · rw [if_pos h3]
        exact .inr (.inl ⟨f, _, rfl, rfl, hfork, h3⟩)
      · rw [if_neg h3]
        obtain ⟨hr, hs⟩ := switchTip_spec params W hold hfork
        exact .inr (.inr ⟨f, hr, hfork, by simpa using h3, BitVec.not_le.mp h2, hs⟩)

end

/-! ## A whole activation -/

section
variable {getHash : CBlockHeader → Uint256} {params : ConsensusParams} {genesis : BlockPtr}
  {s : ChainstateManager}

/-- The effect of `ActivateBestChain` on a well-formed state: the chain stays, or it becomes
the path to a block with more work that forks off less deep than the policy allows and does not
lie past the expiration. `given`
is the candidate passed in. -/
structure Activated (params : ConsensusParams) (s : ChainstateManager) (given : Option BlockPtr)
    (s' : ChainstateManager) : Prop where
  frame : s' =
    { s with
      activeChain := s'.activeChain
      candidates := s'.candidates }
  fewer : s'.candidates.Sublist s.candidates
  chain : s'.activeChain = s.activeChain ∨ ∃ old p f, s.getTip = some old ∧ p ∈ s.blockIndex ∧
    (given = some p ∨ (p ∈ s.candidates ∧ s.blockIndex.isValid p = true)) ∧
    s.blockIndex.nChainWork old < s.blockIndex.nChainWork p ∧ IsFork s.blockIndex.pprev old p f ∧
    ChainstateManager.suspiciousReorg params s.blockIndex old f = false ∧
    ChainstateManager.pastExpiration params s.blockIndex p = false ∧ CChain.IsPath s.blockIndex s'.activeChain p

theorem Activated.wf (W : Wf getHash genesis s) {given : Option BlockPtr} {s' : ChainstateManager}
    (h : Activated params s given s') : Wf getHash genesis s' := by
  rw [h.frame]
  rcases h.chain with hc | ⟨_, p, _, -, hp, -, -, -, -, -, hpath⟩
  · rw [hc]
    exact W.sublistCandidates h.fewer
  · exact (W.withChain hp hpath).sublistCandidates h.fewer

/-- Rounds that only drop candidates before the last one do not matter. -/
theorem Activated.of_fewer {l : List BlockPtr} (hl : l.Sublist s.candidates) {given : Option BlockPtr}
    {s' : ChainstateManager} (h : Activated params { s with candidates := l } none s') :
    Activated params s given s' := by
  refine ⟨h.frame, h.fewer.trans hl, ?_⟩
  rcases h.chain with hc | ⟨old, p, f, h1, h2, h3, h4⟩
  · exact .inl hc
  · refine .inr ⟨old, p, f, h1, h2, .inr ?_, h4⟩
    rcases h3 with h3 | ⟨h3, h3'⟩
    · cases h3
    · exact ⟨hl.subset h3, h3'⟩

/-- What a call answers with and sends on top of `sent`: no block event, or those of the
move to the new tip. -/
def Reports (s : ChainstateManager) (sent : List Notification)
    (r : ChainstateManager × Bool × List Notification) : Prop :=
  ∃ es, r.2.2 = sent ++ es ∧
    ((r.1.activeChain = s.activeChain ∧ blockEdits es = []) ∨
      r.2.1 = true ∧ ∃ old p, s.getTip = some old ∧ CChain.IsPath s.blockIndex r.1.activeChain p ∧
        s.blockIndex.nChainWork old < s.blockIndex.nChainWork p ∧ Moves s.blockIndex old p es)

/-- Events sent before that are no block events do not matter. -/
theorem Reports.of_silent {sent im : List Notification} {r : ChainstateManager × Bool × List Notification}
    (him : blockEdits im = []) (h : Reports s (sent ++ im) r) : Reports s sent r := by
  obtain ⟨es, hsent, hes⟩ := h
  refine ⟨im ++ es, by rw [hsent, List.append_assoc], ?_⟩
  rcases hes with ⟨hc, he⟩ | ⟨hok, old, p, hold, hp, hw, f, l, l', hf, hl, hl', he⟩
  · exact .inl ⟨hc, by rw [blockEdits_append, him, he]; rfl⟩
  · exact .inr ⟨hok, old, p, hold, hp, hw, f, l, l', hf, hl, hl', by rw [blockEdits_append, him, he]; rfl⟩

theorem activateLoop_spec : ∀ (fuel : Nat) (s : ChainstateManager) (given : Option BlockPtr)
    (sent : List Notification), Wf getHash genesis s → (∀ p, given = some p → p ∈ s.blockIndex) →
      Activated params s given (ChainstateManager.activateLoop params fuel s given sent).1 ∧
        Reports s sent (ChainstateManager.activateLoop params fuel s given sent) := by
  intro fuel
  induction fuel with
  | zero =>
    intro s given sent _ _
    exact ⟨⟨rfl, List.Sublist.refl _, .inl rfl⟩, [], (List.append_nil _).symm, .inl ⟨rfl, rfl⟩⟩
  | succ fuel ih =>
    intro s given sent W hgiven
    have hres : ∃ l, (s.resolveCandidate given).1 = { s with candidates := l } ∧ l.Sublist s.candidates ∧
        ∀ p, (s.resolveCandidate given).2 = some p → p ∈ s.blockIndex ∧
          (given = some p ∨ (p ∈ s.candidates ∧ s.blockIndex.isValid p = true)) := by
      cases given with
      | some p => exact ⟨s.candidates, rfl, List.Sublist.refl _, fun q hq => by
          cases hq; exact ⟨hgiven p rfl, .inl rfl⟩⟩
      | none =>
        obtain ⟨l, he, hsub, -, hv, -⟩ := resolveCandidate_spec s
        rw [he]
        refine ⟨l, rfl, hsub, fun p hp => ?_⟩
        have hpc : p ∈ s.candidates := hsub.subset (List.mem_of_mem_head? hp)
        exact ⟨W.candidates p hpc, .inr ⟨hpc, hv p hp⟩⟩
    obtain ⟨l, h1, hsub, hchoice⟩ := hres
    have hkeep : Activated params s given { s with candidates := l } := ⟨rfl, hsub, .inl rfl⟩
    unfold ChainstateManager.activateLoop
    rcases hr : s.resolveCandidate given with ⟨s1, o⟩
    rw [hr] at h1 hchoice
    simp only [] at h1 hchoice
    subst h1
    have hsilent : ∀ b es, blockEdits es = [] → Reports s sent ({ s with candidates := l }, b, sent ++ es) :=
      fun b es hes => ⟨es, rfl, .inl ⟨rfl, hes⟩⟩
    cases o with
    | none => exact ⟨hkeep, by simpa using hsilent true [] rfl⟩
    | some p =>
      obtain ⟨hp, hpc⟩ := hchoice p rfl
      have W1 := W.sublistCandidates hsub
      obtain ⟨old, -, hold, -⟩ := W1.tip_exists
      simp only []
      split
      · exact ⟨hkeep, by simpa using hsilent true [] rfl⟩
      · split
        · exact ⟨hkeep, hsilent false _ rfl⟩
        · rename_i hexp
          rcases activateBestChainStep_cases params W1 hold hp with
            ⟨he, -⟩ | ⟨f, im, he, him, -⟩ | ⟨f, hok, hfork, hsus, hwork, hsw, hmoves⟩
          · rw [he]
            exact ⟨hkeep, by simpa using hsilent true [] rfl⟩
          · -- the next round starts from the state without the refused candidate
            rw [he]
            obtain ⟨hact, hrep⟩ := ih _ none (sent ++ im) (W1.dropCandidate p) (fun q hq => by cases hq)
            exact ⟨hact.of_fewer (List.filter_sublist.trans hsub), hrep.of_silent him⟩
          · rw [hok]
            refine ⟨⟨hsw.frame, hsw.fewer.trans hsub,
              .inr ⟨old, p, f, hold, hp, hpc, hwork, hfork, hsus, by simpa using hexp, hsw.path⟩⟩, _, List.append_assoc _ _ _, .inr ?_⟩
            exact ⟨rfl, old, p, hold, hsw.path, hwork, hmoves⟩

variable (params) in
theorem activateBestChain_spec (W : Wf getHash genesis s) (given : Option BlockPtr)
    (hgiven : ∀ p, given = some p → p ∈ s.blockIndex) :
    Activated params s given (ChainstateManager.activateBestChain params s given).1 :=
  (activateLoop_spec _ s given [] W hgiven).1

variable (params) in
theorem activateBestChain_reports (W : Wf getHash genesis s) (given : Option BlockPtr)
    (hgiven : ∀ p, given = some p → p ∈ s.blockIndex) :
    Reports s [] (ChainstateManager.activateBestChain params s given) :=
  (activateLoop_spec _ s given [] W hgiven).2

/-- With the reorganisation policy and the expiration off, the first valid candidate is
activated if it has more work than the tip; no valid candidate has more work afterwards. -/
theorem activateBestChain_best (W : Wf getHash genesis s) (hpol : params.nSuspiciousReorgDepth ≤ 0)
    (hexp : params.nNetworkExpirationInterval = 0) :
    (ChainstateManager.activateBestChain params s none).2.1 = true ∧
      ∃ tip, (ChainstateManager.activateBestChain params s none).1.getTip = some tip ∧
        (∀ old, s.getTip = some old → s.blockIndex.nChainWork old ≤ s.blockIndex.nChainWork tip) ∧
        ∀ q ∈ s.candidates, s.blockIndex.isValid q = true →
          s.blockIndex.nChainWork q ≤ s.blockIndex.nChainWork tip := by
  obtain ⟨l, he, hsub, -, hv, hbest⟩ := resolveCandidate_spec s
  have hbest := hbest W.sorted
  obtain ⟨old, hom, hold, -⟩ := W.tip_exists
  have W1 := W.sublistCandidates hsub
  unfold ChainstateManager.activateBestChain ChainstateManager.activateLoop
  rw [he]
  cases hl : l.head? with
  | none =>
    refine ⟨rfl, old, hold, fun o ho => by rw [hold] at ho; cases ho; exact BitVec.le_refl _, ?_⟩
    intro q hq hqv
    obtain ⟨l', he', -, hmem, -⟩ := resolveCandidate_spec s
    rw [he] at he'
    have : l = l' := by
      have := congrArg (fun r => r.1.candidates) he'
      exact this
    subst this
    have := hmem q hq hqv
    rw [List.head?_eq_none_iff.mp hl] at this
    cases this
  | some p =>
    have hpc : p ∈ s.candidates := hsub.subset (List.mem_of_mem_head? hl)
    have hp := W.candidates p hpc
    have htop : ∀ q ∈ s.candidates, s.blockIndex.isValid q = true →
        s.blockIndex.nChainWork q ≤ s.blockIndex.nChainWork p := by
      intro q hq hqv
      rcases hbest p hl q hq hqv with rfl | h
      · exact BitVec.le_refl _
      · exact workBefore_work h
    have hexp' : ChainstateManager.pastExpiration params s.blockIndex p = false := by
      simp [ChainstateManager.pastExpiration, hexp]
    simp only []
    split
    · rename_i htip
      have : old = p := by rw [show s.getTip = some p from htip] at hold; exact (Option.some.inj hold).symm
      subst this
      exact ⟨rfl, old, hold, fun o ho => by rw [hold] at ho; cases ho; exact BitVec.le_refl _, htop⟩
    · rw [hexp']
      simp only [Bool.false_eq_true, if_false]
      rcases activateBestChainStep_cases params W1 hold hp with
        ⟨hst, hw⟩ | ⟨f, im, -, -, -, hsus⟩ | ⟨f, hok, -, -, hwork, hsw, -⟩
      · rw [hst]
        exact ⟨rfl, old, hold, fun o ho => by rw [hold] at ho; cases ho; exact BitVec.le_refl _,
          fun q hq hqv => BitVec.le_trans (htop q hq hqv) hw⟩
      · have : ¬ (0 < params.nSuspiciousReorgDepth) := by omega
        simp [ChainstateManager.suspiciousReorg, this] at hsus
      · rw [hok]
        exact ⟨rfl, p, hsw.getTip, fun o ho => by rw [hold] at ho; cases ho; exact BitVec.le_of_lt hwork, htop⟩

theorem Wf.activateBestChain (W : Wf getHash genesis s) (given : Option BlockPtr)
    (hgiven : ∀ p, given = some p → p ∈ s.blockIndex) :
    Wf getHash genesis (ChainstateManager.activateBestChain params s given).1 :=
  (activateBestChain_spec _ W given hgiven).wf W

variable (params) in
theorem activateBestChain_index (W : Wf getHash genesis s) (given : Option BlockPtr)
    (hgiven : ∀ p, given = some p → p ∈ s.blockIndex) :
    (ChainstateManager.activateBestChain params s given).1.blockIndex = s.blockIndex := by
  rw [(activateBestChain_spec _ W given hgiven).frame]

end

end UnicityPow
