import UnicityPow.AtomicSound
import UnicityPow.GateSound
import UnicityPow.RecoverySound
import UnicityPow.ResolutionSound
import UnicityPow.SelectionSound

/-!
# The tip after a batch of headers

The accept loop inserts headers and registers candidates as it goes, and activation comes after
it. A header that ends the message ends it before activation, so what the batch inserted by then
stays without it.
-/

namespace UnicityPow

open Forest BlockMap ChainstateManager

/-! ## Activation and coverage -/

section
variable {getHash : CBlockHeader → Uint256} {params : ConsensusParams} {genesis : BlockPtr} {c : ChainstateManager}

/-- With the policy and the expiration off, activation reaches a best block exactly when each
valid block above the tip has a valid candidate with at least its work. -/
theorem activateBestChain_tipIsBest_iff (W : Wf getHash genesis c) (hpol : params.nSuspiciousReorgDepth ≤ 0)
    (hexp : params.nNetworkExpirationInterval ≤ 0) :
    (activateBestChain params c none).1.TipIsBest ↔ c.Covered := by
  obtain ⟨old, -, hold, -⟩ := W.tip_exists
  obtain ⟨-, hsel⟩ := activateLoop_selects hexp _ c [] W hold (Nat.lt_add_of_pos_right (by decide : 0 < 2))
  change Selected params c old (activateBestChain params c none).1 at hsel
  have hindex : (activateBestChain params c none).1.blockIndex = c.blockIndex :=
    activateBestChain_index params W none (fun _ h => by cases h)
  have hadm : ∀ p, p ∈ c.candidates → c.blockIndex.isValid p = true →
      c.blockIndex.nChainWork old < c.blockIndex.nChainWork p → Admissible params c old p :=
    fun p hp hv hw => ⟨hp, hv, hw, fun hd => by omega⟩
  unfold ChainstateManager.Covered ChainstateManager.TipIsBest
  rw [hindex, hold]
  rcases hsel.outcome with ⟨p, hp, hfirst, htip, -⟩ | ⟨hnone, hchain, -⟩
  · rw [htip]
    constructor
    · rintro ⟨tip, htip', hbest⟩ old' - q hq
      cases htip'
      exact .inr ⟨p, hp.mem, hp.valid, hbest q hq⟩
    · refine fun hcov => ⟨p, rfl, fun q hq => ?_⟩
      rcases hcov old rfl q hq with hle | ⟨r, hr, hrv, hle⟩
      · exact BitVec.le_trans hle (BitVec.le_of_lt hp.work)
      · by_cases hw : c.blockIndex.nChainWork old < c.blockIndex.nChainWork r
        · rcases hfirst r (hadm r hr hrv hw) with rfl | hb
          · exact hle
          · exact BitVec.le_trans hle (workBefore_work hb)
        · exact BitVec.le_trans hle (BitVec.le_trans (BitVec.not_lt.mp hw) (BitVec.le_of_lt hp.work))
  · have htip : (activateBestChain params c none).1.getTip = some old := by
      unfold BlockManager.getTip
      rw [hchain]
      exact hold
    rw [htip]
    constructor
    · rintro ⟨tip, htip', hbest⟩ old' hold' q hq
      cases htip'
      cases hold'
      exact .inl (hbest q hq)
    · refine fun hcov => ⟨old, rfl, fun q hq => ?_⟩
      rcases hcov old rfl q hq with hle | ⟨r, hr, hrv, hle⟩
      · exact hle
      · refine BitVec.le_trans hle (BitVec.not_lt.mp fun hw => ?_)
        exact hnone r (hadm r hr hrv hw)

end

/-! ## Pooling a header -/

section
variable {getHash : CBlockHeader → Uint256} {params : ConsensusParams} {env : Env} {s : ChainstateManager}

theorem foldl_dropOrphan_sub (l : List (Uint256 × OrphanHeader)) (s : ChainstateManager) (k : Uint256) (v : OrphanHeader)
    (hk : (l.foldl (fun s kv => s.dropOrphan kv.1 kv.2) s).orphanHeaders[k]? = some v) :
    s.orphanHeaders[k]? = some v := by
  induction l generalizing s with
  | nil => exact hk
  | cons kv l ih =>
    have h := ih _ hk
    rw [dropOrphan_orphanHeaders, Std.ExtTreeMap.getElem?_erase] at h
    split at h
    · cases h
    · exact h

variable (params env) in
theorem evictOrphanHeaders_sub (s : ChainstateManager) (k : Uint256) (v : OrphanHeader)
    (hk : (s.evictOrphanHeaders params env).1.orphanHeaders[k]? = some v) : s.orphanHeaders[k]? = some v := by
  unfold evictOrphanHeaders at hk
  dsimp only at hk
  split at hk
  · split at hk
    · exact foldl_dropOrphan_sub _ s k v hk
    · rename_i kv _
      exact foldl_dropOrphan_sub _ s k v (foldl_dropOrphan_sub [kv] _ k v hk)
  · exact foldl_dropOrphan_sub _ s k v hk

variable (getHash params env) in
/-- `AddOrphanHeader` changes the pool only, and adds no header but the one it is given. -/
theorem addOrphanHeader_adds (s : ChainstateManager) (header : CBlockHeader) (peerId : Int) :
    ∃ o n, (s.addOrphanHeader getHash params env header peerId).1 = s.withPool o n ∧
      ∀ (k : Uint256) (v : OrphanHeader), o[k]? = some v → s.orphanHeaders[k]? = some v ∨ v.header = header := by
  obtain ⟨o, n, he⟩ := addOrphanHeader_pool getHash params env s header peerId
  refine ⟨o, n, he, fun k v hk => ?_⟩
  have hk : (s.addOrphanHeader getHash params env header peerId).1.orphanHeaders[k]? = some v := by
    rw [he]
    exact hk
  have hinsert : ∀ (m : Std.ExtTreeMap Uint256 OrphanHeader compare),
      (m.insert (getHash header) ⟨header, env.time, peerId⟩)[k]? = some v → m[k]? = some v ∨ v.header = header := by
    intro m hm
    rw [Std.ExtTreeMap.getElem?_insert] at hm
    split at hm
    · cases hm
      exact .inr rfl
    · exact .inl hm
  have hsub := evictOrphanHeaders_sub params env
    { s with peerOrphanCount := s.peerOrphanCount.insertIfNew peerId 0 } k v
  unfold addOrphanHeader at hk
  dsimp only at hk
  split at hk
  · exact .inl hk
  split at hk
  · exact .inl hk
  by_cases hfull : MAX_ORPHAN_HEADERS ≤ s.orphanHeaders.size
  · simp only [hfull, if_true] at hk
    split at hk
    · exact .inl (hsub hk)
    · exact (hinsert _ hk).imp_left hsub
  · simp only [hfull, if_false] at hk
    exact hinsert _ hk

end

/-! ## The accept loop -/

namespace NetworkManager

section
variable {getHash : CBlockHeader → Uint256} {params : ConsensusParams} {env : NetEnv} {genesis : BlockPtr}
  {s t : NetworkManager} {peerId : Int} {skipDos : Bool}

theorem acceptHeaders_append {pre : List CBlockHeader} (h : acceptHeaders getHash params env peerId skipDos pre s = (t, true))
    (l : List CBlockHeader) : acceptHeaders getHash params env peerId skipDos (pre ++ l) s =
      acceptHeaders getHash params env peerId skipDos l t := by
  induction pre generalizing s with
  | nil =>
    cases h
    rfl
  | cons x pre ih =>
    rw [List.cons_append, acceptHeaders]
    rw [acceptHeaders] at h
    split at h
    · cases h
    · exact ih h

/-- A loop that ends early ends at a header that it gives up on. -/
theorem acceptHeaders_givesUp : ∀ {l : List CBlockHeader} {s t : NetworkManager},
    acceptHeaders getHash params env peerId skipDos l s = (t, false) →
      ∃ pre x post r, l = pre ++ x :: post ∧ acceptHeaders getHash params env peerId skipDos pre s = (r, true) ∧
        r.acceptHeader getHash params env peerId skipDos x = (t, false)
  | [], _, _, h => by cases h
  | x :: l, s, t, h => by
    rw [acceptHeaders] at h
    split at h <;> rename_i r heq
    · cases h
      exact ⟨[], x, l, s, rfl, rfl, heq⟩
    · obtain ⟨pre, y, post, r', rfl, hpre, hy⟩ := acceptHeaders_givesUp h
      refine ⟨x :: pre, y, post, r', rfl, ?_, hy⟩
      rw [acceptHeaders, heq]
      exact hpre

theorem handleRefused_blocks {header : CBlockHeader} {reason : String} {b : Bool}
    (h : s.handleRefused getHash params env peerId skipDos header reason = (t, b)) :
    ∃ o n, t.chainstate = s.chainstate.withPool o n ∧ ∀ (k : Uint256) (v : OrphanHeader), o[k]? = some v →
      s.chainstate.orphanHeaders[k]? = some v ∨ v.header = header := by
  have hsame : t.chainstate = s.chainstate → ∃ o n, t.chainstate = s.chainstate.withPool o n ∧
      ∀ (k : Uint256) (v : OrphanHeader), o[k]? = some v → s.chainstate.orphanHeaders[k]? = some v ∨ v.header = header :=
    fun he => ⟨s.chainstate.orphanHeaders, s.chainstate.peerOrphanCount, he, fun k v hk => .inl hk⟩
  have hpenal : s.penaliseHeader env peerId (getHash header) = (t, b) → t.chainstate = s.chainstate := by
    intro he
    rw [← penaliseHeader_chainstate s peerId (getHash header), he]
  unfold handleRefused at h
  dsimp only at h
  split at h
  · have hadd := addOrphanHeader_adds getHash params env.toEnv s.chainstate header peerId
    split at h <;> rename_i heq <;> rw [heq] at hadd <;> cases h
    · exact hadd
    · rw [dropBatch_chainstate]
      exact hadd
  split at h
  · split at h
    · cases h
      exact hsame rfl
    split at h
    · cases h
      exact hsame rfl
    · exact hsame (hpenal h)
  split at h
  · exact hsame (hpenal h)
  · cases h
    exact hsame rfl

/-- The header that ends the loop leaves the blocks and the chain as they were. -/
theorem acceptHeader_givesUp (W : Wf getHash genesis s.chainstate) {header : CBlockHeader}
    (h : s.acceptHeader getHash params env peerId skipDos header = (t, false)) :
    SameBlocks s.chainstate t.chainstate := by
  unfold acceptHeader at h
  split at h
  · cases h
  · rename_i c state heq
    have hc : c = s.chainstate := by
      rcases acceptBlockHeader_exits params W env.toEnv header true with ⟨hs, -⟩ | ⟨-, hok, -⟩
      · rw [heq] at hs
        exact hs
      · rw [heq] at hok
        cases hok
    subst hc
    obtain ⟨o, n, he, -⟩ := handleRefused_blocks h
    rw [he]
    exact ⟨rfl, rfl⟩

/-- A round that goes on accepts its header and registers it, or changes the pool only. -/
theorem acceptHeader_goesOn (W : Wf getHash genesis s.chainstate) {header : CBlockHeader}
    (h : s.acceptHeader getHash params env peerId skipDos header = (t, true)) :
    (∃ c, s.chainstate.acceptBlockHeader getHash params env.toEnv header true = (c, .ok (getHash header)) ∧
        t.chainstate = c.tryAddCandidate (getHash header)) ∨
      ∃ o n, t.chainstate = s.chainstate.withPool o n ∧ ∀ (k : Uint256) (v : OrphanHeader), o[k]? = some v →
        s.chainstate.orphanHeaders[k]? = some v ∨ v.header = header := by
  unfold acceptHeader at h
  rcases acceptBlockHeader_exits params W env.toEnv header true with ⟨hs, ⟨state, he⟩ | ⟨he, -⟩⟩ | ⟨-, he, -⟩
  · right
    split at h <;> rename_i heq
    · rw [heq] at he
      cases he
    · rw [heq] at hs
      cases hs
      exact handleRefused_blocks h
  all_goals
    left
    split at h <;> rename_i heq
    · rw [heq] at he
      cases he
      cases h
      exact ⟨_, heq, rfl⟩
    · rw [heq] at he
      cases he

end

end NetworkManager

/-! ## What a batch inserts -/

section
variable {getHash : CBlockHeader → Uint256} {params : ConsensusParams} {env : Env} {genesis : BlockPtr}
  {c c' : ChainstateManager} {pre : List CBlockHeader}

/-- What the headers `pre` of a batch can have made of a state with an empty pool. -/
structure Offered (getHash : CBlockHeader → Uint256) (genesis : BlockPtr) (c : ChainstateManager) (pre : List CBlockHeader)
    (c' : ChainstateManager) : Prop where
  wf : Wf getHash genesis c'
  chain : c'.activeChain = c.activeChain
  pooled : ∀ (k : Uint256) (v : OrphanHeader), c'.orphanHeaders[k]? = some v → v.header ∈ pre
  new : ∀ p ∈ c'.blockIndex, p ∈ c.blockIndex ∨ ∃ y ∈ pre, getHash y = p
  old : ∀ p ∈ c.blockIndex, c'.blockIndex[p]? = c.blockIndex[p]?

theorem Offered.mono {pre' : List CBlockHeader} (h : Offered getHash genesis c pre c') (hsub : ∀ y ∈ pre, y ∈ pre') :
    Offered getHash genesis c pre' c' :=
  { h with
    pooled := fun k v hk => hsub _ (h.pooled k v hk)
    new := fun p hp => (h.new p hp).imp_right (fun ⟨y, hy, he⟩ => ⟨y, hsub y hy, he⟩) }

theorem Offered.withPool (h : Offered getHash genesis c pre c') {o : Std.ExtTreeMap Uint256 OrphanHeader compare}
    (n : Std.ExtTreeMap Int Int compare) (ho : ∀ (k : Uint256) (v : OrphanHeader), o[k]? = some v → v.header ∈ pre) :
    Offered getHash genesis c pre (c'.withPool o n) :=
  ⟨h.wf.withPool o n, h.chain, ho, h.new, h.old⟩

variable (params env) in
theorem Offered.acceptOne (h : Offered getHash genesis c pre c') {header : CBlockHeader} (hmem : header ∈ pre) :
    Offered getHash genesis c pre (c'.acceptOne getHash params env header true).1 := by
  rcases acceptOne_cases params env h.wf header true with ⟨st, he⟩ | ⟨he, -⟩ | ⟨s', b, he, -, -, hins⟩ <;> rw [he]
  · exact h
  · exact h
  · refine ⟨hins.wf h.wf, ?_, ?_, fun p hp => ?_, fun p hp => ?_⟩
    · rw [hins.frame]
      exact h.chain
    · rw [hins.frame]
      exact h.pooled
    · rcases hins.mem_iff.mp hp with rfl | hp
      · exact .inr ⟨header, hmem, rfl⟩
      · exact h.new p hp
    · have hp' : p ∈ c'.blockIndex := by
        obtain ⟨b', hb'⟩ := mem_iff.mp hp
        exact mem_of_get ((h.old p hp).trans hb')
      rw [hins.get_of_mem hp', h.old p hp]

theorem Offered.dropOrphan (h : Offered getHash genesis c pre c') (k : Uint256) (v : OrphanHeader) :
    Offered getHash genesis c pre (c'.dropOrphan k v) := by
  obtain ⟨n, hn⟩ := dropOrphan_pool c' k v
  have hsub := fun k' v' => foldl_dropOrphan_sub [(k, v)] c' k' v'
  rw [List.foldl_cons, List.foldl_nil, hn] at hsub
  rw [hn]
  exact h.withPool n (fun k' v' hk => h.pooled k' v' (hsub k' v' hk))

variable (params env) in
theorem Offered.processOrphanHeaders : ∀ (fuel : Nat) {c' : ChainstateManager} (parent : Uint256),
    Offered getHash genesis c pre c' →
      Offered getHash genesis c pre (ChainstateManager.processOrphanHeaders getHash params env fuel c' parent) := by
  intro fuel
  induction fuel with
  | zero => exact fun _ h => h
  | succ fuel ih =>
    intro c' parent h
    unfold ChainstateManager.processOrphanHeaders
    refine List.foldlRecOn _ _ h (fun t ht k _ => ?_)
    split
    · exact ht
    · rename_i v hv
      have h1 := (ht.dropOrphan k v).acceptOne params env (ht.pooled k v hv)
      split <;> rename_i heq <;> rw [heq] at h1
      · exact ih _ h1
      · exact h1

variable (params env) in
theorem Offered.acceptBlockHeader (h : Offered getHash genesis c pre c') {header : CBlockHeader} (hmem : header ∈ pre) :
    Offered getHash genesis c pre (c'.acceptBlockHeader getHash params env header true).1 := by
  have h1 := h.acceptOne params env hmem
  unfold ChainstateManager.acceptBlockHeader
  split <;> rename_i heq <;> rw [heq] at h1
  · exact h1
  · exact h1
  · exact h1.processOrphanHeaders params env _ _

theorem Offered.isValid (h : Offered getHash genesis c pre c') {p : BlockPtr} (hp : p ∈ c.blockIndex) :
    c'.blockIndex.isValid p = c.blockIndex.isValid p := by
  unfold BlockMap.isValid
  rw [h.old p hp]

theorem Offered.nChainWork (h : Offered getHash genesis c pre c') {p : BlockPtr} (hp : p ∈ c.blockIndex) :
    c'.blockIndex.nChainWork p = c.blockIndex.nChainWork p := by
  unfold BlockMap.nChainWork
  rw [h.old p hp]

theorem Offered.getTip (h : Offered getHash genesis c pre c') : c'.getTip = c.getTip := by
  unfold BlockManager.getTip
  rw [h.chain]

/-- The tip is the best block again exactly when no block of the batch has more work. -/
theorem Offered.tipIsBest_iff (W : Wf getHash genesis c) (hbest : c.TipIsBest) (h : Offered getHash genesis c pre c') :
    c'.TipIsBest ↔ ∀ tip, c'.getTip = some tip → ∀ y ∈ pre, c'.blockIndex.isValid (getHash y) = true →
      c'.blockIndex.nChainWork (getHash y) ≤ c'.blockIndex.nChainWork tip := by
  obtain ⟨tip, htip, hall⟩ := hbest
  have htip' : c'.getTip = some tip := h.getTip.trans htip
  constructor
  · rintro ⟨t, ht, hmax⟩ t' ht' y - hv
    rw [ht] at ht'
    cases ht'
    exact hmax _ hv
  · refine fun hno => ⟨tip, htip', fun p hv => ?_⟩
    rcases h.new p (mem_of_isValid hv) with hp | ⟨y, hy, rfl⟩
    · rw [h.isValid hp] at hv
      rw [h.nChainWork hp, h.nChainWork (W.tip_mem htip)]
      exact hall p hv
    · exact hno tip htip' y hy hv

/-- Each valid block of the batch has a valid candidate of the batch with at least its work, and
no block of the batch has less work than its parent. -/
structure Climbs (c c' : ChainstateManager) : Prop where
  reach : ∀ p ∉ c.blockIndex, c'.blockIndex.isValid p = true → ∃ q ∈ c'.candidates, q ∉ c.blockIndex ∧
    c'.blockIndex.isValid q = true ∧ c'.blockIndex.nChainWork p ≤ c'.blockIndex.nChainWork q
  grows : ∀ p q, p ∉ c.blockIndex → c'.blockIndex.pprev p = some q →
    c'.blockIndex.nChainWork q ≤ c'.blockIndex.nChainWork p

theorem Climbs.start (c : ChainstateManager) : Climbs c c where
  reach _ hp hv := absurd (mem_of_isValid hv) hp
  grows _ _ hp hq := absurd (mem_of_pprev hq) hp

/-- Registering a block of the index takes no candidate away but its own parent. -/
theorem Climbs.tryAddCandidate (W : Wf getHash genesis c) (h : Offered getHash genesis c pre c') (hc : Climbs c c')
    (p : BlockPtr) : Climbs c (c'.tryAddCandidate p) := by
  refine ⟨fun x hx hv => ?_, hc.grows⟩
  obtain ⟨q, hq, hqn, hqv, hle⟩ := hc.reach x hx hv
  by_cases hadd : c'.blockIndex.isValid p = true ∧ c'.blockIndex.hasChildren p = false
  · by_cases hpq : c'.blockIndex.pprev p = some q
    · -- a block that was there before has its parent there too
      have hp : p ∉ c.blockIndex := by
        intro hp
        obtain ⟨b, hb⟩ := mem_iff.mp hp
        rw [pprev_of_get ((h.old p hp).trans hb)] at hpq
        exact hqn (W.tree.parent p b q hb hpq).1
      refine ⟨p, ?_, hp, hadd.1, BitVec.le_trans hle (hc.grows p q hp hpq)⟩
      rw [mem_tryAddCandidate, if_pos hadd]
      exact .inl rfl
    · refine ⟨q, ?_, hqn, hqv, hle⟩
      rw [mem_tryAddCandidate, if_pos hadd]
      exact .inr ⟨hq, hpq⟩
  · refine ⟨q, ?_, hqn, hqv, hle⟩
    rw [mem_tryAddCandidate, if_neg hadd]
    exact hq

/-- A header that is inserted and registered, with no less work than its parent, is the candidate
for what its parent was a candidate for. -/
theorem Climbs.insert (h : Offered getHash genesis c pre c') (hc : Climbs c c') {header : CBlockHeader}
    {s' : ChainstateManager} {b : CBlockIndex} (hins : Inserted getHash genesis env c' header s' b)
    (hfit : WorkFits getHash c' header) : Climbs c (s'.tryAddCandidate (getHash header)) := by
  have hnew : getHash header ∉ c.blockIndex := fun hm => by
    obtain ⟨b', hb'⟩ := mem_iff.mp hm
    exact hins.isNew (mem_of_get ((h.old _ hm).trans hb'))
  have hcands : s'.candidates = c'.candidates := by rw [hins.frame]
  have hvalid : s'.blockIndex.isValid (getHash header) = true := by
    rw [isValid_of_get hins.get]
    exact hins.isValid
  have hgrows : ∀ p q, p ∉ c.blockIndex → s'.blockIndex.pprev p = some q →
      s'.blockIndex.nChainWork q ≤ s'.blockIndex.nChainWork p := by
    intro p q hp hq
    obtain ⟨e, he⟩ := mem_iff.mp (mem_of_pprev hq)
    rw [pprev_of_get he] at hq
    rcases hins.get_old he with ⟨rfl, rfl⟩ | ⟨-, he'⟩
    · rw [hins.pprev] at hq
      cases hq
      have hlt := hfit hins.isNew hins.prev_mem
      rw [hins.extends.nChainWork _ hins.prev_mem, nChainWork_of_get hins.get, hins.nChainWork, BitVec.le_def,
        BitVec.toNat_add]
      omega
    · have hqm := (h.wf.tree.parent p e q he' hq).1
      rw [hins.extends.nChainWork q hqm, hins.extends.nChainWork p (mem_of_get he')]
      exact hc.grows p q hp (by rw [pprev_of_get he', hq])
  have hmem : ∀ x, x ∈ (s'.tryAddCandidate (getHash header)).candidates ↔
      x = getHash header ∨ (x ∈ c'.candidates ∧ s'.blockIndex.pprev (getHash header) ≠ some x) := by
    intro x
    rw [mem_tryAddCandidate, if_pos ⟨hvalid, hins.isLeaf h.wf⟩, hcands]
  refine ⟨fun p hp hv => ?_, hgrows⟩
  change s'.blockIndex.isValid p = true at hv
  change ∃ q ∈ _, q ∉ c.blockIndex ∧ s'.blockIndex.isValid q = true ∧
    s'.blockIndex.nChainWork p ≤ s'.blockIndex.nChainWork q
  by_cases hpn : p = getHash header
  · subst hpn
    exact ⟨_, (hmem _).mpr (.inl rfl), hnew, hvalid, BitVec.le_refl _⟩
  · rw [hins.isValid_old hpn] at hv
    obtain ⟨q, hq, hqn, hqv, hle⟩ := hc.reach p hp hv
    have hqm := mem_of_isValid hqv
    rw [← hins.extends.nChainWork q hqm, ← hins.extends.nChainWork p (mem_of_isValid hv)] at hle
    by_cases hprev : s'.blockIndex.pprev (getHash header) = some q
    · exact ⟨_, (hmem _).mpr (.inl rfl), hnew, hvalid, BitVec.le_trans hle (hgrows _ q hnew hprev)⟩
    · refine ⟨q, (hmem q).mpr (.inr ⟨hq, hprev⟩), hqn, ?_, hle⟩
      rw [hins.isValid_old (fun e => hins.isNew (e ▸ hqm))]
      exact hqv

theorem Climbs.covered (hbest : c.TipIsBest) (W : Wf getHash genesis c) (h : Offered getHash genesis c pre c')
    (hc : Climbs c c') : c'.Covered := by
  obtain ⟨tip, htip, hall⟩ := hbest
  intro t ht p hv
  rw [h.getTip, htip] at ht
  cases ht
  by_cases hp : p ∈ c.blockIndex
  · rw [h.isValid hp] at hv
    rw [h.nChainWork hp, h.nChainWork (W.tip_mem htip)]
    exact .inl (hall p hv)
  · obtain ⟨q, hq, -, hqv, hle⟩ := hc.reach p hp hv
    exact .inr ⟨q, hq, hqv, hle⟩

/-- A header that no pooled one names as its parent sets off no resolution. -/
theorem acceptBlockHeader_alone {header : CBlockHeader}
    (halone : ∀ (k : Uint256) (v : OrphanHeader), c.orphanHeaders[k]? = some v → v.header.hashPrevBlock ≠ getHash header) :
    (c.acceptBlockHeader getHash params env header true).1 = (c.acceptOne getHash params env header true).1 := by
  obtain ⟨-, hkey, -⟩ := acceptOne_keys getHash params env c header true
  have hpool := (acceptOne_pool getHash params env c header true).1
  unfold ChainstateManager.acceptBlockHeader
  split <;> rename_i heq <;> rw [heq] at hkey hpool ⊢
  rename_i s1 pindex
  obtain rfl := hkey pindex rfl
  have hnone : s1.orphansOf (getHash header) = [] := by
    rw [List.eq_nil_iff_forall_not_mem]
    intro k hk
    obtain ⟨⟨k', v⟩, hkv, rfl⟩ := List.mem_map.mp hk
    have hget := Std.ExtTreeMap.mem_toList_iff_getElem?_eq_some.mp (List.mem_filter.mp hkv).1
    have hprev := (mem_orphansOf hget).mp hk
    rw [hpool] at hget
    exact halone k' v hget hprev
  change ChainstateManager.processOrphanHeaders getHash params env s1.orphanHeaders.size s1 (getHash header) = s1
  cases s1.orphanHeaders.size with
  | zero => rfl
  | succ n =>
    unfold ChainstateManager.processOrphanHeaders
    rw [hnone]
    rfl

variable (params env) in
theorem Climbs.acceptBlockHeader (W : Wf getHash genesis c) (h : Offered getHash genesis c pre c') (hc : Climbs c c')
    {header : CBlockHeader} (halone : ∀ y ∈ pre, y.hashPrevBlock ≠ getHash header) (hfit : WorkFits getHash c' header) :
    Climbs c ((c'.acceptBlockHeader getHash params env header true).1.tryAddCandidate (getHash header)) := by
  rw [acceptBlockHeader_alone (fun k v hk => halone _ (h.pooled k v hk))]
  rcases acceptOne_cases params env h.wf header true with ⟨st, he⟩ | ⟨he, -⟩ | ⟨s', b, he, -, -, hins⟩ <;> rw [he]
  · exact hc.tryAddCandidate W h _
  · exact hc.tryAddCandidate W h _
  · exact hc.insert h hins hfit

end

namespace NetworkManager

section
variable {getHash : CBlockHeader → Uint256} {params : ConsensusParams} {env : NetEnv} {genesis : BlockPtr}
  {c : ChainstateManager} {s t : NetworkManager} {peerId : Int} {skipDos b : Bool} {header : CBlockHeader}
  {l pre : List CBlockHeader}

/-! ## Runs of the accept loop -/

theorem acceptHeader_offered (h : Offered getHash genesis c pre s.chainstate)
    (hs : s.acceptHeader getHash params env peerId skipDos header = (t, b)) :
    Offered getHash genesis c (pre ++ [header]) t.chainstate := by
  have h' : Offered getHash genesis c (pre ++ [header]) s.chainstate := h.mono (fun y hy => by simp [hy])
  have hpool : ∀ {u : NetworkManager} {o : Std.ExtTreeMap Uint256 OrphanHeader compare} {n},
      u.chainstate = s.chainstate.withPool o n → (∀ (k : Uint256) (v : OrphanHeader), o[k]? = some v →
        s.chainstate.orphanHeaders[k]? = some v ∨ v.header = header) →
      Offered getHash genesis c (pre ++ [header]) u.chainstate := by
    intro u o n he ho
    rw [he]
    refine h'.withPool n (fun k v hk => ?_)
    rcases ho k v hk with hk | rfl
    · exact h'.pooled k v hk
    · simp
  have haccept := h'.acceptBlockHeader params env.toEnv (List.mem_append_right pre (List.mem_singleton_self header))
  unfold acceptHeader at hs
  rcases hr : s.chainstate.acceptBlockHeader getHash params env.toEnv header true with ⟨chain, state | pindex⟩ <;>
    rw [hr] at hs haccept
  · have hchain : chain = s.chainstate := by
      rcases acceptBlockHeader_exits params h.wf env.toEnv header true with ⟨he, -⟩ | ⟨-, hok, -⟩
      · rw [hr] at he
        exact he
      · rw [hr] at hok
        cases hok
    subst hchain
    obtain ⟨o, n, he, ho⟩ := handleRefused_blocks hs
    exact hpool he ho
  · cases hs
    exact ⟨haccept.wf.tryAddCandidate _, haccept.chain, haccept.pooled, haccept.new, haccept.old⟩

theorem acceptHeaders_offered : ∀ {l pre : List CBlockHeader} {s : NetworkManager},
    Offered getHash genesis c pre s.chainstate → acceptHeaders getHash params env peerId skipDos l s = (t, b) →
      Offered getHash genesis c (pre ++ l) t.chainstate
  | [], pre, s, h, hs => by
    cases hs
    rw [List.append_nil]
    exact h
  | header :: l, pre, s, h, hs => by
    rw [acceptHeaders] at hs
    split at hs <;> rename_i u heq
    · cases hs
      exact (acceptHeader_offered h heq).mono (fun y hy => by simp at hy ⊢; tauto)
    · have := acceptHeaders_offered (acceptHeader_offered h heq) hs
      rw [List.append_assoc, List.singleton_append] at this
      exact this

theorem acceptHeaders_climbs (W : Wf getHash genesis c) : ∀ {l pre : List CBlockHeader} {s : NetworkManager},
    Offered getHash genesis c pre s.chainstate → Climbs c s.chainstate →
    (pre ++ l).Pairwise (fun y x => y.hashPrevBlock ≠ getHash x) →
    (∀ pre' x post r, l = pre' ++ x :: post → acceptHeaders getHash params env peerId skipDos pre' s = (r, true) →
      WorkFits getHash r.chainstate x) →
    acceptHeaders getHash params env peerId skipDos l s = (t, true) → Climbs c t.chainstate
  | [], pre, s, h, hc, hord, hfit, hs => by
    cases hs
    exact hc
  | header :: l, pre, s, h, hc, hord, hfit, hs => by
    rw [acceptHeaders] at hs
    split at hs <;> rename_i u heq
    · cases hs
    · have hcu : Climbs c u.chainstate := by
        rcases acceptHeader_goesOn h.wf heq with ⟨c', he, hu⟩ | ⟨o, n, hu, -⟩
        · have hnext := hc.acceptBlockHeader params env.toEnv W h
            (fun y hy => (List.pairwise_append.mp hord).2.2 y hy header List.mem_cons_self) (hfit [] header l s rfl rfl)
          rw [he] at hnext
          rw [hu]
          exact hnext
        · rw [hu]
          exact ⟨hc.reach, hc.grows⟩
      refine acceptHeaders_climbs W (acceptHeader_offered h heq) hcu (by simpa using hord) ?_ hs
      intro pre' x post r hl hr
      refine hfit (header :: pre') x post r (by rw [hl]; rfl) ?_
      rw [acceptHeaders, heq]
      exact hr

/-! ## The message around the loop -/

variable (getHash params env) in
/-- The batch reaches the accept loop. -/
structure EntersLoop (s : NetworkManager) (peerId : Int) (headers : List CBlockHeader) : Prop where
  nonempty : headers ≠ []
  size : headers.length ≤ MAX_HEADERS_SIZE
  ungated : (s.isInitialBlockDownload params env).2 = true → s.gatesBatch peerId headers = false
  commitment : s.chainstate.checkHeadersPoW env.toEnv headers = true
  continuous : checkHeadersAreContinuous getHash headers = true
  work : s.skipDosChecks getHash headers = true ∨ ∀ first ∈ headers.head?, s.isLowWork params headers first = false

variable (params env) in
/-- The state in which the accept loop starts. -/
def loopState (s : NetworkManager) (peerId : Int) (headers : List CBlockHeader) : NetworkManager :=
  let s := { (s.isInitialBlockDownload params env).1 with lastHeadersReceivedUs := env.nowUs }
  let s :=
    if headers.head?.any (fun first => decide (first.hashPrevBlock ∈ s.chainstate.blockIndex)) then
      s.resetUnconnectingHeaders peerId
    else (s.incrementUnconnectingHeaders peerId).removeIfMisbehaving env peerId
  { s with lastBatchSize := headers.length }

variable (params env) in
theorem loopState_chainstate (s : NetworkManager) (peerId : Int) (headers : List CBlockHeader) :
    (loopState params env s peerId headers).chainstate = (s.chainstate.isInitialBlockDownload params env.toEnv).1 := by
  unfold loopState
  dsimp only
  split
  · rfl
  · rw [removeIfMisbehaving_chainstate]
    rfl

variable (getHash params env) in
/-- `HandleHeadersMessage` on a batch that reaches the accept loop. -/
def runLoop (s : NetworkManager) (p : PeerPtr) (peerId : Int) (headers : List CBlockHeader) : NetworkManager × Bool :=
  match acceptHeaders getHash params env peerId (s.skipDosChecks getHash headers) headers
      (loopState params env s peerId headers) with
  | (t, false) => (t, false)
  | (t, true) => t.finishBatch params env p

variable (getHash params env) in
theorem acceptBatch_eq_runLoop (s : NetworkManager) (p : PeerPtr) (peerId : Int) (first : CBlockHeader)
    (rest : List CBlockHeader) :
    NetworkManager.acceptBatch getHash params env
        (if first.hashPrevBlock ∈
            { (s.isInitialBlockDownload params env).1 with lastHeadersReceivedUs := env.nowUs }.chainstate.blockIndex then
          { (s.isInitialBlockDownload params env).1 with lastHeadersReceivedUs := env.nowUs }.resetUnconnectingHeaders peerId
        else
          ({ (s.isInitialBlockDownload params env).1 with
            lastHeadersReceivedUs := env.nowUs }.incrementUnconnectingHeaders peerId).removeIfMisbehaving env peerId)
        p peerId (s.skipDosChecks getHash (first :: rest)) (first :: rest) =
      runLoop getHash params env s p peerId (first :: rest) := by
  generalize hs : { (s.isInitialBlockDownload params env).1 with lastHeadersReceivedUs := env.nowUs } = t
  have hindex : (s.isInitialBlockDownload params env).1.chainstate.blockIndex = t.chainstate.blockIndex := by
    subst hs
    rfl
  have hloop : loopState params env s peerId (first :: rest) =
      { (if first.hashPrevBlock ∈ t.chainstate.blockIndex then t.resetUnconnectingHeaders peerId
        else (t.incrementUnconnectingHeaders peerId).removeIfMisbehaving env peerId) with
        lastBatchSize := (first :: rest).length } := by
    unfold loopState
    simp only [hs, hindex, List.head?_cons, Option.any_some, decide_eq_true_eq]
  unfold runLoop
  rw [hloop]
  rfl

variable (env) in
/-- A message whose batch does not reach the loop leaves the blocks alone. -/
theorem handleHeadersMessage_cases (s : NetworkManager) (p : PeerPtr) (peer : Peer) (headers : List CBlockHeader) :
    (EntersLoop getHash params env s peer.id headers ∧ s.handleHeadersMessage getHash params env p peer headers =
        runLoop getHash params env s p peer.id headers) ∨
      ¬ EntersLoop getHash params env s peer.id headers ∧
        SameBlocks s.chainstate (s.handleHeadersMessage getHash params env p peer headers).1.chainstate := by
  have hlatch := SameBlocks.latch params env s.chainstate
  have hframe := isInitialBlockDownload_latch params env s
  -- behind the gate
  have hrest : ∀ s1, s1 = (s.isInitialBlockDownload params env).1 →
      ((s.isInitialBlockDownload params env).2 = true → s.gatesBatch peer.id headers = false) →
      (EntersLoop getHash params env s peer.id headers ∧ s1.processHeaders getHash params env p peer.id headers =
          runLoop getHash params env s p peer.id headers) ∨
        ¬ EntersLoop getHash params env s peer.id headers ∧
          SameBlocks s.chainstate (s1.processHeaders getHash params env p peer.id headers).1.chainstate := by
    rintro s1 rfl hgate
    have hskip : (s.isInitialBlockDownload params env).1.skipDosChecks getHash headers = s.skipDosChecks getHash headers := by
      rw [hframe]
      rfl
    unfold processHeaders
    dsimp only
    rw [hskip]
    cases headers with
    | nil => exact .inr ⟨fun h => h.nonempty rfl, hlatch⟩
    | cons first rest =>
      dsimp only
      by_cases hsize : MAX_HEADERS_SIZE < (first :: rest).length
      · rw [if_pos hsize]
        refine .inr ⟨fun h => absurd h.size (Nat.not_le.mpr hsize), ?_⟩
        rw [dropBatch_chainstate]
        exact hlatch
      · rw [if_neg hsize]
        have hchecks : PassesBatchChecks getHash params env
              { (s.isInitialBlockDownload params env).1 with lastHeadersReceivedUs := env.nowUs }
              (s.skipDosChecks getHash (first :: rest)) first (first :: rest) ↔
            EntersLoop getHash params env s peer.id (first :: rest) := by
          have hiff : PassesBatchChecks getHash params env
              { (s.isInitialBlockDownload params env).1 with lastHeadersReceivedUs := env.nowUs }
              (s.skipDosChecks getHash (first :: rest)) first (first :: rest) ↔
            PassesBatchChecks getHash params env s (s.skipDosChecks getHash (first :: rest)) first (first :: rest) := by
            rw [hframe]
            rfl
          rw [hiff]
          constructor
          · exact fun ⟨h1, h2, h3⟩ => ⟨List.cons_ne_nil _ _, Nat.not_lt.mp hsize, hgate, h1, h2, by simpa using h3⟩
          · exact fun h => ⟨h.commitment, h.continuous, by simpa using h.work⟩
        rw [← hchecks]
        rcases processBatch_cases getHash params env
          { (s.isInitialBlockDownload params env).1 with lastHeadersReceivedUs := env.nowUs } p peer.id
          (s.skipDosChecks getHash (first :: rest)) first (first :: rest) with ⟨hpass, he⟩ | ⟨hfail, he⟩
        · exact .inl ⟨hpass, he.trans (acceptBatch_eq_runLoop getHash params env s p peer.id first rest)⟩
        · rw [he]
          exact .inr ⟨hfail, hlatch⟩
  unfold handleHeadersMessage
  rcases hibd : s.isInitialBlockDownload params env with ⟨s1, b⟩
  have hs1 : s1 = (s.isInitialBlockDownload params env).1 := (congrArg Prod.fst hibd).symm
  have hb : (s.isInitialBlockDownload params env).2 = b := congrArg Prod.snd hibd
  cases b with
  | false => exact hrest s1 hs1 (by simp [hb])
  | true =>
    have hgate : s1.gatesBatch peer.id headers = s.gatesBatch peer.id headers := by
      rw [hs1, hframe]
      rfl
    dsimp only
    rw [hgate]
    cases hgated : s.gatesBatch peer.id headers with
    | true =>
      refine .inr ⟨fun h => ?_, ?_⟩
      · rw [h.ungated hb] at hgated
        cases hgated
      · rw [if_pos rfl, hs1]
        exact hlatch
    | false =>
      rw [if_neg (by decide)]
      exact hrest s1 hs1 (fun _ => hgated)

/-! ## The tip when the message returns -/

variable (getHash params env) in
/-- The loop over the batch comes through the headers `pre`, in the state `t`. -/
def GoesThrough (s : NetworkManager) (peerId : Int) (headers pre : List CBlockHeader) (t : NetworkManager) : Prop :=
  acceptHeaders getHash params env peerId (s.skipDosChecks getHash headers) pre (loopState params env s peerId headers) =
    (t, true)

variable (getHash params env) in
/-- The loop over the batch gives up on the header after `pre`, in the state `t`. -/
def GivesUp (s : NetworkManager) (peerId : Int) (headers pre : List CBlockHeader) (t : NetworkManager) : Prop :=
  GoesThrough getHash params env s peerId headers pre t ∧ ∃ header post, headers = pre ++ header :: post ∧
    (t.acceptHeader getHash params env peerId (s.skipDosChecks getHash headers) header).2 = false

theorem SameBlocks.getTip {c c' : ChainstateManager} (h : SameBlocks c c') : c'.getTip = c.getTip := by
  unfold BlockManager.getTip
  rw [h.chain]

theorem SameBlocks.tipIsBest_iff {c c' : ChainstateManager} (h : SameBlocks c c') : c'.TipIsBest ↔ c.TipIsBest := by
  unfold ChainstateManager.TipIsBest
  rw [h.getTip, h.index]

variable (params env) in
theorem loopState_offered (W : Wf getHash genesis s.chainstate) (hpool : s.chainstate.orphanHeaders = ∅) (peerId : Int)
    (headers : List CBlockHeader) :
    Offered getHash genesis s.chainstate [] (loopState params env s peerId headers).chainstate := by
  rw [loopState_chainstate]
  refine ⟨W.latch params env.toEnv, ?_, fun k v hk => ?_, fun p hp => .inl ?_, fun p _ => ?_⟩ <;>
    rw [isInitialBlockDownload_frame] at *
  · change s.chainstate.orphanHeaders[k]? = some v at hk
    rw [hpool] at hk
    simp at hk
  · exact hp

theorem GoesThrough.offered {headers : List CBlockHeader} (W : Wf getHash genesis s.chainstate)
    (hpool : s.chainstate.orphanHeaders = ∅) (h : GoesThrough getHash params env s peerId headers pre t) :
    Offered getHash genesis s.chainstate pre t.chainstate :=
  acceptHeaders_offered (loopState_offered params env W hpool peerId headers) h

/-- What the loop gives up on ends the message with the blocks that the loop has left. -/
theorem GivesUp.ends {headers : List CBlockHeader} (W : Wf getHash genesis s.chainstate)
    (hpool : s.chainstate.orphanHeaders = ∅) (h : GivesUp getHash params env s peerId headers pre t) :
    ∃ u, acceptHeaders getHash params env peerId (s.skipDosChecks getHash headers) headers
        (loopState params env s peerId headers) = (u, false) ∧ SameBlocks t.chainstate u.chainstate := by
  obtain ⟨hpre, header, post, hsplit, hfalse⟩ := h
  rcases hx : t.acceptHeader getHash params env peerId (s.skipDosChecks getHash headers) header with ⟨u, b⟩
  rw [hx] at hfalse
  cases hfalse
  refine ⟨u, ?_, acceptHeader_givesUp (hpre.offered W hpool).wf hx⟩
  have happend := acceptHeaders_append hpre (header :: post)
  rw [← hsplit] at happend
  rw [happend, acceptHeaders, hx]

/-- Where no work wraps and no header of the batch names itself or a later one as its parent,
what the batch brings is covered at the end of the loop. -/
theorem GoesThrough.covered {headers : List CBlockHeader} (W : Wf getHash genesis s.chainstate)
    (hpool : s.chainstate.orphanHeaders = ∅) (hbest : s.chainstate.TipIsBest)
    (hord : headers.Pairwise (fun y x => y.hashPrevBlock ≠ getHash x))
    (hfit : ∀ pre x post t, headers = pre ++ x :: post → GoesThrough getHash params env s peerId headers pre t →
      WorkFits getHash t.chainstate x)
    (h : GoesThrough getHash params env s peerId headers headers t) : t.chainstate.Covered := by
  have hoffered := loopState_offered params env W hpool peerId headers
  have hclimbs : Climbs s.chainstate (loopState params env s peerId headers).chainstate := by
    have := Climbs.start s.chainstate
    rw [loopState_chainstate, isInitialBlockDownload_frame]
    exact ⟨this.reach, this.grows⟩
  exact (acceptHeaders_climbs W hoffered hclimbs hord hfit h).covered hbest W (h.offered W hpool)

end

end NetworkManager

section
variable {getHash : CBlockHeader → Uint256} {params : ConsensusParams} {config : PeerConfig} {skipPow : Bool}
  {s : NetworkManager}

open NetworkManager

end

/-- The check of the time of a header against the clock. -/
def lateHeaderEnv : NetEnv :=
  { contextualCheckBlockHeader := fun header _ adjustedTime =>
      if adjustedTime + 7200 < header.nTime.toNat then some (.invalid "time-too-new" "block timestamp too far in future")
      else none }

/-- A header, and a child of it that is far ahead of the clock. -/
def lateBatch : List CBlockHeader := [nonceHeader 1 2, { nonceHeader 2 3 with nTime := 7201 }]

theorem genesisNode_tipIsBest : (nodeAfter genesisNodeOps).chainstate.TipIsBest := by
  change ((ChainstateManager.fresh false).step nonceHash nonceParams (.setup (nonceHeader 0 1))).TipIsBest
  rw [setup_nonce]
  exact genesisState_tipIsBest nonceHash false (nonceHeader 0 1)

theorem genesisNode_pool : (nodeAfter genesisNodeOps).chainstate.orphanHeaders = ∅ := by
  change ((ChainstateManager.fresh false).step nonceHash nonceParams (.setup (nonceHeader 0 1))).orphanHeaders = ∅
  rw [setup_nonce]
  rfl

end UnicityPow
