import UnicityPow.SetupSound

/-!
# The tip is the best chain

With the reorganisation policy and the network expiration off, deliveries of headers keep
the tip at maximal work, unless a delivery also accepts a pooled child of its header.
-/

namespace UnicityPow

open Forest BlockMap

/-! ## Ancestor headers in a larger index -/

theorem ancestry_congr {m m' : BlockMap} {genesis : BlockPtr} (T : TreeShape m genesis)
    (heq : ∀ p ∈ m, m'[p]? = m[p]?) : ∀ (fuel : Nat) (p : BlockPtr), p ∈ m →
      ancestry m' fuel (some p) = ancestry m fuel (some p) := by
  intro fuel
  induction fuel with
  | zero => intro p _; rfl
  | succ fuel ih =>
    intro p hp
    obtain ⟨b, hb⟩ := mem_iff.mp hp
    unfold ancestry
    rw [heq p hp, hb]
    simp only []
    cases hq : b.pprev with
    | none => cases fuel <;> rfl
    | some q => rw [ih q (T.parent p b q hb hq).1]

section
variable {getHash : CBlockHeader → Uint256} {params : ConsensusParams} {env : Env} {genesis : BlockPtr}
  {s : ChainstateManager}

namespace ChainstateManager

/-- The outcome of the checks of a header whose ancestors have the headers `past`. -/
def checksPass (env : Env) (s : ChainstateManager) (header : CBlockHeader) (past : List CBlockHeader) : Bool :=
  s.checkProofOfWork env header .COMMITMENT_ONLY &&
    (env.contextualCheckBlockHeader header past env.adjustedTime).isNone && s.checkBlockHeaderWrapper env header

/-- The headers from `p` back to genesis. -/
def pastOf (s : ChainstateManager) (p : BlockPtr) : List CBlockHeader :=
  s.blockIndex.ancestry (s.blockIndex.size + 1) (some p)

/-- The delivery of `header` inserts it and then a pooled header that names it as parent. -/
structure AcceptsPooledChild (getHash : CBlockHeader → Uint256) (env : Env) (s : ChainstateManager)
    (header : CBlockHeader) : Prop where
  isNew : getHash header ∉ s.blockIndex
  prev_mem : header.hashPrevBlock ∈ s.blockIndex
  prev_unfailed : s.blockIndex.isFailed header.hashPrevBlock = false
  pass : s.checksPass env header (s.pastOf header.hashPrevBlock) = true
  child : ∃ (hash : Uint256) (orphan : OrphanHeader), s.orphanHeaders[hash]? = some orphan ∧
    orphan.header.hashPrevBlock = getHash header ∧ getHash orphan.header ∉ s.blockIndex ∧
    getHash orphan.header ≠ getHash header ∧
    s.checksPass env orphan.header (header :: s.pastOf header.hashPrevBlock) = true

end ChainstateManager

theorem size_insert {m : BlockMap} {p : BlockPtr} (b : CBlockIndex) (hp : p ∉ m) :
    Std.ExtTreeMap.size (m.insert p b) = Std.ExtTreeMap.size m + 1 := by
  simp [Std.ExtTreeMap.size_insert, hp]

theorem Inserted.pastOf_new (W : Wf getHash genesis s) {header : CBlockHeader} {s' : ChainstateManager}
    {b : CBlockIndex} (h : Inserted getHash genesis env s header s' b) :
    s'.pastOf (getHash header) = header :: s.pastOf header.hashPrevBlock := by
  unfold ChainstateManager.pastOf
  rw [h.index, size_insert b h.isNew]
  conv_lhs => unfold ancestry
  rw [Std.ExtTreeMap.getElem?_insert_self]
  simp only [h.getBlockHeader, h.pprev]
  rw [ancestry_congr W.tree.toTreeShape
    (fun p hp => getElem?_insert_ne _ _ (fun e => h.isNew (by rw [e]; exact hp))) _ _ h.prev_mem]

variable (params env) in
/-- When no pooled child passes its checks, the resolution of orphans after an insertion
only empties the pool. -/
theorem processOrphanHeaders_pool (W : Wf getHash genesis s) (parent : Uint256)
    (hno : ∀ (hash : Uint256) (o : OrphanHeader), s.orphanHeaders[hash]? = some o →
      o.header.hashPrevBlock = parent → ∀ orphans counts s' b,
        ¬ Inserted getHash genesis env (s.withPool orphans counts) o.header s' b) (fuel : Nat) :
    ∃ o c, ChainstateManager.processOrphanHeaders getHash params env fuel s parent = s.withPool o c := by
  cases fuel with
  | zero => exact ⟨_, _, rfl⟩
  | succ fuel =>
    unfold ChainstateManager.processOrphanHeaders
    -- the pool only shrinks, so every header taken from it was in the pool at the start
    suffices h : ∃ o c, (s.orphansOf parent).foldl _ s = s.withPool o c ∧
        ∀ (k : Uint256) (v : OrphanHeader), o[k]? = some v → s.orphanHeaders[k]? = some v by
      obtain ⟨o, c, h, -⟩ := h
      exact ⟨o, c, h⟩
    refine List.foldlRecOn (motive := fun r => ∃ o c, r = s.withPool o c ∧
      ∀ (k : Uint256) (v : OrphanHeader), o[k]? = some v → s.orphanHeaders[k]? = some v) _ _ ⟨_, _, rfl, fun _ _ h => h⟩ ?_
    rintro r ⟨o, c, rfl, hsub⟩ hash hmem
    split
    · exact ⟨o, c, rfl, hsub⟩
    · rename_i orphan horphan
      have horphan := hsub hash orphan horphan
      obtain ⟨c', hc'⟩ := ChainstateManager.dropOrphan_pool (s.withPool o c) hash orphan
      have hkeep : ∀ (k : Uint256) (v : OrphanHeader), (o.erase hash)[k]? = some v → s.orphanHeaders[k]? = some v := by
        intro k v hk
        rw [Std.ExtTreeMap.getElem?_erase] at hk
        split at hk
        · cases hk
        · exact hsub k v hk
      have hpar := (ChainstateManager.mem_orphansOf horphan).mp hmem
      have W' : Wf getHash genesis ((s.withPool o c).dropOrphan hash orphan) := by
        rw [hc']
        exact (W.withPool o c).withPool _ _
      rcases acceptOne_cases params env W' orphan.header true with
        ⟨st, h⟩ | ⟨h, -⟩ | ⟨s', b, -, -, -, hins⟩
      · rw [h]
        exact ⟨_, c', hc', hkeep⟩
      · rw [h]
        exact ⟨_, c', hc', hkeep⟩
      · rw [hc'] at hins
        exact absurd hins (hno hash orphan horphan hpar _ _ s' b)

variable (params) in
/-- What a delivery that accepts no pooled child leaves: a refusal or a known header changes
the state not at all, a new one inserts exactly that header. -/
theorem acceptBlockHeader_cases (W : Wf getHash genesis s) (header : CBlockHeader) (minPowChecked : Bool)
    (hno : ¬ s.AcceptsPooledChild getHash env header) :
    (∃ state, s.acceptBlockHeader getHash params env header minPowChecked = (s, .error state)) ∨
    s.acceptBlockHeader getHash params env header minPowChecked = (s, .ok (getHash header)) ∨
    ∃ s' b o c, s.acceptBlockHeader getHash params env header minPowChecked =
        (s'.withPool o c, .ok (getHash header)) ∧ Inserted getHash genesis env s header s' b := by
  unfold ChainstateManager.acceptBlockHeader
  rcases acceptOne_cases params env W header minPowChecked with
    ⟨st, h⟩ | ⟨h, -⟩ | ⟨s', b, h, -, -, hins⟩
  · rw [h]
    exact .inl ⟨st, rfl⟩
  · rw [h]
    exact .inr (.inl rfl)
  · rw [h]
    have hpast := hins.pastOf_new W
    have hpool : s'.orphanHeaders = s.orphanHeaders := by rw [hins.frame]
    have hskip : s'.testSkipPowChecks = s.testSkipPowChecks := by rw [hins.frame]
    obtain ⟨o, c, hoc⟩ := processOrphanHeaders_pool params env (hins.wf W)
      (getHash header) (fun hash orphan horphan hpar o c s'' b'' hins' => hno
        { isNew := hins.isNew
          prev_mem := hins.prev_mem
          prev_unfailed := hins.prev_unfailed
          pass := by
            obtain ⟨h1, h2, h3⟩ := hins.checked
            unfold ChainstateManager.contextualCheck at h2
            simp [ChainstateManager.checksPass, ChainstateManager.pastOf, h1, h2, h3]
          child := by
            obtain ⟨h1, h2, h3⟩ := hins'.checked
            have hnew : getHash orphan.header ∉ s'.blockIndex := hins'.isNew
            rw [hins.index, Std.ExtTreeMap.mem_insert] at hnew
            refine ⟨hash, orphan, by rw [← hpool]; exact horphan, hpar, fun hm => hnew (.inr hm),
              fun he => hnew (.inl (by rw [he]; exact Std.ReflOrd.compare_self)), ?_⟩
            rw [← hpast, ChainstateManager.checksPass]
            unfold ChainstateManager.contextualCheck at h2
            rw [hpar] at h2
            unfold ChainstateManager.checkProofOfWork ChainstateManager.checkBlockHeaderWrapper at *
            unfold ChainstateManager.pastOf
            simp only [ChainstateManager.withPool, hskip] at h1 h2 h3
            simp only [h1, h2, h3]
            rfl }) s'.orphanHeaders.size
    exact .inr (.inr ⟨s', b, o, c, by rw [← hoc], hins⟩)

theorem Inserted.isLeaf (W : Wf getHash genesis s) {header : CBlockHeader} {s' : ChainstateManager}
    {b : CBlockIndex} (h : Inserted getHash genesis env s header s' b) :
    s'.blockIndex.hasChildren (getHash header) = false := by
  rw [← Bool.not_eq_true, hasChildren_iff]
  rintro ⟨q, hq⟩
  obtain ⟨c, hc⟩ := mem_iff.mp (mem_of_pprev hq)
  rw [pprev_of_get hc] at hq
  rcases h.get_old hc with ⟨rfl, rfl⟩ | ⟨-, hc⟩
  · rw [h.pprev] at hq
    exact h.isNew (Option.some.inj hq ▸ h.prev_mem)
  · exact h.isNew (W.tree.parent q c _ hc hq).1

theorem Inserted.isValid_old {header : CBlockHeader} {s' : ChainstateManager} {b : CBlockIndex} {p : BlockPtr}
    (h : Inserted getHash genesis env s header s' b) (hp : p ≠ getHash header) :
    s'.blockIndex.isValid p = s.blockIndex.isValid p := by
  unfold BlockMap.isValid
  rw [h.index, getElem?_insert_ne _ _ (fun e => hp e.symm)]

/-! ## Deliveries -/

/-- Activation reaches a best block when every valid block above the tip has a valid candidate
with at least its work. -/
theorem activateBestChain_tipIsBest (W : Wf getHash genesis s) (hpol : params.nSuspiciousReorgDepth ≤ 0)
    (hexp : params.nNetworkExpirationInterval = 0)
    (hcand : ∀ tip, s.getTip = some tip → ∀ p, s.blockIndex.isValid p = true →
      s.blockIndex.nChainWork p ≤ s.blockIndex.nChainWork tip ∨
        ∃ c ∈ s.candidates, s.blockIndex.isValid c = true ∧
          s.blockIndex.nChainWork p ≤ s.blockIndex.nChainWork c) :
    (ChainstateManager.activateBestChain params s none).1.TipIsBest := by
  obtain ⟨-, tip, htip, hold, hbest⟩ := activateBestChain_best W hpol hexp
  obtain ⟨old, -, ho, -⟩ := W.tip_exists
  refine ⟨tip, htip, fun p hp => ?_⟩
  rw [activateBestChain_index _ W none (fun _ h => by cases h)] at hp ⊢
  rcases hcand old ho p hp with h | ⟨c, hc, hcv, h⟩
  · exact BitVec.le_trans h (hold old ho)
  · exact BitVec.le_trans h (hbest c hc hcv)

variable (params env) in
theorem processNewBlockHeader_tipIsBest (W : Wf getHash genesis s) (hbest : s.TipIsBest)
    (hpol : params.nSuspiciousReorgDepth ≤ 0) (hexp : params.nNetworkExpirationInterval = 0)
    (header : CBlockHeader) (minPowChecked : Bool) (hno : ¬ s.AcceptsPooledChild getHash env header) :
    Wf getHash genesis (ChainstateManager.processNewBlockHeader params getHash env s header minPowChecked).1 ∧
      (ChainstateManager.processNewBlockHeader params getHash env s header minPowChecked).1.TipIsBest := by
  obtain ⟨tip, htip, hall⟩ := hbest
  unfold ChainstateManager.processNewBlockHeader
  rcases acceptBlockHeader_cases params W header minPowChecked hno with
    ⟨st, h⟩ | h | ⟨s', b, o, c, h, hins⟩
  · rw [h]
    exact ⟨W, tip, htip, hall⟩
  · rw [h]
    have W1 := W.tryAddCandidate (getHash header)
    refine ⟨W1.activateBestChain none (fun _ h => by cases h), activateBestChain_tipIsBest W1 hpol hexp ?_⟩
    intro t ht p hp
    rw [show (s.tryAddCandidate (getHash header)).getTip = s.getTip from rfl, htip] at ht
    cases ht
    exact .inl (hall p hp)
  · rw [h]
    have W1 := ((hins.wf W).withPool o c).tryAddCandidate (getHash header)
    refine ⟨W1.activateBestChain none (fun _ h => by cases h), activateBestChain_tipIsBest W1 hpol hexp ?_⟩
    intro t ht p hp
    have ht' : s.getTip = some t := by
      rw [← ht]
      change _ = s'.getTip
      rw [hins.frame]
      rfl
    rw [htip] at ht'
    cases ht'
    change s'.blockIndex.isValid p = true at hp
    by_cases hpn : p = getHash header
    · -- the new leaf is itself a candidate
      subst hpn
      refine .inr ⟨getHash header, ?_, hp, BitVec.le_refl _⟩
      rw [mem_tryAddCandidate]
      rw [if_pos ⟨hp, hins.isLeaf W⟩]
      exact .inl rfl
    · rw [hins.isValid_old hpn] at hp
      have hpm := mem_of_isValid hp
      refine .inl ?_
      change s'.blockIndex.nChainWork p ≤ s'.blockIndex.nChainWork tip
      rw [hins.extends.nChainWork p hpm, hins.extends.nChainWork tip (W.tip_mem htip)]
      exact hall p hp

namespace ChainstateManager

/-- The operations of a node that only receives headers. -/
def IsDelivery : ChainOp → Prop
  | .processNewBlockHeader _ _ minPowChecked => minPowChecked = true
  | .addOrphanHeader _ _ _ => True
  | .evictOrphanHeaders _ => True
  | _ => False

/-- A delivery that accepts no pooled child of its header. -/
def DeliversAlone (getHash : CBlockHeader → Uint256) (s : ChainstateManager) (a : ChainOp) : Prop :=
  IsDelivery a ∧ ∀ env header minPow, a = .processNewBlockHeader env header minPow →
    ¬ s.AcceptsPooledChild getHash env header

/-- Best-chain selection over deliveries, as one would want it for every run. -/
def DeliveriesKeepBest (getHash : CBlockHeader → Uint256) (params : ConsensusParams) : Prop :=
  ∀ (skipPow : Bool) (genesis : CBlockHeader) (s₀ s : ChainstateManager) (env : Env) (header : CBlockHeader),
    (fresh skipPow).setup getHash genesis = (s₀, true) →
    Run.Reaches (step getHash params) (fun _ a => IsDelivery a) s₀ s →
    (processNewBlockHeader params getHash env s header true).2.1 = true →
    (processNewBlockHeader params getHash env s header true).1.TipIsBest

end ChainstateManager

theorem step_delivery (W : Wf getHash genesis s) (hbest : s.TipIsBest) (hpol : params.nSuspiciousReorgDepth ≤ 0)
    (hexp : params.nNetworkExpirationInterval = 0) (a : ChainOp)
    (ha : ChainstateManager.DeliversAlone getHash s a) :
    Wf getHash genesis (ChainstateManager.step getHash params s a) ∧
      (ChainstateManager.step getHash params s a).TipIsBest := by
  obtain ⟨hop, hno⟩ := ha
  cases a with
  | processNewBlockHeader env header minPow =>
    rw [ChainstateManager.step_processNewBlockHeader]
    exact processNewBlockHeader_tipIsBest _ _ W hbest hpol hexp header minPow (hno env header minPow rfl)
  | addOrphanHeader env header peerId =>
    rw [ChainstateManager.step_addOrphanHeader]
    refine ⟨W.addOrphanHeader header peerId, ?_⟩
    obtain ⟨o, c, h⟩ := ChainstateManager.addOrphanHeader_pool getHash params env s header peerId
    rw [h]
    exact hbest
  | evictOrphanHeaders env =>
    rw [ChainstateManager.step_evictOrphanHeaders]
    refine ⟨W.evictOrphanHeaders, ?_⟩
    obtain ⟨o, c, h⟩ := ChainstateManager.evictOrphanHeaders_pool params env s
    rw [h]
    exact hbest
  | acceptBlockHeader _ _ _ => exact hop.elim
  | tryAddBlockIndexCandidate _ => exact hop.elim
  | acceptAndTryAdd _ _ _ => exact hop.elim
  | activateBestChain _ => exact hop.elim
  | invalidateBlock _ => exact hop.elim
  | setup _ => exact hop.elim
  | load _ _ => exact hop.elim
  | restart _ => exact hop.elim

theorem genesisState_tipIsBest (getHash : CBlockHeader → Uint256) (skipPow : Bool) (header : CBlockHeader) :
    (genesisState getHash skipPow header).TipIsBest := by
  refine ⟨getHash header, rfl, fun p hp => ?_⟩
  have hp := mem_of_isValid hp
  rw [show (genesisState getHash skipPow header).blockIndex = (∅ : BlockMap).insert _ _ from rfl, mem_single] at hp
  subst hp
  exact BitVec.le_refl _

/-- In a run of deliveries none of which accepts a pooled child of its header, the tip is
always a block of maximal work. -/
theorem deliveries_keep_best (hpol : params.nSuspiciousReorgDepth ≤ 0)
    (hexp : params.nNetworkExpirationInterval = 0) {skipPow : Bool} {header : CBlockHeader}
    {s₀ : ChainstateManager} (h₀ : (ChainstateManager.fresh skipPow).setup getHash header = (s₀, true))
    (hrun : Run.Reaches (ChainstateManager.step getHash params) (ChainstateManager.DeliversAlone getHash) s₀ s) :
    s.TipIsBest := by
  obtain ⟨h0, -, rfl⟩ := setup_fresh_true getHash header skipPow h₀
  refine (hrun.invariant (P := fun s => Wf getHash (getHash header) s ∧ s.TipIsBest)
    ⟨genesisState_wf getHash header skipPow h0, genesisState_tipIsBest getHash skipPow header⟩ ?_).2
  intro s a hs ha
  exact step_delivery hs.1 hs.2 hpol hexp a ha

end

theorem deliveries_keep_best_nonce :
    (ChainstateManager.step nonceHash nonceParams nonceStart
      (.processNewBlockHeader {} (nonceHeader 1 2) true)).TipIsBest :=
  deliveries_keep_best (by decide) rfl nonceStart_setup
    (.next .start ⟨rfl, fun _ _ _ _ h => by
      obtain ⟨hash, orphan, hpool, -⟩ := h.child
      rw [show nonceStart.orphanHeaders = ∅ from rfl] at hpool
      simp at hpool⟩)

/-- The header with nonce 2 arrives after its child with nonce 3 went to the pool: both enter
the index, neither becomes a candidate, and the tip stays at genesis. -/
theorem deliveries_lose_pooled_child : ¬ ChainstateManager.DeliveriesKeepBest nonceHash nonceParams := by
  intro h
  have hrun : Run.Reaches (ChainstateManager.step nonceHash nonceParams)
      (fun _ a => ChainstateManager.IsDelivery a) nonceStart
      (nonceStart.addOrphanHeader nonceHash nonceParams {} (nonceHeader 2 3) 0).1 :=
    .next (a := ChainOp.addOrphanHeader {} (nonceHeader 2 3) 0) .start trivial
  obtain ⟨tip, htip, hbest⟩ := h false (nonceHeader 0 1) nonceStart _ {} (nonceHeader 1 2) nonceStart_setup hrun
    (by decide +kernel)
  have htip' : (ChainstateManager.processNewBlockHeader nonceParams nonceHash {}
      (nonceStart.addOrphanHeader nonceHash nonceParams {} (nonceHeader 2 3) 0).1 (nonceHeader 1 2) true).1.getTip =
      some 1 := by decide +kernel
  rw [htip'] at htip
  cases htip
  exact absurd (hbest 3 (by decide +kernel)) (by decide +kernel)

end UnicityPow
