import UnicityPow.SetupSound
import UnicityPow.Tally

/-!
# The accounts of the orphan pool

The counter of every peer is the number of pooled headers recorded from it. Headers leave the
pool one at a time, each with its own decrement.
-/

namespace UnicityPow

namespace ChainstateManager

/-- The number of pooled headers recorded from a peer. -/
def pooledFrom (s : ChainstateManager) (peerId : Int) : Nat := Tally.count OrphanHeader.peerId s.orphanHeaders peerId

/-- The counter of a peer, zero when missing. -/
def orphanCount (s : ChainstateManager) (peerId : Int) : Int := s.peerOrphanCount[peerId]?.getD 0

/-- The pool is keyed by hash, counted by peer and within both limits. -/
structure PoolAccounted (getHash : CBlockHeader → Uint256) (s : ChainstateManager) : Prop where
  keyed : ∀ (hash : Uint256) (orphan : OrphanHeader), s.orphanHeaders[hash]? = some orphan →
    getHash orphan.header = hash
  counted : ∀ peerId, s.orphanCount peerId = s.pooledFrom peerId
  perPeer : ∀ peerId, s.orphanCount peerId ≤ MAX_ORPHAN_HEADERS_PER_PEER
  total : s.orphanHeaders.size ≤ MAX_ORPHAN_HEADERS

/-- The operations on the pool, and the start. -/
def IsPoolOp : ChainOp → Prop
  | .setup _ => True
  | .acceptBlockHeader _ _ _ => True
  | .addOrphanHeader _ _ _ => True
  | .evictOrphanHeaders _ => True
  | _ => False

section
variable {getHash : CBlockHeader → Uint256} {params : ConsensusParams} {env : Env} {s s' : ChainstateManager}
  {hash : Uint256} {orphan : OrphanHeader}

/-! ## One header out -/

theorem decrementPeerCount_orphanHeaders (s : ChainstateManager) (peerId : Int) :
    (s.decrementPeerCount peerId).orphanHeaders = s.orphanHeaders := by
  unfold decrementPeerCount
  split
  · rfl
  · split <;> rfl

/-- The decrement of a counter that is there. Erasing it at zero makes no difference. -/
theorem decrementPeerCount_orphanCount {peerId : Int} (h : s.orphanCount peerId ≠ 0) (q : Int) :
    (s.decrementPeerCount peerId).orphanCount q = s.orphanCount q - if peerId = q then 1 else 0 := by
  unfold orphanCount at *
  unfold decrementPeerCount
  cases hn : s.peerOrphanCount[peerId]? with
  | none =>
    rw [hn] at h
    exact absurd rfl h
  | some n =>
    simp only []
    by_cases hq : peerId = q
    · subst hq
      rw [hn, if_pos rfl]
      split
      · rename_i h0
        simp only [Std.ExtTreeMap.getElem?_erase_self, Option.getD_none, Option.getD_some]
        omega
      · simp only [Std.ExtTreeMap.getElem?_insert_self, Option.getD_some]
    · have hne : compare peerId q ≠ .eq := by simpa using hq
      rw [if_neg hq]
      split
      · simp only [Std.ExtTreeMap.getElem?_erase, if_neg hne, Int.sub_zero]
      · simp only [Std.ExtTreeMap.getElem?_insert, if_neg hne, Int.sub_zero]

theorem dropOrphan_orphanHeaders (s : ChainstateManager) (hash : Uint256) (orphan : OrphanHeader) :
    (s.dropOrphan hash orphan).orphanHeaders = s.orphanHeaders.erase hash :=
  decrementPeerCount_orphanHeaders _ _

theorem PoolAccounted.orphanCount_ne (h : PoolAccounted getHash s) (ho : s.orphanHeaders[hash]? = some orphan) :
    s.orphanCount orphan.peerId ≠ 0 := by
  have := Tally.count_erase OrphanHeader.peerId ho orphan.peerId
  rw [if_pos rfl] at this
  rw [h.counted, pooledFrom]
  omega

theorem dropOrphan_orphanCount (h : PoolAccounted getHash s) (ho : s.orphanHeaders[hash]? = some orphan) (q : Int) :
    (s.dropOrphan hash orphan).orphanCount q = s.orphanCount q - if orphan.peerId = q then 1 else 0 :=
  decrementPeerCount_orphanCount
    (s := { s with orphanHeaders := s.orphanHeaders.erase hash }) (h.orphanCount_ne ho) q

theorem PoolAccounted.dropOrphan (h : PoolAccounted getHash s) (ho : s.orphanHeaders[hash]? = some orphan) :
    PoolAccounted getHash (s.dropOrphan hash orphan) := by
  refine ⟨fun k v hk => ?_, fun q => ?_, fun q => ?_, ?_⟩
  · rw [dropOrphan_orphanHeaders, Std.ExtTreeMap.getElem?_erase] at hk
    split at hk
    · cases hk
    · exact h.keyed k v hk
  · have := Tally.count_erase OrphanHeader.peerId ho q
    have := h.counted q
    rw [dropOrphan_orphanCount h ho, pooledFrom, dropOrphan_orphanHeaders]
    unfold pooledFrom at *
    split at * <;> omega
  · have := h.perPeer q
    rw [dropOrphan_orphanCount h ho]
    split <;> omega
  · have := h.total
    rw [dropOrphan_orphanHeaders, Std.ExtTreeMap.size_erase]
    split <;> omega

theorem dropOrphan_size (ho : s.orphanHeaders[hash]? = some orphan) :
    (s.dropOrphan hash orphan).orphanHeaders.size + 1 = s.orphanHeaders.size := by
  rw [dropOrphan_orphanHeaders]
  exact Tally.size_erase ho

/-! ## Eviction -/

/-- Headers were only taken out of the pool. -/
structure Drained (s s' : ChainstateManager) : Prop where
  sub : ∀ (hash : Uint256) (orphan : OrphanHeader), s'.orphanHeaders[hash]? = some orphan →
    s.orphanHeaders[hash]? = some orphan
  counts : ∀ peerId, s'.orphanCount peerId ≤ s.orphanCount peerId

theorem Drained.refl (s : ChainstateManager) : Drained s s := ⟨fun _ _ h => h, fun _ => Int.le_refl _⟩

theorem Drained.trans {s'' : ChainstateManager} (h : Drained s s') (h' : Drained s' s'') : Drained s s'' :=
  ⟨fun k v hk => h.sub k v (h'.sub k v hk), fun q => Int.le_trans (h'.counts q) (h.counts q)⟩

theorem PoolAccounted.drained (h : PoolAccounted getHash s) (ho : s.orphanHeaders[hash]? = some orphan) :
    Drained s (s.dropOrphan hash orphan) := by
  refine ⟨fun k v hk => ?_, fun q => ?_⟩
  · rw [dropOrphan_orphanHeaders, Std.ExtTreeMap.getElem?_erase] at hk
    split at hk
    · cases hk
    · exact hk
  · rw [dropOrphan_orphanCount h ho]
    split <;> omega

theorem foldl_dropOrphan : ∀ (l : List (Uint256 × OrphanHeader)) (s : ChainstateManager),
    PoolAccounted getHash s → (l.map Prod.fst).Nodup → (∀ kv ∈ l, s.orphanHeaders[kv.1]? = some kv.2) →
      PoolAccounted getHash (l.foldl (fun s kv => s.dropOrphan kv.1 kv.2) s) ∧
        (l.foldl (fun s kv => s.dropOrphan kv.1 kv.2) s).orphanHeaders.size + l.length = s.orphanHeaders.size ∧
        Drained s (l.foldl (fun s kv => s.dropOrphan kv.1 kv.2) s) := by
  intro l
  induction l with
  | nil => exact fun s h _ _ => ⟨h, rfl, .refl s⟩
  | cons kv l ih =>
    intro s h hnodup hmem
    obtain ⟨hkv, hnodup⟩ := List.nodup_cons.mp hnodup
    have ho := hmem kv List.mem_cons_self
    obtain ⟨h1, h2, h3⟩ := ih (s.dropOrphan kv.1 kv.2) (h.dropOrphan ho) hnodup (fun kv' hkv' => by
      have hne : kv.1 ≠ kv'.1 := fun e => hkv (e ▸ List.mem_map_of_mem hkv')
      rw [dropOrphan_orphanHeaders, Std.ExtTreeMap.getElem?_erase, if_neg (by simpa using hne)]
      exact hmem kv' (List.mem_cons_of_mem kv hkv'))
    have hsize := dropOrphan_size ho
    exact ⟨h1, by rw [List.foldl_cons, List.length_cons]; omega, (h.drained ho).trans h3⟩

theorem oldestOrphan_mem {l : List (Uint256 × OrphanHeader)} {kv : Uint256 × OrphanHeader}
    (h : oldestOrphan l = some kv) : kv ∈ l := by
  cases l with
  | nil => cases h
  | cons kv₀ l =>
    cases h
    refine List.foldlRecOn (motive := fun kv => kv ∈ kv₀ :: l) l _ List.mem_cons_self (fun oldest ho kv hkv => ?_)
    split
    · exact List.mem_cons_of_mem kv₀ hkv
    · exact ho

variable (params env) in
theorem evictOrphanHeaders_accounted (h : PoolAccounted getHash s) :
    PoolAccounted getHash (s.evictOrphanHeaders params env).1 ∧
      (s.evictOrphanHeaders params env).1.orphanHeaders.size + (s.evictOrphanHeaders params env).2 =
        s.orphanHeaders.size ∧
      Drained s (s.evictOrphanHeaders params env).1 := by
  have hnodup : (s.orphanHeaders.toList.map Prod.fst).Nodup := by
    rw [Std.ExtTreeMap.map_fst_toList_eq_keys]
    exact Std.ExtTreeMap.nodup_keys
  obtain ⟨h1, h2, h3⟩ := foldl_dropOrphan (s.orphanHeaders.toList.filter
    (fun kv => decide (params.nOrphanHeaderExpireTime < env.time - kv.2.nTimeReceived))) s h
    (hnodup.sublist (List.filter_sublist.map _))
    (fun kv hkv => Std.ExtTreeMap.mem_toList_iff_getElem?_eq_some.mp (List.mem_of_mem_filter hkv))
  unfold evictOrphanHeaders
  simp only []
  split
  · rename_i hfull
    split
    · rename_i hnone
      rw [hfull.1] at h2
      exact ⟨h1, h2, h3⟩
    · rename_i kv hkv
      have ho := Std.ExtTreeMap.mem_toList_iff_getElem?_eq_some.mp (oldestOrphan_mem hkv)
      have hsize := dropOrphan_size ho
      rw [hfull.1] at h2
      exact ⟨h1.dropOrphan ho, hsize.trans h2, h3.trans (h1.drained ho)⟩
  · exact ⟨h1, h2, h3⟩

/-! ## Insertion -/

theorem PoolAccounted.congr (h : PoolAccounted getHash s) (ho : s'.orphanHeaders = s.orphanHeaders)
    (hc : ∀ q, s'.orphanCount q = s.orphanCount q) : PoolAccounted getHash s' where
  keyed := by rw [ho]; exact h.keyed
  counted q := by rw [hc, h.counted, pooledFrom, pooledFrom, ho]
  perPeer q := by rw [hc]; exact h.perPeer q
  total := by rw [ho]; exact h.total

variable (orphan) in
theorem PoolAccounted.insert (h : PoolAccounted getHash s) (hnew : getHash orphan.header ∉ s.orphanHeaders)
    (hpeer : s.orphanCount orphan.peerId < MAX_ORPHAN_HEADERS_PER_PEER)
    (hfull : s.orphanHeaders.size < MAX_ORPHAN_HEADERS) :
    PoolAccounted getHash
      { s with
        orphanHeaders := s.orphanHeaders.insert (getHash orphan.header) orphan
        peerOrphanCount := s.peerOrphanCount.insert orphan.peerId (s.orphanCount orphan.peerId + 1) } := by
  have hcount : ∀ q, orphanCount
      { s with
        orphanHeaders := s.orphanHeaders.insert (getHash orphan.header) orphan
        peerOrphanCount := s.peerOrphanCount.insert orphan.peerId (s.orphanCount orphan.peerId + 1) } q =
      s.orphanCount q + if orphan.peerId = q then 1 else 0 := by
    intro q
    unfold orphanCount
    rw [Std.ExtTreeMap.getElem?_insert]
    by_cases hq : orphan.peerId = q
    · subst hq
      simp
    · simp [hq]
  refine ⟨fun k v hk => ?_, fun q => ?_, fun q => ?_, ?_⟩
  · rw [Std.ExtTreeMap.getElem?_insert] at hk
    split at hk
    · rename_i heq
      cases hk
      exact Std.LawfulEqOrd.eq_of_compare heq
    · exact h.keyed k v hk
  · rw [hcount, h.counted, pooledFrom, pooledFrom, Tally.count_insert OrphanHeader.peerId hnew]
    split <;> simp
  · have := h.perPeer q
    rw [hcount]
    split
    · rename_i hq
      subst hq
      omega
    · omega
  · rw [Std.ExtTreeMap.size_insert]
    have := h.total
    split <;> omega

theorem addOrphanHeader_accounted (h : PoolAccounted getHash s) (header : CBlockHeader) (peerId : Int) :
    PoolAccounted getHash (s.addOrphanHeader getHash params env header peerId).1 := by
  -- reading the counter creates it, at zero
  have hread : ∀ q, orphanCount { s with peerOrphanCount := s.peerOrphanCount.insertIfNew peerId 0 } q =
      s.orphanCount q := by
    intro q
    unfold orphanCount
    rw [Std.ExtTreeMap.getElem?_insertIfNew]
    split
    · rename_i hq
      rw [← Std.LawfulEqOrd.eq_of_compare hq.1, Std.ExtTreeMap.getElem?_eq_none hq.2]
      rfl
    · rfl
  have h0 : PoolAccounted getHash { s with peerOrphanCount := s.peerOrphanCount.insertIfNew peerId 0 } :=
    h.congr rfl hread
  have hpeer := hread peerId
  unfold addOrphanHeader
  simp only []
  split
  · exact h
  · rename_i hnew
    split
    · exact h0
    · rename_i hlimit
      have hbelow : s.orphanCount peerId < MAX_ORPHAN_HEADERS_PER_PEER := by
        unfold orphanCount at hpeer
        rw [hpeer] at hlimit
        exact Int.not_le.mp hlimit
      by_cases hfull : MAX_ORPHAN_HEADERS ≤ s.orphanHeaders.size
      · simp only [hfull, if_true]
        obtain ⟨h1, hsize, hdrained⟩ := evictOrphanHeaders_accounted params env h0
        split
        · exact h1
        · rename_i hevicted
          have hle := Int.lt_of_le_of_lt (Int.le_trans (hdrained.counts peerId) (Int.le_of_eq hpeer)) hbelow
          have htotal := h0.total
          refine h1.insert ⟨header, env.time, peerId⟩ (fun hmem => ?_) hle (by omega)
          obtain ⟨v, hv⟩ := Std.ExtTreeMap.mem_iff_isSome_getElem?.mp hmem |> Option.isSome_iff_exists.mp
          have := hdrained.sub _ v hv
          exact hnew (Std.ExtTreeMap.mem_iff_isSome_getElem?.mpr (by rw [this]; rfl))
      · simp only [hfull, if_false]
        exact h0.insert ⟨header, env.time, peerId⟩ hnew (hpeer ▸ hbelow) (Nat.not_le.mp hfull)

/-! ## Acceptance -/

variable (getHash params env) in
theorem acceptOne_pool (s : ChainstateManager) (header : CBlockHeader) (minPow : Bool) :
    (s.acceptOne getHash params env header minPow).1.orphanHeaders = s.orphanHeaders ∧
      (s.acceptOne getHash params env header minPow).1.peerOrphanCount = s.peerOrphanCount := by
  unfold acceptOne
  simp only []
  repeat' split
  all_goals first
    | exact ⟨rfl, rfl⟩
    | rw [registerHeader_frame]; exact ⟨rfl, rfl⟩

variable (params env) in
theorem PoolAccounted.acceptOne (h : PoolAccounted getHash s) (header : CBlockHeader) (minPow : Bool) :
    PoolAccounted getHash (s.acceptOne getHash params env header minPow).1 := by
  obtain ⟨ho, hc⟩ := acceptOne_pool getHash params env s header minPow
  exact h.congr ho (fun q => by rw [orphanCount, hc]; rfl)

theorem processOrphanHeaders_accounted : ∀ (fuel : Nat) (s : ChainstateManager) (parent : Uint256),
    PoolAccounted getHash s → PoolAccounted getHash (processOrphanHeaders getHash params env fuel s parent) := by
  intro fuel
  induction fuel with
  | zero => exact fun s _ h => h
  | succ fuel ih =>
    intro s parent h
    unfold processOrphanHeaders
    refine List.foldlRecOn _ _ h (fun s hs hash _ => ?_)
    split
    · exact hs
    · rename_i orphan ho
      have h1 := (hs.dropOrphan ho).acceptOne params env orphan.header true
      split
      · rename_i heq
        rw [heq] at h1
        exact ih _ _ h1
      · rename_i heq
        rw [heq] at h1
        exact h1

theorem PoolAccounted.acceptBlockHeader (h : PoolAccounted getHash s) (header : CBlockHeader) (minPow : Bool) :
    PoolAccounted getHash (s.acceptBlockHeader getHash params env header minPow).1 := by
  have h1 := h.acceptOne params env header minPow
  unfold ChainstateManager.acceptBlockHeader
  split
  · rename_i heq; rw [heq] at h1; exact h1
  · rename_i heq; rw [heq] at h1; exact h1
  · rename_i heq
    rw [heq] at h1
    exact processOrphanHeaders_accounted _ _ _ h1

/-! ## Runs -/

variable (getHash) in
theorem setup_pool (s : ChainstateManager) (header : CBlockHeader) :
    (s.setup getHash header).1.orphanHeaders = s.orphanHeaders ∧
      (s.setup getHash header).1.peerOrphanCount = s.peerOrphanCount := by
  unfold setup
  split
  · exact ⟨rfl, rfl⟩
  · simp only []
    split <;> exact ⟨rfl, rfl⟩

theorem PoolAccounted.step (h : PoolAccounted getHash s) (a : ChainOp) (ha : IsPoolOp a) :
    PoolAccounted getHash (ChainstateManager.step getHash params s a) := by
  cases a with
  | setup header =>
    rw [step_setup]
    refine ifSucceeds_induct h (fun s' hs => ?_)
    obtain ⟨ho, hc⟩ := setup_pool getHash s header
    rw [hs] at ho hc
    exact h.congr ho (fun q => by rw [orphanCount, hc]; rfl)
  | acceptBlockHeader env header minPow => exact h.acceptBlockHeader header minPow
  | addOrphanHeader env header peerId => exact addOrphanHeader_accounted h header peerId
  | evictOrphanHeaders env => exact (evictOrphanHeaders_accounted _ _ h).1
  | tryAddBlockIndexCandidate _ => exact ha.elim
  | acceptAndTryAdd _ _ _ => exact ha.elim
  | processNewBlockHeader _ _ _ => exact ha.elim
  | activateBestChain _ => exact ha.elim
  | invalidateBlock _ => exact ha.elim
  | load _ _ => exact ha.elim
  | restart _ => exact ha.elim

/-- In every state that these operations reach from a new manager, in any order and at any clock
values, the accounts of the pool are right and its limits kept. -/
theorem orphan_pool_accounted {skipPow : Bool}
    (hrun : Run.Reaches (ChainstateManager.step getHash params) (fun _ a => IsPoolOp a) (fresh skipPow) s) :
    PoolAccounted getHash s := by
  have hcount : ∀ q, (fresh skipPow).orphanCount q = 0 := fun q => by simp [orphanCount, fresh]
  have hempty : ∀ q, (fresh skipPow).pooledFrom q = 0 := fun q => by simp [pooledFrom, fresh]
  refine hrun.invariant ⟨fun k v hk => ?_, fun q => by rw [hcount, hempty]; rfl, fun q => ?_, ?_⟩
    (fun s a h ha => h.step a ha)
  · simp [fresh] at hk
  · rw [hcount]
    decide
  · simp [fresh]

end

theorem orphan_pool_accounted_nonce :
    PoolAccounted nonceHash (ChainstateManager.step nonceHash nonceParams (fresh false)
      (.addOrphanHeader {} (nonceHeader 2 3) 7)) :=
  orphan_pool_accounted (.next .start (show IsPoolOp (.addOrphanHeader {} (nonceHeader 2 3) 7) from trivial))

end ChainstateManager

end UnicityPow
