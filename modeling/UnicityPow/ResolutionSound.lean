import UnicityPow.DeliverySound
import UnicityPow.TreeSound

/-!
# The resolution of orphans ends and leaves none behind

Every round takes one header out of the pool, so the size of the pool bounds the depth of the
recursion. No round looks at anything but the pool and the keys of the index, whatever the rest
of the state holds.
-/

namespace UnicityPow

open BlockMap ChainstateManager Relation

section
variable {getHash : CBlockHeader → Uint256} {params : ConsensusParams} {env : Env} {s s' t : ChainstateManager}
  {hash : Uint256} {orphan : OrphanHeader} {header : CBlockHeader} {minPow : Bool}

/-! ## One header, whatever the state -/

theorem mem_markPath {failedit k : BlockPtr} : ∀ (fuel : Nat) (m : BlockMap) (walk : BlockPtr),
    k ∈ markPath failedit fuel m walk ↔ k ∈ m := by
  intro fuel
  induction fuel with
  | zero => intro m walk; rfl
  | succ fuel ih =>
    intro m walk
    unfold markPath
    split
    · rfl
    · simp only []
      split
      · rw [ih, Std.ExtTreeMap.mem_modify]
      · rw [Std.ExtTreeMap.mem_modify]

theorem addToBlockIndex_inserts {bm : BlockManager} (hnew : getHash header ∉ bm.blockIndex)
    (hprev : header.hashPrevBlock ∈ bm.blockIndex) :
    ∃ b, bm.addToBlockIndex getHash header =
      ({ bm with blockIndex :=
          (bm.blockIndex.insert (getHash header) (CBlockIndex.ofHeader header)).insert (getHash header) b },
        some (getHash header)) := by
  unfold BlockManager.addToBlockIndex
  simp only [hnew, if_false]
  rw [if_pos (Std.ExtTreeMap.mem_insert.mpr (.inr hprev))]
  exact ⟨_, rfl⟩

theorem registerHeader_mem {p k : BlockPtr} :
    k ∈ (registerHeader params env s p).blockIndex ↔ k ∈ s.blockIndex := by
  rw [registerHeader_frame]
  exact Std.ExtTreeMap.mem_modify

variable (getHash params env s header minPow) in
/-- One round adds to the keys of the index what it says it inserted, the hash of the header. -/
theorem acceptOne_keys :
    (∀ k, k ∈ (s.acceptOne getHash params env header minPow).1.blockIndex ↔
      k ∈ s.blockIndex ∨ (s.acceptOne getHash params env header minPow).2 = .inserted k) ∧
    (∀ k, (s.acceptOne getHash params env header minPow).2 = .inserted k → k = getHash header) ∧
    (∀ k, (s.acceptOne getHash params env header minPow).2 = .known k → k = getHash header ∧ k ∈ s.blockIndex) := by
  unfold acceptOne
  simp only []
  split
  · rename_i b hb
    split
    · simp
    · simp [mem_of_get hb]
  · rename_i hnone
    split
    · simp
    · split
      · split <;> simp
      · split
        · simp
        · rename_i prev hprev
          split
          · simp
          · split
            · simp [mem_markPath]
            · split
              · simp
              · split
                · simp
                · split
                  · simp
                  · obtain ⟨b, hadd⟩ := addToBlockIndex_inserts (notMem_of_get hnone) (mem_of_get hprev)
                    rw [hadd]
                    simp only [registerHeader_mem, Std.ExtTreeMap.mem_insert, Std.LawfulEqCmp.compare_eq_iff_eq,
                      HeaderStep.inserted.injEq]
                    refine ⟨fun k => by tauto, fun k hk => hk.symm, fun k hk => by cases hk⟩

/-! ## Rounds -/

/-- One round of `ProcessOrphanHeaders`: a header whose parent is indexed leaves the pool and is
offered. -/
inductive Round (getHash : CBlockHeader → Uint256) (params : ConsensusParams) (env : Env) :
    ChainstateManager → ChainstateManager → Prop
  | offer {s : ChainstateManager} {hash : Uint256} {orphan : OrphanHeader} : s.orphanHeaders[hash]? = some orphan →
      orphan.header.hashPrevBlock ∈ s.blockIndex →
      Round getHash params env s ((s.dropOrphan hash orphan).acceptOne getHash params env orphan.header true).1

abbrev Rounds (getHash : CBlockHeader → Uint256) (params : ConsensusParams) (env : Env) :
    ChainstateManager → ChainstateManager → Prop := ReflTransGen (Round getHash params env)

variable (getHash params env orphan) in
theorem offer_pool (s : ChainstateManager) (hash k : Uint256) :
    ((s.dropOrphan hash orphan).acceptOne getHash params env orphan.header true).1.orphanHeaders[k]? =
      if k = hash then none else s.orphanHeaders[k]? := by
  rw [(acceptOne_pool getHash params env (s.dropOrphan hash orphan) orphan.header true).1]
  exact (takenOut_dropOrphan s hash orphan).pool k

variable (getHash params env orphan) in
theorem offer_keys (s : ChainstateManager) (hash k : Uint256) :
    k ∈ ((s.dropOrphan hash orphan).acceptOne getHash params env orphan.header true).1.blockIndex ↔
      k ∈ s.blockIndex ∨ ((s.dropOrphan hash orphan).acceptOne getHash params env orphan.header true).2 = .inserted k := by
  rw [(acceptOne_keys getHash params env (s.dropOrphan hash orphan) orphan.header true).1 k,
    (takenOut_dropOrphan s hash orphan).index]

variable (getHash params env) in
theorem offer_size (ho : s.orphanHeaders[hash]? = some orphan) :
    ((s.dropOrphan hash orphan).acceptOne getHash params env orphan.header true).1.orphanHeaders.size + 1 =
      s.orphanHeaders.size := by
  rw [(acceptOne_pool getHash params env (s.dropOrphan hash orphan) orphan.header true).1]
  exact dropOrphan_size ho

theorem Round.resolved (h : Round getHash params env s t) : Resolved s t := by
  obtain ⟨ho, -⟩ := h
  refine ⟨fun k v hk => ?_, by have := offer_size getHash params env ho; omega,
    fun p hp => (offer_keys getHash params env _ s _ p).mpr (.inl hp)⟩
  rw [offer_pool] at hk
  split at hk
  · cases hk
  · exact hk

theorem Rounds.resolved (h : Rounds getHash params env s t) : Resolved s t := by
  induction h with
  | refl => exact .refl s
  | tail _ hr ih => exact ih.trans hr.resolved

/-- What left the pool left it in a round of its own. -/
theorem Rounds.removed (h : Rounds getHash params env s s') (ho : s.orphanHeaders[hash]? = some orphan)
    (hgone : s'.orphanHeaders[hash]? = none) :
    ∃ t, Rounds getHash params env s t ∧ t.orphanHeaders[hash]? = some orphan ∧
      orphan.header.hashPrevBlock ∈ t.blockIndex ∧
      Rounds getHash params env ((t.dropOrphan hash orphan).acceptOne getHash params env orphan.header true).1 s' := by
  induction h using ReflTransGen.head_induction_on with
  | refl =>
    rw [ho] at hgone
    cases hgone
  | @head s t hr hrest ih =>
    have hstep := hr
    obtain @⟨k, v, hk, hprev⟩ := hr
    by_cases hkh : hash = k
    · subst hkh
      rw [ho] at hk
      cases hk
      exact ⟨s, .refl, ho, hprev, hrest⟩
    · obtain ⟨t, h1, h2, h3, h4⟩ := ih (by rw [offer_pool, if_neg hkh, ho])
      exact ⟨t, .head hstep h1, h2, h3, h4⟩

/-! ## Completeness -/

/-- Every pooled header misses its parent, or its parent is pending. -/
def Misses (pend : Uint256 → Prop) (s : ChainstateManager) : Prop :=
  ∀ (k : Uint256) (v : OrphanHeader), s.orphanHeaders[k]? = some v →
    v.header.hashPrevBlock ∉ s.blockIndex ∨ pend v.header.hashPrevBlock

variable (getHash params env hash orphan) in
/-- After a round, the orphans of what was inserted are pending too. -/
theorem Misses.offer {pend : Uint256 → Prop} (h : Misses pend s) :
    Misses (fun k => pend k ∨ ((s.dropOrphan hash orphan).acceptOne getHash params env orphan.header true).2 = .inserted k)
      ((s.dropOrphan hash orphan).acceptOne getHash params env orphan.header true).1 := by
  intro k v hk
  rw [offer_pool] at hk
  split at hk
  · cases hk
  · rw [offer_keys]
    have := h k v hk
    tauto

variable (params) in
/-- The resolution of the orphans of an indexed block consists of rounds and leaves none of
them, whatever is pending besides. -/
theorem processOrphanHeaders_rounds : ∀ (fuel : Nat) (s : ChainstateManager) (parent : Uint256) (pend : Uint256 → Prop),
    Misses (fun k => pend k ∨ k = parent) s → parent ∈ s.blockIndex → s.orphanHeaders.size ≤ fuel →
      Rounds getHash params env s (processOrphanHeaders getHash params env fuel s parent) ∧
        Misses pend (processOrphanHeaders getHash params env fuel s parent) := by
  intro fuel
  induction fuel with
  | zero =>
    intro s parent pend _ _ hsize
    refine ⟨.refl, fun k v hk => ?_⟩
    have : (s.orphanHeaders.erase k).size + 1 = s.orphanHeaders.size := Tally.size_erase hk
    omega
  | succ fuel ih =>
    intro s parent pend h hparent hsize
    unfold processOrphanHeaders
    -- every pooled child of `parent` is in the part of the list still to come
    suffices hloop : ∀ (l : List Uint256) (s : ChainstateManager), Misses (fun k => pend k ∨ k = parent) s →
        parent ∈ s.blockIndex → s.orphanHeaders.size ≤ fuel + 1 →
        (∀ (k : Uint256) (v : OrphanHeader), s.orphanHeaders[k]? = some v →
          (k ∈ l ↔ v.header.hashPrevBlock = parent)) →
        Rounds getHash params env s (l.foldl _ s) ∧ Misses pend (l.foldl _ s) from
      hloop _ s h hparent hsize (fun k v hk => mem_orphansOf hk)
    intro l
    induction l with
    | nil =>
      intro s h _ _ hl
      refine ⟨.refl, fun k v hk => (h k v hk).imp id (fun hp => hp.resolve_right (fun he => ?_))⟩
      exact List.not_mem_nil ((hl k v hk).mpr he)
    | cons k l ihl =>
      intro s h hparent hsize hl
      rw [List.foldl_cons]
      cases ho : s.orphanHeaders[k]? with
      | none =>
        refine ihl s h hparent hsize (fun k' v hk' => ?_)
        rw [← hl k' v hk', List.mem_cons, or_iff_right (fun e => by rw [e, ho] at hk'; cases hk')]
      | some orphan =>
        have hchild := (hl k orphan ho).mp List.mem_cons_self
        have hround : Round getHash params env s _ := .offer ho (hchild ▸ hparent)
        have hmiss := h.offer getHash params env k orphan
        have hless := offer_size getHash params env ho
        have hgone := offer_pool getHash params env orphan s k k
        rw [if_pos rfl] at hgone
        -- what the rest of the list needs holds in any state that further rounds lead to
        have hnext : ∀ t, Rounds getHash params env
            ((s.dropOrphan k orphan).acceptOne getHash params env orphan.header true).1 t →
            parent ∈ t.blockIndex ∧ t.orphanHeaders.size ≤ fuel + 1 ∧
              ∀ (k' : Uint256) (v : OrphanHeader), t.orphanHeaders[k']? = some v →
                (k' ∈ l ↔ v.header.hashPrevBlock = parent) := by
          intro t hst
          have hres := hst.resolved
          have hall := hround.resolved.trans hres
          refine ⟨hall.mem parent hparent, Nat.le_trans hall.size hsize, fun k' v hk' => ?_⟩
          rw [← hl k' v (hall.sub k' v hk'), List.mem_cons,
            or_iff_right (fun e => by have := hres.sub k' v hk'; rw [e, hgone] at this; cases this)]
        simp only []
        split
        · rename_i s1 pindex he
          rw [he] at hmiss hnext hless hround
          have hin : pindex ∈ s1.blockIndex := by
            have := (offer_keys getHash params env orphan s k pindex).mpr (.inr (by rw [he]))
            rwa [he] at this
          obtain ⟨hst, hmiss'⟩ := ih s1 pindex (fun k => pend k ∨ k = parent)
            (fun k v hk => by simpa [eq_comm] using hmiss k v hk) hin (by simp only [] at hless; omega)
          obtain ⟨h1, h2, h3⟩ := hnext _ hst
          obtain ⟨hst', hend⟩ := ihl _ hmiss' h1 h2 h3
          exact ⟨.head hround (hst.trans hst'), hend⟩
        · rename_i s1 r hr he
          rw [he] at hmiss hnext hround
          obtain ⟨h1, h2, h3⟩ := hnext s1 .refl
          obtain ⟨hst', hend⟩ := ihl s1 (fun k v hk => (hmiss k v hk).imp id (fun hp => hp.resolve_right (hr _))) h1 h2 h3
          exact ⟨.head hround hst', hend⟩

/-! ## Termination -/

variable (getHash params env) in
theorem processOrphanHeaders_size : ∀ (fuel : Nat) (s : ChainstateManager) (parent : Uint256),
    (processOrphanHeaders getHash params env fuel s parent).orphanHeaders.size ≤ s.orphanHeaders.size := by
  intro fuel
  induction fuel with
  | zero => exact fun s _ => Nat.le_refl _
  | succ fuel ih =>
    intro s parent
    unfold processOrphanHeaders
    refine List.foldlRecOn (motive := fun (t : ChainstateManager) => t.orphanHeaders.size ≤ s.orphanHeaders.size) _ _ (Nat.le_refl _)
      (fun t ht hash _ => ?_)
    split
    · exact ht
    · rename_i orphan ho
      have hless := offer_size getHash params env ho
      split
      · rename_i t1 pindex he
        rw [he] at hless
        have := ih t1 pindex
        simp only [] at hless
        omega
      · rename_i t1 r hr he
        rw [he] at hless
        simp only [] at hless
        omega

/-- Two loops that agree on the states that occur have the same result. -/
theorem foldl_congr_inv {S A : Type*} {f g : S → A → S} (P : S → Prop) (h : ∀ s a, P s → f s a = g s a ∧ P (f s a)) :
    ∀ (l : List A) (s : S), P s → l.foldl f s = l.foldl g s := by
  intro l
  induction l with
  | nil => exact fun s _ => rfl
  | cons a l ih =>
    intro s hs
    obtain ⟨heq, hP⟩ := h s a hs
    rw [List.foldl_cons, List.foldl_cons, ← heq]
    exact ih _ hP

variable (getHash params env) in
/-- With the size of the pool as fuel, more fuel makes no difference. -/
theorem processOrphanHeaders_fuel_succ : ∀ (fuel : Nat) (s : ChainstateManager) (parent : Uint256),
    s.orphanHeaders.size ≤ fuel → processOrphanHeaders getHash params env (fuel + 1) s parent =
      processOrphanHeaders getHash params env fuel s parent := by
  intro fuel
  induction fuel with
  | zero =>
    intro s parent hsize
    have hnone : s.orphansOf parent = [] := by
      rw [List.eq_nil_iff_forall_not_mem]
      intro k hk
      obtain ⟨⟨k', v⟩, hkv, rfl⟩ := List.mem_map.mp hk
      have := Tally.size_erase (Std.ExtTreeMap.mem_toList_iff_getElem?_eq_some.mp (List.mem_filter.mp hkv).1)
      omega
    unfold processOrphanHeaders
    rw [hnone]
    rfl
  | succ fuel ih =>
    intro s parent hsize
    rw [processOrphanHeaders, processOrphanHeaders]
    refine foldl_congr_inv (fun t => t.orphanHeaders.size ≤ fuel + 1) (fun t hash ht => ?_) _ s hsize
    cases ho : t.orphanHeaders[hash]? with
    | none => exact ⟨rfl, ht⟩
    | some orphan =>
      have hless := offer_size getHash params env ho
      simp only []
      split
      · rename_i t1 pindex he
        rw [he] at hless
        simp only [] at hless
        rw [ih t1 pindex (by omega)]
        exact ⟨rfl, by have := processOrphanHeaders_size getHash params env fuel t1 pindex; omega⟩
      · rename_i t1 r hr he
        rw [he] at hless
        simp only [] at hless
        exact ⟨rfl, by omega⟩

theorem processOrphanHeaders_fuel (s : ChainstateManager) (parent : Uint256) {fuel : Nat}
    (hfuel : s.orphanHeaders.size ≤ fuel) : processOrphanHeaders getHash params env fuel s parent =
      processOrphanHeaders getHash params env s.orphanHeaders.size s parent := by
  induction fuel, hfuel using Nat.le_induction with
  | base => rfl
  | succ fuel hle ih => rw [processOrphanHeaders_fuel_succ getHash params env fuel s parent hle, ih]

/-! ## A whole call -/

variable (getHash params env header minPow) in
theorem acceptBlockHeader_rounds (hmiss : Misses (fun _ => False) s) :
    Rounds getHash params env (s.acceptOne getHash params env header minPow).1
        (s.acceptBlockHeader getHash params env header minPow).1 ∧
      Misses (fun _ => False) (s.acceptBlockHeader getHash params env header minPow).1 := by
  obtain ⟨hkeys, -, -⟩ := acceptOne_keys getHash params env s header minPow
  have hpool := (acceptOne_pool getHash params env s header minPow).1
  unfold acceptBlockHeader
  rcases he : s.acceptOne getHash params env header minPow with ⟨s1, ⟨p⟩ | ⟨p⟩ | ⟨state⟩⟩ <;>
    rw [he] at hkeys hpool
  · exact ⟨.refl, fun k v hk => .inl (by
      rw [hkeys]
      have := hmiss k v (hpool ▸ hk)
      simpa using this)⟩
  · refine processOrphanHeaders_rounds params _ s1 p (fun _ => False) (fun k v hk => ?_) ((hkeys p).mpr (.inr rfl))
      (Nat.le_refl _)
    rw [hkeys]
    have := hmiss k v (hpool ▸ hk)
    simp only [HeaderStep.inserted.injEq]
    tauto
  · exact ⟨.refl, fun k v hk => .inl (by
      rw [hkeys]
      have := hmiss k v (hpool ▸ hk)
      simpa using this)⟩

/-- A pooled header whose parent is missing is in the index only under a hash that two headers
share, or as a genesis header. -/
theorem InUse.pooled_notMem (h : InUse getHash s) (hprev : header.hashPrevBlock ∉ s.blockIndex) {b : CBlockIndex}
    (hb : s.blockIndex[getHash header]? = some b) : b.getBlockHeader ≠ header ∨ header.hashPrevBlock = 0 := by
  obtain ⟨genesis, W⟩ := h
  by_cases heq : b.getBlockHeader = header
  · refine .inr ?_
    cases hp : b.pprev with
    | none => rw [← heq, CBlockIndex.getBlockHeader, hp]; rfl
    | some q =>
      have hq : header.hashPrevBlock = q := by rw [← heq, CBlockIndex.getBlockHeader, hp]; rfl
      exact absurd (hq ▸ (W.tree.parent _ b q hb hp).1) hprev
  · exact .inl heq

/-- Where every pooled header misses its parent, `AcceptBlockHeader` and the resolution of
orphans it sets off end, and every pooled header misses its parent again. What left the pool
did so in a round of its own, with its parent in the index: it is in the index, or a check
refused it. -/
theorem orphan_resolution_complete (hpool : ∀ (k : Uint256) (v : OrphanHeader), s.orphanHeaders[k]? = some v →
      v.header.hashPrevBlock ∉ s.blockIndex) (env : Env) (header : CBlockHeader) (minPow : Bool) :
    (∀ (t : ChainstateManager) (parent : Uint256) (fuel : Nat), t.orphanHeaders.size ≤ fuel →
      processOrphanHeaders getHash params env fuel t parent =
        processOrphanHeaders getHash params env t.orphanHeaders.size t parent) ∧
    (∀ (k : Uint256) (v : OrphanHeader),
      (s.acceptBlockHeader getHash params env header minPow).1.orphanHeaders[k]? = some v →
      v.header.hashPrevBlock ∉ (s.acceptBlockHeader getHash params env header minPow).1.blockIndex) ∧
    (∀ (k : Uint256) (v : OrphanHeader), s.orphanHeaders[k]? = some v →
      (s.acceptBlockHeader getHash params env header minPow).1.orphanHeaders[k]? = none →
      ∃ t, Rounds getHash params env (s.acceptOne getHash params env header minPow).1 t ∧
        t.orphanHeaders[k]? = some v ∧ v.header.hashPrevBlock ∈ t.blockIndex ∧
        Rounds getHash params env ((t.dropOrphan k v).acceptOne getHash params env v.header true).1
          (s.acceptBlockHeader getHash params env header minPow).1 ∧
        (getHash v.header ∈ (s.acceptBlockHeader getHash params env header minPow).1.blockIndex ∨
          ∃ state, ((t.dropOrphan k v).acceptOne getHash params env v.header true).2 = .refused state)) ∧
    (InUse getHash s → ∀ (k : Uint256) (v : OrphanHeader) (b : CBlockIndex), s.orphanHeaders[k]? = some v →
      s.blockIndex[getHash v.header]? = some b → b.getBlockHeader ≠ v.header ∨ v.header.hashPrevBlock = 0) := by
  obtain ⟨hrounds, hmiss⟩ := acceptBlockHeader_rounds getHash params env header minPow
    (fun k v hk => .inl (hpool k v hk))
  refine ⟨fun t parent fuel => processOrphanHeaders_fuel t parent, fun k v hk => (hmiss k v hk).resolve_right id,
    fun k v hk hgone => ?_, fun h k v b hk hb => h.pooled_notMem (hpool k v hk) hb⟩
  obtain ⟨t, h1, h2, h3, h4⟩ := hrounds.removed
    (by rw [(acceptOne_pool getHash params env s header minPow).1]; exact hk) hgone
  refine ⟨t, h1, h2, h3, h4, ?_⟩
  obtain ⟨hkeys, hins, hknown⟩ := acceptOne_keys getHash params env (t.dropOrphan k v) v.header true
  cases hr : ((t.dropOrphan k v).acceptOne getHash params env v.header true).2 with
  | refused state => exact .inr ⟨state, rfl⟩
  | known p =>
    obtain ⟨rfl, hp⟩ := hknown p hr
    exact .inl (h4.resolved.mem _ ((hkeys _).mpr (.inl hp)))
  | inserted p =>
    obtain rfl := hins p hr
    exact .inl (h4.resolved.mem _ ((hkeys _).mpr (.inr hr)))

end

theorem orphan_resolution_complete_nonce :
    ∃ s, s = step nonceHash nonceParams (step nonceHash nonceParams (fresh false) (.setup (nonceHeader 0 1)))
        (.addOrphanHeader {} (nonceHeader 2 3) 7) ∧
      s.orphanHeaders.size = 1 ∧
      ∀ (k : Uint256) (v : OrphanHeader),
        (s.acceptBlockHeader nonceHash nonceParams {} (nonceHeader 1 2) true).1.orphanHeaders[k]? = some v →
        v.header.hashPrevBlock ∉ (s.acceptBlockHeader nonceHash nonceParams {} (nonceHeader 1 2) true).1.blockIndex := by
  refine ⟨_, rfl, by decide +kernel, (orphan_resolution_complete (fun k v hk => ?_) {} (nonceHeader 1 2) true).2.1⟩
  have hall : ∀ kv ∈ (step nonceHash nonceParams (step nonceHash nonceParams (fresh false) (.setup (nonceHeader 0 1)))
      (.addOrphanHeader {} (nonceHeader 2 3) 7)).orphanHeaders.toList, kv.2.header.hashPrevBlock ∉
        (step nonceHash nonceParams (step nonceHash nonceParams (fresh false) (.setup (nonceHeader 0 1)))
          (.addOrphanHeader {} (nonceHeader 2 3) 7)).blockIndex := by decide +kernel
  exact hall (k, v) (Std.ExtTreeMap.mem_toList_iff_getElem?_eq_some.mpr hk)

end UnicityPow
