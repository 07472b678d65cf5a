import UnicityPow.AcceptSound
import UnicityPow.AncestrySound
import UnicityPow.OrphanSound

/-!
# Delivering headers and their orphans

A header either attaches to the index, waits in the pool for its parent, or is out for good.
Every delivery, with the resolution of orphans it sets off, keeps this account of all headers
delivered so far.
-/

namespace UnicityPow

open Forest BlockMap

namespace ChainstateManager

/-! ## One header -/

/-- The header passes every check, below a parent of the index. -/
structure Passes (env : Env) (s : ChainstateManager) (header : CBlockHeader) : Prop where
  prev_ne : header.hashPrevBlock ≠ 0
  prev_mem : header.hashPrevBlock ∈ s.blockIndex
  prev_unfailed : s.blockIndex.isFailed header.hashPrevBlock = false
  commitment : s.checkProofOfWork env header .COMMITMENT_ONLY = true
  contextual : contextualCheck env s.blockIndex header header.hashPrevBlock = none
  full : s.checkBlockHeaderWrapper env header = true

/-- The header passes the checks made before its parent is looked up. -/
def Waits (env : Env) (s : ChainstateManager) (header : CBlockHeader) : Prop :=
  header.hashPrevBlock ≠ 0 ∧ s.checkProofOfWork env header .COMMITMENT_ONLY = true

/-- The contextual check does not answer with the reason of a missing parent. -/
def ContextNamesOther (env : Env) : Prop :=
  ∀ header past time state, env.contextualCheckBlockHeader header past time = some state →
    state.rejectReason ≠ "prev-blk-not-found"

/-- One delivery from a peer: what is rejected for its unknown parent goes to the pool. -/
def deliver (getHash : CBlockHeader → Uint256) (params : ConsensusParams) (env : Env) (s : ChainstateManager)
    (x : CBlockHeader × Int) : ChainstateManager :=
  match s.acceptBlockHeader getHash params env x.1 true with
  | (s, .ok _) => s
  | (s, .error state) =>
    if state.rejectReason = "prev-blk-not-found" then (s.addOrphanHeader getHash params env x.1 x.2).1 else s

end ChainstateManager

open ChainstateManager

section
variable {getHash : CBlockHeader → Uint256} {params : ConsensusParams} {env : Env} {genesis : BlockPtr}
  {s s' : ChainstateManager} {header : CBlockHeader}

theorem Inserted.passes {b : CBlockIndex} (h : Inserted getHash genesis env s header s' b)
    (h0 : header.hashPrevBlock ≠ 0) : Passes env s header :=
  ⟨h0, h.prev_mem, h.prev_unfailed, h.checked.1, h.checked.2.1, h.checked.2.2⟩

theorem failedAncestor_none (W : Wf getHash genesis s) {p : BlockPtr} (hp : p ∈ s.blockIndex)
    (hf : s.blockIndex.isFailed p = false) : s.failedAncestor p = none := by
  unfold failedAncestor
  rw [if_pos ((W.isValid_iff hp).mpr hf)]

variable (params) in
theorem acceptOne_passes (W : Wf getHash genesis s) (hnew : getHash header ∉ s.blockIndex)
    (h : Passes env s header) :
    ∃ s' b, s.acceptOne getHash params env header true = (s', .inserted (getHash header)) ∧
      Inserted getHash genesis env s header s' b := by
  have hinserted : (s.acceptOne getHash params env header true).2 = .inserted (getHash header) := by
    obtain ⟨prev, hprev⟩ := mem_iff.mp h.prev_mem
    have hpf := h.prev_unfailed
    rw [isFailed_of_get hprev] at hpf
    obtain ⟨b, hadd, -⟩ := addToBlockIndex_spec W.tree header hnew h.prev_mem h.prev_ne
    unfold acceptOne
    simp only [get_of_notMem hnew, h.commitment, h.prev_ne, hprev, hpf, failedAncestor_none W h.prev_mem h.prev_unfailed,
      h.contextual, h.full, hadd, Bool.not_true, Bool.false_eq_true, if_false]
  rcases acceptOne_cases params env W header true with
    ⟨st, he⟩ | ⟨he, -⟩ | ⟨s', b, he, -, -, hins⟩
  · rw [he] at hinserted
    cases hinserted
  · rw [he] at hinserted
    cases hinserted
  · exact ⟨s', b, he, hins⟩

theorem acceptOne_waits (hnew : getHash header ∉ s.blockIndex) (h : Waits env s header)
    (hprev : header.hashPrevBlock ∉ s.blockIndex) :
    s.acceptOne getHash params env header true =
      (s, .refused (.invalid "prev-blk-not-found" "parent block not found")) := by
  unfold acceptOne
  simp only [get_of_notMem hnew, h.2, h.1, get_of_notMem hprev, Bool.not_true, Bool.false_eq_true, if_false]

theorem notMem_of_get {m : BlockMap} {p : BlockPtr} (h : m[p]? = none) : p ∉ m := fun hm => by
  simpa [h] using mem_iff.mp hm

variable (params) in
theorem acceptOne_reason (hctx : ContextNamesOther env) {state : ValidationState}
    (h : (s.acceptOne getHash params env header true).2 = .refused state)
    (hreason : state.rejectReason = "prev-blk-not-found") :
    getHash header ∉ s.blockIndex ∧ Waits env s header ∧ header.hashPrevBlock ∉ s.blockIndex := by
  unfold acceptOne at h
  simp only [] at h
  repeat' split at h
  all_goals try cases h
  all_goals try exact absurd hreason (by decide)
  · rename_i hnew hcommit h0 _ hprev
    exact ⟨notMem_of_get hnew, ⟨h0, by simpa using hcommit⟩, notMem_of_get hprev⟩
  · rename_i hcheck
    exact absurd hreason (hctx _ _ _ _ hcheck)

variable (params header) in
/-- A header that neither passes nor waits is refused for a reason of its own, or known. -/
theorem acceptOne_out (W : Wf getHash genesis s) (hctx : ContextNamesOther env)
    (hpass : getHash header ∉ s.blockIndex → ¬ Passes env s header)
    (hwait : getHash header ∉ s.blockIndex → Waits env s header → header.hashPrevBlock ∈ s.blockIndex) :
    ∃ r, s.acceptOne getHash params env header true = (s, r) ∧
      (r = .known (getHash header) ∨ ∃ state, r = .refused state ∧ state.rejectReason ≠ "prev-blk-not-found") := by
  rcases acceptOne_cases params env W header true with
    ⟨st, he⟩ | ⟨he, -⟩ | ⟨s', b, he, -, h0, hins⟩
  · refine ⟨_, he, .inr ⟨st, rfl, fun hreason => ?_⟩⟩
    obtain ⟨hnew, hw, hprev⟩ := acceptOne_reason params hctx (congrArg Prod.snd he) hreason
    exact hprev (hwait hnew hw)
  · exact ⟨_, he, .inl rfl⟩
  · exact absurd (hins.passes h0) (hpass hins.isNew)

/-! ## Checks in a larger index -/

variable (env) in
theorem checkProofOfWork_congr (h : s'.testSkipPowChecks = s.testSkipPowChecks) (header : CBlockHeader)
    (mode : POWVerifyMode) : s'.checkProofOfWork env header mode = s.checkProofOfWork env header mode := by
  unfold checkProofOfWork
  rw [h]

theorem waits_congr (h : s'.testSkipPowChecks = s.testSkipPowChecks) :
    Waits env s' header ↔ Waits env s header := by
  unfold Waits
  rw [checkProofOfWork_congr _ h]

theorem passes_congr (hindex : s'.blockIndex = s.blockIndex) (hskip : s'.testSkipPowChecks = s.testSkipPowChecks) :
    Passes env s' header ↔ Passes env s header := by
  have hcommit := checkProofOfWork_congr env hskip header .COMMITMENT_ONLY
  have hfull : s'.checkBlockHeaderWrapper env header = s.checkBlockHeaderWrapper env header := by
    unfold checkBlockHeaderWrapper
    rw [hskip]
  constructor
  · exact fun ⟨h1, h2, h3, h4, h5, h6⟩ => ⟨h1, hindex ▸ h2, hindex ▸ h3, hcommit ▸ h4, hindex ▸ h5, hfull ▸ h6⟩
  · exact fun ⟨h1, h2, h3, h4, h5, h6⟩ => ⟨h1, hindex ▸ h2, hindex ▸ h3, hcommit ▸ h4, hindex ▸ h5, hfull ▸ h6⟩

/-- The outcome of the checks depends only on the path below the header. -/
theorem ChainstateManager.Passes.agree (h : Passes env s header) (T : TreeShape s.blockIndex genesis)
    (T' : TreeShape s'.blockIndex genesis) (hskip : s'.testSkipPowChecks = s.testSkipPowChecks)
    (hagree : AgreeBelow s.blockIndex s'.blockIndex header.hashPrevBlock) : Passes env s' header := by
  have hget := hagree header.hashPrevBlock .refl
  refine ⟨h.prev_ne, ?_, ?_, ?_, ?_, ?_⟩
  · obtain ⟨b, hb⟩ := mem_iff.mp h.prev_mem
    exact mem_of_get (hget.trans hb)
  · unfold BlockMap.isFailed
    rw [hget]
    exact h.prev_unfailed
  · rw [checkProofOfWork_congr _ hskip]
    exact h.commitment
  · unfold contextualCheck
    rw [ancestry_size_agree T T' h.prev_mem hagree]
    exact h.contextual
  · unfold checkBlockHeaderWrapper
    rw [hskip]
    exact h.full

theorem Inserted.get_of_mem {b : CBlockIndex} (h : Inserted getHash genesis env s header s' b) {p : BlockPtr}
    (hp : p ∈ s.blockIndex) : s'.blockIndex[p]? = s.blockIndex[p]? := by
  rw [h.index]
  exact getElem?_insert_ne _ _ (fun e => h.isNew (e ▸ hp))

theorem Inserted.mem_iff {b : CBlockIndex} (h : Inserted getHash genesis env s header s' b) {p : BlockPtr} :
    p ∈ s'.blockIndex ↔ p = getHash header ∨ p ∈ s.blockIndex := by
  rw [h.index]
  exact mem_insert

theorem Inserted.passes_iff {b : CBlockIndex} (h : Inserted getHash genesis env s header s' b)
    (W : Wf getHash genesis s) {y : CBlockHeader} (hy : y.hashPrevBlock ∈ s.blockIndex) :
    Passes env s' y ↔ Passes env s y := by
  have T := W.tree.toTreeShape
  have T' := h.tree.toTreeShape
  have hskip : s'.testSkipPowChecks = s.testSkipPowChecks := by rw [h.frame]
  have hagree := AgreeBelow.of_forall T (fun a ha => h.get_of_mem ha) hy
  exact ⟨fun hp => hp.agree T' T hskip.symm hagree.symm, fun hp => hp.agree T T' hskip hagree⟩

end

/-! ## The account of all deliveries -/

/-- The pool entry of a delivered header. -/
def poolEntry (env : Env) (x : CBlockHeader × Int) : OrphanHeader := ⟨x.1, env.time, x.2⟩

/-- What holds of the headers `D` delivered to a manager with the index `m₀` and an empty pool.
`pend` names the blocks whose orphans are still being resolved. -/
structure Delivering (getHash : CBlockHeader → Uint256) (env : Env) (genesis : BlockPtr) (m₀ : BlockMap) (skip : Bool)
    (D : List (CBlockHeader × Int)) (pend : Uint256 → Prop) (s : ChainstateManager) : Prop where
  wf : Wf getHash genesis s
  skipPow : s.testSkipPowChecks = skip
  old : ∀ (p : BlockPtr) (b : CBlockIndex), m₀[p]? = some b → s.blockIndex[p]? = some b
  attached : ∀ (p : BlockPtr) (b : CBlockIndex), s.blockIndex[p]? = some b → m₀[p]? = none →
    ∃ x ∈ D, p = getHash x.1 ∧ b.getBlockHeader = x.1 ∧
      b.status = ⟨ValidationLevel.TREE, FailureState.NOT_FAILED⟩ ∧ b.nTimeReceived = env.time ∧ Passes env s x.1
  pooled : ∀ (hash : Uint256) (orphan : OrphanHeader), s.orphanHeaders[hash]? = some orphan →
    ∃ x ∈ D, hash = getHash x.1 ∧ orphan = poolEntry env x ∧ hash ∉ s.blockIndex ∧ Waits env s x.1 ∧
      (x.1.hashPrevBlock ∉ s.blockIndex ∨ pend x.1.hashPrevBlock)
  settled : ∀ x ∈ D, getHash x.1 ∈ s.blockIndex ∨ s.orphanHeaders[getHash x.1]? = some (poolEntry env x) ∨
    (x.1.hashPrevBlock ∈ s.blockIndex ∧ ¬ Passes env s x.1) ∨ ¬ Waits env s x.1

section
variable {getHash : CBlockHeader → Uint256} {params : ConsensusParams} {env : Env} {genesis : BlockPtr}
  {m₀ : BlockMap} {skip : Bool} {D D' : List (CBlockHeader × Int)} {pend : Uint256 → Prop}
  {s t s' : ChainstateManager} {x : CBlockHeader × Int}

/-- `t` is `s` with the header of hash `hash`, if any, taken out of the pool. -/
structure TakenOut (hash : Uint256) (s t : ChainstateManager) : Prop where
  index : t.blockIndex = s.blockIndex
  skipPow : t.testSkipPowChecks = s.testSkipPowChecks
  pool : ∀ k : Uint256, t.orphanHeaders[k]? = if k = hash then none else s.orphanHeaders[k]?

theorem TakenOut.passes_iff {hash : Uint256} (h : TakenOut hash s t) {y : CBlockHeader} :
    Passes env t y ↔ Passes env s y :=
  passes_congr h.index h.skipPow

/-- A header attaches, straight from its delivery or out of the pool. Its own orphans are pending. -/
theorem Delivering.attach (H : Delivering getHash env genesis m₀ skip D pend s) (hx : x ∈ D')
    (hD : ∀ y ∈ D, y ∈ D') (hD' : ∀ y ∈ D', y = x ∨ y ∈ D) (h0 : x.1.hashPrevBlock ≠ 0)
    (ht : TakenOut (getHash x.1) s t) (Wt : Wf getHash genesis t) {b : CBlockIndex}
    (hins : Inserted getHash genesis env t x.1 s' b) :
    Delivering getHash env genesis m₀ skip D' (fun k => pend k ∨ k = getHash x.1) s' := by
  have hskip : s'.testSkipPowChecks = t.testSkipPowChecks := by rw [hins.frame]
  have hpool : s'.orphanHeaders = t.orphanHeaders := by rw [hins.frame]
  have hnew : getHash x.1 ∉ s.blockIndex := ht.index ▸ hins.isNew
  have hmem : ∀ {p}, p ∈ s'.blockIndex ↔ p = getHash x.1 ∨ p ∈ s.blockIndex := by
    intro p
    rw [hins.mem_iff, ht.index]
  have hget : ∀ {p}, p ∈ s.blockIndex → s'.blockIndex[p]? = s.blockIndex[p]? := by
    intro p hp
    rw [hins.get_of_mem (ht.index.symm ▸ hp), ht.index]
  have hpass : ∀ {y : CBlockHeader}, y.hashPrevBlock ∈ s.blockIndex → (Passes env s' y ↔ Passes env s y) := by
    intro y hy
    rw [hins.passes_iff Wt (ht.index.symm ▸ hy), ht.passes_iff]
  have hwait : ∀ {y : CBlockHeader}, Waits env s' y ↔ Waits env s y := fun {y} => waits_congr (hskip.trans ht.skipPow)
  refine ⟨hins.wf Wt, (hskip.trans ht.skipPow).trans H.skipPow, fun p c hc => ?_, fun p c hc hold => ?_,
    fun k o ho => ?_, fun y hy => ?_⟩
  · have := H.old p c hc
    rw [hget (mem_of_get this), this]
  · by_cases hp : p ∈ s.blockIndex
    · rw [hget hp] at hc
      obtain ⟨y, hy, hk, hh, hst, htime, hpy⟩ := H.attached p c hc hold
      exact ⟨y, hD y hy, hk, hh, hst, htime, (hpass hpy.prev_mem).mpr hpy⟩
    · rcases hmem.mp (mem_of_get hc) with rfl | hp'
      · rw [hins.get] at hc
        cases hc
        exact ⟨x, hx, rfl, hins.getBlockHeader, hins.status, hins.nTimeReceived,
          (hpass (ht.index ▸ hins.prev_mem)).mpr (ht.passes_iff.mp (hins.passes h0))⟩
      · exact absurd hp' hp
  · rw [hpool, ht.pool] at ho
    split at ho
    · cases ho
    · rename_i hk
      obtain ⟨y, hy, rfl, hoy, hym, hyw, hprev⟩ := H.pooled k o ho
      refine ⟨y, hD y hy, rfl, hoy, fun hm => (hmem.mp hm).elim hk hym, hwait.mpr hyw, ?_⟩
      rcases hprev with hprev | hprev
      · by_cases hpx : y.1.hashPrevBlock = getHash x.1
        · exact .inr (.inr hpx)
        · exact .inl (fun hm => (hmem.mp hm).elim hpx hprev)
      · exact .inr (.inl hprev)
  · by_cases hyx : getHash y.1 = getHash x.1
    · exact .inl (hmem.mpr (.inl hyx))
    · have hyD : y ∈ D := (hD' y hy).resolve_left (fun e => hyx (by rw [e]))
      rcases H.settled y hyD with hm | hp | ⟨hprev, hno⟩ | hno
      · exact .inl (hmem.mpr (.inr hm))
      · refine .inr (.inl ?_)
        rw [hpool, ht.pool, if_neg hyx, hp]
      · exact .inr (.inr (.inl ⟨hmem.mpr (.inr hprev), fun hp => hno ((hpass hprev).mp hp)⟩))
      · exact .inr (.inr (.inr (fun hw => hno (hwait.mp hw))))

theorem Delivering.discard (H : Delivering getHash env genesis m₀ skip D pend s)
    (hprev : x.1.hashPrevBlock ∈ s.blockIndex) (hno : ¬ Passes env s x.1) (hxs : ∀ y ∈ D, getHash y.1 = getHash x.1 → y = x)
    (ht : TakenOut (getHash x.1) s t) (Wt : Wf getHash genesis t) :
    Delivering getHash env genesis m₀ skip D pend t := by
  refine ⟨Wt, ht.skipPow.trans H.skipPow, by rw [ht.index]; exact H.old, fun p b hb hold => ?_, fun k o ho => ?_,
    fun y hy => ?_⟩
  · rw [ht.index] at hb
    obtain ⟨y, hy, hk, hh, hst, htime, hpy⟩ := H.attached p b hb hold
    exact ⟨y, hy, hk, hh, hst, htime, ht.passes_iff.mpr hpy⟩
  · rw [ht.pool] at ho
    split at ho
    · cases ho
    · obtain ⟨y, hy, hk, hoy, hym, hyw, hp⟩ := H.pooled k o ho
      rw [ht.index]
      exact ⟨y, hy, hk, hoy, hym, (waits_congr ht.skipPow).mpr hyw, hp⟩
  · rw [ht.index, ht.passes_iff, waits_congr ht.skipPow, ht.pool]
    by_cases hyx : getHash y.1 = getHash x.1
    · rw [hxs y hy hyx]
      exact .inr (.inr (.inl ⟨hprev, hno⟩))
    · rw [if_neg hyx]
      exact H.settled y hy

/-! ## Resolving orphans -/

theorem takenOut_dropOrphan (s : ChainstateManager) (hash : Uint256) (orphan : OrphanHeader) :
    TakenOut hash s (s.dropOrphan hash orphan) := by
  obtain ⟨c, hc⟩ := dropOrphan_pool s hash orphan
  rw [hc]
  refine ⟨rfl, rfl, fun k => ?_⟩
  change (s.orphanHeaders.erase hash)[k]? = _
  rw [Std.ExtTreeMap.getElem?_erase]
  by_cases hk : k = hash
  · subst hk
    simp
  · rw [if_neg (by simpa using fun e => hk e.symm), if_neg hk]

/-- Headers only left the pool, and entered the index. -/
structure Resolved (s s' : ChainstateManager) : Prop where
  sub : ∀ (hash : Uint256) (orphan : OrphanHeader), s'.orphanHeaders[hash]? = some orphan →
    s.orphanHeaders[hash]? = some orphan
  size : s'.orphanHeaders.size ≤ s.orphanHeaders.size
  mem : ∀ p ∈ s.blockIndex, p ∈ s'.blockIndex

theorem Resolved.refl (s : ChainstateManager) : Resolved s s := ⟨fun _ _ h => h, Nat.le_refl _, fun _ h => h⟩

theorem Resolved.trans (h : Resolved s t) (h' : Resolved t s') : Resolved s s' :=
  ⟨fun k v hk => h.sub k v (h'.sub k v hk), Nat.le_trans h'.size h.size, fun p hp => h'.mem p (h.mem p hp)⟩

theorem Delivering.resolved {parent : Uint256}
    (H : Delivering getHash env genesis m₀ skip D (fun k => pend k ∨ k = parent) s)
    (hnone : ∀ (k : Uint256) (v : OrphanHeader), s.orphanHeaders[k]? = some v → v.header.hashPrevBlock ≠ parent) :
    Delivering getHash env genesis m₀ skip D pend s :=
  { H with
    pooled := fun k o ho => by
      obtain ⟨x, hx, hk, hox, hm, hw, hprev⟩ := H.pooled k o ho
      refine ⟨x, hx, hk, hox, hm, hw, ?_⟩
      rcases hprev with h | h | h
      · exact .inl h
      · exact .inr h
      · have := hnone k o ho
        rw [hox] at this
        exact absurd h this }

theorem TakenOut.wf {hash : Uint256} {orphan : OrphanHeader} (W : Wf getHash genesis s) :
    Wf getHash genesis (s.dropOrphan hash orphan) := by
  obtain ⟨c, hc⟩ := dropOrphan_pool s hash orphan
  rw [hc]
  exact W.withPool _ _

theorem resolved_dropOrphan {hash : Uint256} {orphan : OrphanHeader} (ho : s.orphanHeaders[hash]? = some orphan) :
    Resolved s (s.dropOrphan hash orphan) := by
  have ht := takenOut_dropOrphan s hash orphan
  refine ⟨fun k v hk => ?_, by have := dropOrphan_size ho; omega, fun p hp => ht.index.symm ▸ hp⟩
  rw [ht.pool] at hk
  split at hk
  · cases hk
  · exact hk

variable (params) in
/-- One pooled child of `parent` attaches, with its own orphans, or is discarded. -/
theorem Delivering.round (hdist : ∀ x ∈ D, ∀ y ∈ D, getHash y.1 = getHash x.1 → y = x) {fuel : Nat}
    (ih : ∀ (s : ChainstateManager) (parent : Uint256) (pend : Uint256 → Prop),
      Delivering getHash env genesis m₀ skip D (fun k => pend k ∨ k = parent) s → parent ∈ s.blockIndex →
      s.orphanHeaders.size ≤ fuel →
      Delivering getHash env genesis m₀ skip D pend
          (ChainstateManager.processOrphanHeaders getHash params env fuel s parent) ∧
        Resolved s (ChainstateManager.processOrphanHeaders getHash params env fuel s parent))
    (H : Delivering getHash env genesis m₀ skip D pend s) (hsize : s.orphanHeaders.size ≤ fuel + 1)
    {hash : Uint256} {orphan : OrphanHeader} (ho : s.orphanHeaders[hash]? = some orphan)
    (hparent : orphan.header.hashPrevBlock ∈ s.blockIndex) :
    ∃ s1, (match (s.dropOrphan hash orphan).acceptOne getHash params env orphan.header true with
        | (s, .inserted pindex) => ChainstateManager.processOrphanHeaders getHash params env fuel s pindex
        | (s, _) => s) = s1 ∧
      Delivering getHash env genesis m₀ skip D pend s1 ∧ Resolved s s1 ∧ s1.orphanHeaders[hash]? = none := by
  obtain ⟨x, hx, rfl, rfl, hnew, -, -⟩ := H.pooled hash orphan ho
  have ht := takenOut_dropOrphan s (getHash x.1) (poolEntry env x)
  have Wt : Wf getHash genesis (s.dropOrphan (getHash x.1) (poolEntry env x)) := TakenOut.wf H.wf
  have hres := resolved_dropOrphan ho
  have hgone : (s.dropOrphan (getHash x.1) (poolEntry env x)).orphanHeaders[getHash x.1]? = none := by
    rw [ht.pool, if_pos rfl]
  by_cases hpass : Passes env s x.1
  · obtain ⟨s', b, he, hins⟩ := acceptOne_passes params Wt (ht.index.symm ▸ hnew) (ht.passes_iff.mpr hpass)
    have hpool : s'.orphanHeaders = (s.dropOrphan (getHash x.1) (poolEntry env x)).orphanHeaders := by rw [hins.frame]
    have hres' : Resolved s s' := hres.trans
      ⟨by rw [hpool]; exact fun _ _ h => h, by rw [hpool], fun p hp => hins.mem_iff.mpr (.inr hp)⟩
    obtain ⟨H2, hres2⟩ := ih s' (getHash x.1) pend
      (H.attach hx (fun _ h => h) (fun _ h => .inr h) hpass.prev_ne ht Wt hins) (hins.mem_iff.mpr (.inl rfl))
      (by have := dropOrphan_size ho; rw [hpool]; omega)
    have he' : (s.dropOrphan (getHash x.1) (poolEntry env x)).acceptOne getHash params env (poolEntry env x).header true =
        (s', .inserted (getHash x.1)) := he
    rw [he']
    refine ⟨_, rfl, H2, hres'.trans hres2, ?_⟩
    rw [← Option.not_isSome_iff_eq_none, Option.isSome_iff_exists]
    rintro ⟨v, hv⟩
    have := hres2.sub _ v hv
    rw [hpool, hgone] at this
    cases this
  · have H1 := H.discard hparent hpass (hdist x hx) ht Wt
    rcases acceptOne_cases params env Wt (poolEntry env x).header true with
      ⟨st, he⟩ | ⟨he, -⟩ | ⟨s', b, -, -, h0, hins⟩
    · rw [he]
      exact ⟨_, rfl, H1, hres, hgone⟩
    · rw [he]
      exact ⟨_, rfl, H1, hres, hgone⟩
    · exact absurd (ht.passes_iff.mp (hins.passes h0)) hpass

/-- The resolution of the orphans of a new block settles them, whatever is pending besides. -/
theorem Delivering.processOrphanHeaders (hdist : ∀ x ∈ D, ∀ y ∈ D, getHash y.1 = getHash x.1 → y = x) :
    ∀ (fuel : Nat) (s : ChainstateManager) (parent : Uint256) (pend : Uint256 → Prop),
      Delivering getHash env genesis m₀ skip D (fun k => pend k ∨ k = parent) s → parent ∈ s.blockIndex →
      s.orphanHeaders.size ≤ fuel →
      Delivering getHash env genesis m₀ skip D pend
          (ChainstateManager.processOrphanHeaders getHash params env fuel s parent) ∧
        Resolved s (ChainstateManager.processOrphanHeaders getHash params env fuel s parent) := by
  intro fuel
  induction fuel with
  | zero =>
    intro s parent pend H _ hsize
    refine ⟨H.resolved (fun k v hk => ?_), .refl s⟩
    have := Tally.size_erase hk
    omega
  | succ fuel ih =>
    intro s parent pend H hparent hsize
    unfold ChainstateManager.processOrphanHeaders
    -- every pooled child of `parent` is in the part of the list still to come
    suffices hloop : ∀ (l : List Uint256) (s : ChainstateManager),
        Delivering getHash env genesis m₀ skip D (fun k => pend k ∨ k = parent) s → parent ∈ s.blockIndex →
        s.orphanHeaders.size ≤ fuel + 1 →
        (∀ (k : Uint256) (v : OrphanHeader), s.orphanHeaders[k]? = some v →
          (k ∈ l ↔ v.header.hashPrevBlock = parent)) →
        Delivering getHash env genesis m₀ skip D pend (l.foldl _ s) ∧ Resolved s (l.foldl _ s) from
      hloop _ s H hparent hsize (fun k v hk => mem_orphansOf hk)
    intro l
    induction l with
    | nil =>
      intro s H _ _ hl
      exact ⟨H.resolved (fun k v hk hp => List.not_mem_nil ((hl k v hk).mpr hp)), .refl s⟩
    | cons k l ihl =>
      intro s H hparent hsize hl
      rw [List.foldl_cons]
      cases ho : s.orphanHeaders[k]? with
      | none =>
        refine ihl s H hparent hsize (fun k' v hk' => ?_)
        rw [← hl k' v hk', List.mem_cons, or_iff_right (fun e => by rw [e, ho] at hk'; cases hk')]
      | some orphan =>
        have hchild := (hl k orphan ho).mp List.mem_cons_self
        obtain ⟨s1, rfl, H1, hres, hgone⟩ := H.round params hdist ih hsize ho (hchild ▸ hparent)
        obtain ⟨H2, hres2⟩ := ihl _ H1 (hres.mem parent hparent) (Nat.le_trans hres.size hsize) (fun k' v hk' => by
          rw [← hl k' v (hres.sub k' v hk'), List.mem_cons, or_iff_right (fun e => by rw [e, hgone] at hk'; cases hk')])
        exact ⟨H2, hres.trans hres2⟩

/-! ## One delivery -/

/-- The pool and the peer are below their limits. -/
def HasRoom (s : ChainstateManager) (peerId : Int) : Prop :=
  s.orphanHeaders.size < MAX_ORPHAN_HEADERS ∧ s.orphanCount peerId < MAX_ORPHAN_HEADERS_PER_PEER

variable (getHash params env) in
theorem addOrphanHeader_room (header : CBlockHeader) {peerId : Int} (hroom : HasRoom s peerId)
    (hnew : getHash header ∉ s.orphanHeaders) :
    ∃ c, (s.addOrphanHeader getHash params env header peerId).1 =
      s.withPool (s.orphanHeaders.insert (getHash header) ⟨header, env.time, peerId⟩) c := by
  have hcount : (s.peerOrphanCount.insertIfNew peerId 0)[peerId]?.getD 0 = s.orphanCount peerId := by
    unfold orphanCount
    rw [Std.ExtTreeMap.getElem?_insertIfNew]
    split
    · rename_i h
      rw [Std.ExtTreeMap.getElem?_eq_none h.2]
      rfl
    · rfl
  have hpeer : ¬ (MAX_ORPHAN_HEADERS_PER_PEER : Int) ≤ s.orphanCount peerId := Int.not_le.mpr hroom.2
  have htotal : ¬ MAX_ORPHAN_HEADERS ≤ s.orphanHeaders.size := Nat.not_le.mpr hroom.1
  unfold addOrphanHeader
  simp only [hnew, hcount, hpeer, htotal, if_false]
  exact ⟨_, rfl⟩

/-- A header that does not attach joins the account, in the pool or out for good. -/
theorem Delivering.join (H : Delivering getHash env genesis m₀ skip D (fun _ => False) s)
    {o : Std.ExtTreeMap Uint256 OrphanHeader compare} (c : Std.ExtTreeMap Int Int compare)
    (hpool : ∀ (k : Uint256) (v : OrphanHeader), o[k]? = some v → s.orphanHeaders[k]? = some v ∨
      (k = getHash x.1 ∧ v = poolEntry env x ∧ k ∉ s.blockIndex ∧ Waits env s x.1 ∧
        x.1.hashPrevBlock ∉ s.blockIndex))
    (hkeep : ∀ (k : Uint256) (v : OrphanHeader), s.orphanHeaders[k]? = some v → o[k]? = some v)
    (hx : getHash x.1 ∈ s.blockIndex ∨ o[getHash x.1]? = some (poolEntry env x) ∨
      (x.1.hashPrevBlock ∈ s.blockIndex ∧ ¬ Passes env s x.1) ∨ ¬ Waits env s x.1) :
    Delivering getHash env genesis m₀ skip (D ++ [x]) (fun _ => False) (s.withPool o c) := by
  have hpass : ∀ y, Passes env (s.withPool o c) y ↔ Passes env s y := fun y =>
    ⟨fun ⟨h1, h2, h3, h4, h5, h6⟩ => ⟨h1, h2, h3, h4, h5, h6⟩, fun ⟨h1, h2, h3, h4, h5, h6⟩ => ⟨h1, h2, h3, h4, h5, h6⟩⟩
  refine ⟨H.wf.withPool o c, H.skipPow, H.old, fun p b hb hold => ?_, fun k v hk => ?_, fun y hy => ?_⟩
  · obtain ⟨y, hy, hk, hh, hst, htime, hpy⟩ := H.attached p b hb hold
    exact ⟨y, List.mem_append_left _ hy, hk, hh, hst, htime, (hpass y.1).mpr hpy⟩
  · rcases hpool k v hk with hk | ⟨hk, hv, hm, hw, hprev⟩
    · obtain ⟨y, hy, hy'⟩ := H.pooled k v hk
      exact ⟨y, List.mem_append_left _ hy, hy'⟩
    · exact ⟨x, by simp, hk, hv, hm, hw, .inl hprev⟩
  · rw [hpass]
    rcases List.mem_append.mp hy with hy | hy
    · rcases H.settled y hy with h | h | h
      · exact .inl h
      · exact .inr (.inl (hkeep _ _ h))
      · exact .inr (.inr h)
    · rw [List.mem_singleton.mp hy]
      exact hx

variable (params) in
theorem Delivering.deliver (hctx : ContextNamesOther env)
    (H : Delivering getHash env genesis m₀ skip D (fun _ => False) s)
    (hdist : ∀ y ∈ D ++ [x], ∀ z ∈ D ++ [x], getHash z.1 = getHash y.1 → z = y)
    (hnew : ∀ y ∈ D, getHash y.1 ≠ getHash x.1) (hroom : HasRoom s x.2) :
    Delivering getHash env genesis m₀ skip (D ++ [x]) (fun _ => False)
      (ChainstateManager.deliver getHash params env s x) := by
  have hxD : x ∈ D ++ [x] := by simp
  have hD : ∀ y ∈ D, y ∈ D ++ [x] := fun y hy => by simp [hy]
  have hD' : ∀ y ∈ D ++ [x], y = x ∨ y ∈ D := fun y hy => by simpa [or_comm] using hy
  have hunpooled : s.orphanHeaders[getHash x.1]? = none := by
    rw [← Option.not_isSome_iff_eq_none, Option.isSome_iff_exists]
    rintro ⟨o, ho⟩
    obtain ⟨y, hy, hk, -⟩ := H.pooled _ o ho
    exact hnew y hy hk.symm
  unfold ChainstateManager.deliver ChainstateManager.acceptBlockHeader
  by_cases hpass : getHash x.1 ∉ s.blockIndex ∧ Passes env s x.1
  · obtain ⟨s', b, he, hins⟩ := acceptOne_passes params H.wf hpass.1 hpass.2
    rw [he]
    have ht : TakenOut (getHash x.1) s s := ⟨rfl, rfl, fun k => by
      split
      · rename_i hk
        rw [hk, hunpooled]
      · rfl⟩
    exact (Delivering.processOrphanHeaders hdist _ _ _ (fun _ => False)
      (H.attach hxD hD hD' hpass.2.prev_ne ht H.wf hins) (hins.mem_iff.mpr (.inl rfl)) (Nat.le_refl _)).1
  · by_cases hwait : getHash x.1 ∉ s.blockIndex ∧ Waits env s x.1 ∧ x.1.hashPrevBlock ∉ s.blockIndex
    · obtain ⟨hm, hw, hprev⟩ := hwait
      rw [acceptOne_waits hm hw hprev]
      obtain ⟨c, hc⟩ := addOrphanHeader_room getHash params env x.1 hroom
        (fun h => by
          have := Std.ExtTreeMap.mem_iff_isSome_getElem?.mp h
          rw [hunpooled] at this
          cases this)
      simp only [ValidationState.invalid, if_true, hc]
      refine H.join c (fun k v hk => ?_) (fun k v hk => ?_) (.inr (.inl Std.ExtTreeMap.getElem?_insert_self))
      · rw [Std.ExtTreeMap.getElem?_insert] at hk
        split at hk
        · rename_i heq
          cases hk
          have := Std.LawfulEqOrd.eq_of_compare heq
          subst this
          exact .inr ⟨rfl, rfl, hm, hw, hprev⟩
        · exact .inl hk
      · rw [Std.ExtTreeMap.getElem?_insert, if_neg (fun heq => ?_)]
        · exact hk
        · rw [← Std.LawfulEqOrd.eq_of_compare heq, hunpooled] at hk
          cases hk
    · obtain ⟨r, he, hr⟩ := acceptOne_out params x.1 H.wf hctx (fun h hp => hpass ⟨h, hp⟩)
        (fun h hw => by by_contra hprev; exact hwait ⟨h, hw, hprev⟩)
      have hstay : Delivering getHash env genesis m₀ skip (D ++ [x]) (fun _ => False) s := by
        refine H.join s.peerOrphanCount (fun _ _ h => .inl h) (fun _ _ h => h) ?_
        by_cases hm : getHash x.1 ∈ s.blockIndex
        · exact .inl hm
        · by_cases hprev : x.1.hashPrevBlock ∈ s.blockIndex
          · exact .inr (.inr (.inl ⟨hprev, fun hp => hpass ⟨hm, hp⟩⟩))
          · exact .inr (.inr (.inr fun hw => hwait ⟨hm, hw, hprev⟩))
      rw [he]
      rcases hr with rfl | ⟨st, rfl, hreason⟩
      · exact hstay
      · simp only [if_neg hreason]
        exact hstay

end

end UnicityPow
