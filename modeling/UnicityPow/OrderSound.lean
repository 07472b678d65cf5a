import UnicityPow.DeliverySound
import UnicityPow.RecoverySound
import UnicityPow.TreeSound

/-!
# The order of delivery

The account of the delivered headers determines the index and the pool, so two orders of one
set of deliveries end in the same ones.
-/

namespace UnicityPow

open Forest BlockMap ChainstateManager

section
variable {getHash : CBlockHeader → Uint256} {params : ConsensusParams} {env : Env} {genesis : BlockPtr}
  {m₀ : BlockMap} {skip : Bool} {D D' : List (CBlockHeader × Int)} {s s' : ChainstateManager}

theorem CBlockIndex.pprev_of_header {b : CBlockIndex} {header : CBlockHeader} (h : b.getBlockHeader = header)
    (h0 : header.hashPrevBlock ≠ 0) : b.pprev = some header.hashPrevBlock := by
  subst h
  cases hq : b.pprev with
  | none => exact absurd (by simp [CBlockIndex.getBlockHeader, hq]) h0
  | some q => simp [CBlockIndex.getBlockHeader, hq]

/-! ## The account determines the state -/

/-- A block of one manager is in the other, with the same entry. The induction is on its height:
below it the two indexes already agree. -/
theorem Delivering.sub (H : Delivering getHash env genesis m₀ skip D (fun _ => False) s)
    (H' : Delivering getHash env genesis m₀ skip D' (fun _ => False) s') (hsame : ∀ x, x ∈ D ↔ x ∈ D')
    (hdist : ∀ x ∈ D, ∀ y ∈ D, getHash y.1 = getHash x.1 → y = x) :
    ∀ (n : Nat) (p : BlockPtr) (b : CBlockIndex), s.blockIndex.rank p < n → s.blockIndex[p]? = some b →
      s'.blockIndex[p]? = some b := by
  intro n
  induction n with
  | zero => intro p b hp; omega
  | succ n ih =>
    intro p b hrank hb
    cases hold : m₀[p]? with
    | some b₀ =>
      have := H.old p b₀ hold
      rw [hb] at this
      cases this
      exact H'.old p b hold
    | none =>
      obtain ⟨x, hx, rfl, hheader, hstatus, htime, hpass⟩ := H.attached p b hb hold
      have hprev := CBlockIndex.pprev_of_header hheader hpass.prev_ne
      have T := H.wf.tree.toTreeShape
      have hchild := T.ranked _ _ (show s.blockIndex.pprev (getHash x.1) = some x.1.hashPrevBlock by
        rw [pprev_of_get hb, hprev])
      have hagree : AgreeBelow s.blockIndex s'.blockIndex x.1.hashPrevBlock := by
        intro a ha
        have := ha.rank_le T.ranked
        obtain ⟨c, hc⟩ := mem_iff.mp (T.mem_anc ha hpass.prev_mem)
        rw [hc, ih a c (by omega) hc]
      have hpass' : Passes env s' x.1 := hpass.agree T H'.wf.tree.toTreeShape (H'.skipPow.trans H.skipPow.symm) hagree
      have hmem : getHash x.1 ∈ s'.blockIndex := by
        rcases H'.settled x ((hsame x).mp hx) with h | h | ⟨-, h⟩ | h
        · exact h
        · obtain ⟨y, hy, hk, hyx, -, -, hout⟩ := H'.pooled _ _ h
          have hyx' : y = x := hdist x hx y ((hsame y).mpr hy) hk.symm
          subst hyx'
          exact absurd hpass'.prev_mem (hout.resolve_right id)
        · exact absurd hpass' h
        · exact absurd ⟨hpass'.prev_ne, hpass'.commitment⟩ h
      obtain ⟨b', hb'⟩ := mem_iff.mp hmem
      obtain ⟨y, hy, hk, hheader', hstatus', htime', -⟩ := H'.attached _ b' hb' hold
      have hyx : y = x := hdist x hx y ((hsame y).mpr hy) hk.symm
      subst hyx
      have hprev' := CBlockIndex.pprev_of_header hheader' hpass.prev_ne
      rw [hb', H.wf.tree.entry_unique H'.wf.tree hb hb' (hheader'.trans hheader.symm) (hstatus'.trans hstatus.symm)
        (htime'.trans htime.symm) hprev hprev' hagree]

theorem Delivering.pool_iff (H : Delivering getHash env genesis m₀ skip D (fun _ => False) s) (k : Uint256)
    (o : OrphanHeader) : s.orphanHeaders[k]? = some o ↔
      ∃ x ∈ D, k = getHash x.1 ∧ o = poolEntry env x ∧ k ∉ s.blockIndex ∧ Waits env s x.1 ∧
        x.1.hashPrevBlock ∉ s.blockIndex := by
  constructor
  · intro h
    obtain ⟨x, hx, hk, ho, hm, hw, hprev⟩ := H.pooled k o h
    exact ⟨x, hx, hk, ho, hm, hw, hprev.resolve_right id⟩
  · rintro ⟨x, hx, rfl, rfl, hm, hw, hprev⟩
    rcases H.settled x hx with h | h | ⟨h, -⟩ | h
    · exact absurd h hm
    · exact h
    · exact absurd h hprev
    · exact absurd hw h

theorem Delivering.unique (H : Delivering getHash env genesis m₀ skip D (fun _ => False) s)
    (H' : Delivering getHash env genesis m₀ skip D' (fun _ => False) s') (hsame : ∀ x, x ∈ D ↔ x ∈ D')
    (hdist : ∀ x ∈ D, ∀ y ∈ D, getHash y.1 = getHash x.1 → y = x) :
    s.blockIndex = s'.blockIndex ∧ s.orphanHeaders = s'.orphanHeaders := by
  have hdist' : ∀ x ∈ D', ∀ y ∈ D', getHash y.1 = getHash x.1 → y = x :=
    fun x hx y hy => hdist x ((hsame x).mpr hx) y ((hsame y).mpr hy)
  have hsub := fun p b => H.sub H' hsame hdist (s.blockIndex.rank p + 1) p b (Nat.lt_succ_self _)
  have hsub' := fun p b => H'.sub H (fun x => (hsame x).symm) hdist' (s'.blockIndex.rank p + 1) p b (Nat.lt_succ_self _)
  have hindex : s.blockIndex = s'.blockIndex :=
    Std.ExtTreeMap.ext_getElem? fun p => Option.ext fun b => ⟨hsub p b, hsub' p b⟩
  refine ⟨hindex, Std.ExtTreeMap.ext_getElem? fun k => Option.ext fun o => ?_⟩
  have hskip : s'.testSkipPowChecks = s.testSkipPowChecks := H'.skipPow.trans H.skipPow.symm
  rw [H.pool_iff, H'.pool_iff, hindex]
  constructor
  · rintro ⟨x, hx, hk, ho, hm, hw, hprev⟩
    exact ⟨x, (hsame x).mp hx, hk, ho, hm, (waits_congr hskip).mpr hw, hprev⟩
  · rintro ⟨x, hx, hk, ho, hm, hw, hprev⟩
    exact ⟨x, (hsame x).mpr hx, hk, ho, hm, (waits_congr hskip).mp hw, hprev⟩

/-! ## A list of deliveries -/

namespace ChainstateManager

variable (getHash params env)

/-- The limits of the pool are not reached by any of the deliveries. -/
def NeverFull : ChainstateManager → List (CBlockHeader × Int) → Prop
  | _, [] => True
  | s, x :: l => HasRoom s x.2 ∧ NeverFull (s.deliver getHash params env x) l

def deliverAll (s : ChainstateManager) (l : List (CBlockHeader × Int)) : ChainstateManager :=
  l.foldl (deliver getHash params env) s

end ChainstateManager

variable (params) in
theorem Delivering.deliverAll (hctx : ContextNamesOther env) : ∀ (l D : List (CBlockHeader × Int))
    (s : ChainstateManager), Delivering getHash env genesis m₀ skip D (fun _ => False) s →
      ((D ++ l).map (fun x => getHash x.1)).Nodup → NeverFull getHash params env s l →
      Delivering getHash env genesis m₀ skip (D ++ l) (fun _ => False)
        (ChainstateManager.deliverAll getHash params env s l) := by
  intro l
  induction l with
  | nil =>
    intro D s H _ _
    rwa [List.append_nil]
  | cons x l ih =>
    intro D s H hnodup hroom
    have hnodup' : ((D ++ [x]).map (fun x => getHash x.1)).Nodup := by
      refine hnodup.sublist (List.Sublist.map _ ?_)
      exact (List.Sublist.refl D).append (List.singleton_sublist.mpr List.mem_cons_self)
    have hinj := List.inj_on_of_nodup_map hnodup'
    have hnew : ∀ y ∈ D, getHash y.1 ≠ getHash x.1 := by
      intro y hy he
      rw [List.map_append, List.nodup_append] at hnodup'
      exact hnodup'.2.2 _ (List.mem_map_of_mem hy) _ (by simp) he
    have H1 := H.deliver params hctx (fun y hy z hz he => hinj hz hy he) hnew hroom.1
    rw [List.append_cons] at hnodup ⊢
    exact ih (D ++ [x]) _ H1 hnodup hroom.2

theorem delivering_start (W : Wf getHash genesis s) (hpool : s.orphanHeaders = ∅) :
    Delivering getHash env genesis s.blockIndex s.testSkipPowChecks [] (fun _ => False) s := by
  refine ⟨W, rfl, fun _ _ h => h, fun p b hb hold => ?_, fun k o ho => ?_, fun x hx => by cases hx⟩
  · rw [hb] at hold
    cases hold
  · rw [hpool] at ho
    simp at ho

theorem deliverAll_perm (hctx : ContextNamesOther env) (W : Wf getHash genesis s) (hpool : s.orphanHeaders = ∅)
    {l l' : List (CBlockHeader × Int)} (hperm : l.Perm l') (hnodup : (l.map (fun x => getHash x.1)).Nodup)
    (hroom : NeverFull getHash params env s l) (hroom' : NeverFull getHash params env s l') :
    (deliverAll getHash params env s l).blockIndex = (deliverAll getHash params env s l').blockIndex ∧
      (deliverAll getHash params env s l).orphanHeaders = (deliverAll getHash params env s l').orphanHeaders := by
  have H := Delivering.deliverAll params hctx l [] s (delivering_start W hpool) hnodup hroom
  have H' := Delivering.deliverAll params hctx l' [] s (delivering_start W hpool)
    ((hperm.map _).nodup_iff.mp hnodup) hroom'
  have hinj := List.inj_on_of_nodup_map hnodup
  exact H.unique H' (fun x => hperm.mem_iff) (fun x hx y hy he => hinj hy hx he)

/-! ## Runs -/

/-- The operations at run time that put no header into the pool. -/
def LeavesPoolEmpty : ChainOp → Prop
  | .setup _ => False
  | .addOrphanHeader _ _ _ => False
  | .load _ _ => False
  | .restart _ => False
  | _ => True

theorem evictOrphanHeaders_empty (hpool : s.orphanHeaders = ∅) :
    (s.evictOrphanHeaders params env).1.orphanHeaders = ∅ := by
  have hlist : s.orphanHeaders.toList = [] := by simp [hpool]
  unfold evictOrphanHeaders
  simp only [hlist, List.filter_nil, List.foldl_nil, List.length_nil]
  split
  · rename_i hfull
    rw [hpool] at hfull
    exact absurd hfull.2 (by decide)
  · exact hpool

variable (params env) in
theorem acceptBlockHeader_empty (W : Wf getHash genesis s) (hpool : s.orphanHeaders = ∅) (header : CBlockHeader)
    (minPow : Bool) : (s.acceptBlockHeader getHash params env header minPow).1.orphanHeaders = ∅ := by
  rcases acceptBlockHeader_noOrphans params env W hpool header minPow with
    ⟨st, he⟩ | ⟨he, -⟩ | ⟨s', b, he, hins⟩
  · rw [he]; exact hpool
  · rw [he]; exact hpool
  · rw [he, hins.frame]; exact hpool

theorem activateBestChain_empty (W : Wf getHash genesis s) (hpool : s.orphanHeaders = ∅) (given : Option BlockPtr)
    (hgiven : ∀ p, given = some p → p ∈ s.blockIndex) :
    (activateBestChain params s given).1.orphanHeaders = ∅ := by
  rw [(activateBestChain_spec params W given hgiven).frame]
  exact hpool

theorem step_empty (W : Wf getHash genesis s) (hpool : s.orphanHeaders = ∅) (a : ChainOp) (ha : LeavesPoolEmpty a) :
    (step getHash params s a).orphanHeaders = ∅ := by
  cases a with
  | acceptBlockHeader env header minPow => exact acceptBlockHeader_empty _ _ W hpool header minPow
  | tryAddBlockIndexCandidate p =>
    rw [step_tryAddBlockIndexCandidate]
    split <;> exact hpool
  | acceptAndTryAdd env header minPow =>
    have h1 := acceptBlockHeader_empty params env W hpool header minPow
    rw [step_acceptAndTryAdd, acceptAndTryAdd]
    rcases he : s.acceptBlockHeader getHash params env header minPow with ⟨s1, _ | p⟩ <;> rw [he] at h1 <;> exact h1
  | processNewBlockHeader env header minPow =>
    have h1 := acceptBlockHeader_empty params env W hpool header minPow
    have W1 := W.acceptBlockHeader params env header minPow
    rw [step_processNewBlockHeader, processNewBlockHeader]
    rcases he : s.acceptBlockHeader getHash params env header minPow with ⟨s1, _ | p⟩ <;> rw [he] at h1 W1
    · exact h1
    · exact activateBestChain_empty (Wf.tryAddCandidate W1 p) h1 none (fun _ h => by cases h)
  | activateBestChain given =>
    cases given with
    | none => exact activateBestChain_empty W hpool none (fun _ h => by cases h)
    | some p =>
      rw [step_activateBestChain_some]
      split
      · rename_i hp
        exact activateBestChain_empty W hpool (some p) (fun q hq => by cases hq; exact hp)
      · exact hpool
  | invalidateBlock hash =>
    rw [step_invalidateBlock]
    rcases invalidateBlock_cases W hash with ⟨he, -⟩ | ⟨s', ev, he, -, -, -, hinv, -⟩
    · rw [he]; exact hpool
    · rw [he, hinv.frame]; exact hpool
  | evictOrphanHeaders env => exact evictOrphanHeaders_empty hpool
  | addOrphanHeader _ _ _ => exact ha.elim
  | setup _ => exact ha.elim
  | load _ _ => exact ha.elim
  | restart _ => exact ha.elim

/-- From every state that calls at run time reach with the pool still empty, two orders of one set
of headers with different hashes end with the same index and the same pool. -/
theorem delivery_order_irrelevant (hctx : ContextNamesOther env) {skipPow : Bool} {header : CBlockHeader}
    {s₀ : ChainstateManager} (h₀ : (fresh skipPow).setup getHash header = (s₀, true))
    (hrun : Run.Reaches (step getHash params) (fun _ a => LeavesPoolEmpty a) s₀ s)
    {l l' : List (CBlockHeader × Int)} (hperm : l.Perm l') (hnodup : (l.map (fun x => getHash x.1)).Nodup)
    (hroom : NeverFull getHash params env s l) (hroom' : NeverFull getHash params env s l') :
    (deliverAll getHash params env s l).blockIndex = (deliverAll getHash params env s l').blockIndex ∧
      (deliverAll getHash params env s l).orphanHeaders = (deliverAll getHash params env s l').orphanHeaders := by
  obtain ⟨h0, -, rfl⟩ := setup_fresh_true getHash header skipPow h₀
  obtain ⟨⟨genesis, W⟩, hpool⟩ := hrun.invariant (P := fun s => InUse getHash s ∧ s.orphanHeaders = ∅)
    ⟨⟨_, genesisState_wf getHash header skipPow h0⟩, rfl⟩ (fun s a h ha => by
      obtain ⟨genesis, W⟩ := h.1
      exact ⟨h.1.step _ a, step_empty W h.2 a ha⟩)
  exact deliverAll_perm hctx W hpool hperm hnodup hroom hroom'

end

theorem delivery_order_irrelevant_nonce :
    (deliverAll nonceHash nonceParams {} nonceStart [(nonceHeader 1 2, 7), (nonceHeader 2 3, 8)]).blockIndex =
        (deliverAll nonceHash nonceParams {} nonceStart [(nonceHeader 2 3, 8), (nonceHeader 1 2, 7)]).blockIndex ∧
      (deliverAll nonceHash nonceParams {} nonceStart [(nonceHeader 1 2, 7), (nonceHeader 2 3, 8)]).orphanHeaders =
        (deliverAll nonceHash nonceParams {} nonceStart
          [(nonceHeader 2 3, 8), (nonceHeader 1 2, 7)]).orphanHeaders :=
  delivery_order_irrelevant (fun _ _ _ _ h => by cases h) nonceStart_setup .start (.swap _ _ _) (by decide)
    ⟨⟨by decide +kernel, by decide +kernel⟩, ⟨by decide +kernel, by decide +kernel⟩, trivial⟩
    ⟨⟨by decide +kernel, by decide +kernel⟩, ⟨by decide +kernel, by decide +kernel⟩, trivial⟩

end UnicityPow
