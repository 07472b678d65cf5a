import UnicityPow.HeaderTree

/-!
# Indexes that agree below a block

What an entry and the checks of a header depend on lies on the path back to genesis. Two
indexes with the same entries there give the same results.
-/

namespace UnicityPow

open Forest BlockMap

namespace BlockMap

/-- `m'` has the entries of `m` on the path from `p` back to genesis. -/
def AgreeBelow (m m' : BlockMap) (p : BlockPtr) : Prop := ∀ a, Anc m.pprev a p → m'[a]? = m[a]?

section
variable {m m' : BlockMap} {genesis p q : BlockPtr}

theorem AgreeBelow.parent (h : AgreeBelow m m' p) (hq : m.pprev p = some q) : AgreeBelow m m' q :=
  fun a ha => h a (.step hq ha)

theorem AgreeBelow.anc_iff (h : AgreeBelow m m' p) {a : BlockPtr} : Anc m'.pprev a p ↔ Anc m.pprev a p :=
  anc_congr (S := fun b => Anc m.pprev b p) (fun _ _ hb hc => (Anc.parent hc).trans hb)
    (fun b hb => by unfold BlockMap.pprev; rw [h b hb]) .refl

theorem AgreeBelow.symm (h : AgreeBelow m m' p) : AgreeBelow m' m p :=
  fun a ha => (h a (h.anc_iff.mp ha)).symm

theorem AgreeBelow.of_forall (T : TreeShape m genesis) (h : ∀ a ∈ m, m'[a]? = m[a]?) (hp : p ∈ m) :
    AgreeBelow m m' p := fun a ha => h a (T.mem_anc ha hp)

theorem ancestry_agree : ∀ (fuel : Nat) (p : BlockPtr), AgreeBelow m m' p →
    ancestry m' fuel (some p) = ancestry m fuel (some p) := by
  intro fuel
  induction fuel with
  | zero => intro p _; rfl
  | succ fuel ih =>
    intro p h
    unfold ancestry
    rw [h p .refl]
    cases hb : m[p]? with
    | none => rfl
    | some b =>
      simp only []
      cases hq : b.pprev with
      | none => cases fuel <;> rfl
      | some q => rw [ih q (h.parent (by rw [pprev_of_get hb, hq]))]

/-! ## Fuel -/

section
variable (T : TreeShape m genesis)
include T

theorem exists_path_keys (hp : p ∈ m) :
    ∃ l : List BlockPtr, l.Nodup ∧ l.length = m.rank p + 1 ∧ ∀ x ∈ l, x ∈ m ∧ m.rank x ≤ m.rank p := by
  induction hk : m.rank p generalizing p with
  | zero => exact ⟨[p], List.nodup_singleton p, rfl, by simp [hp, hk]⟩
  | succ n ih =>
    obtain ⟨q, hq⟩ := T.exists_parent (p := p) (by have := T.rank_cast p; omega)
    have hrank := T.ranked p q hq
    obtain ⟨l, hnodup, hlen, hl⟩ := ih (T.mem_parent hq) (by omega)
    refine ⟨p :: l, List.nodup_cons.mpr ⟨fun hpl => ?_, hnodup⟩, by rw [List.length_cons, hlen], ?_⟩
    · have := (hl p hpl).2
      omega
    · intro x hx
      rcases List.mem_cons.mp hx with rfl | hx
      · exact ⟨hp, by omega⟩
      · exact ⟨(hl x hx).1, by have := (hl x hx).2; omega⟩

theorem rank_lt_size (hp : p ∈ m) : m.rank p < m.size := by
  obtain ⟨l, hnodup, hlen, hl⟩ := exists_path_keys T hp
  have hsub : l ⊆ m.keys := fun x hx => Std.ExtTreeMap.mem_keys.mpr (hl x hx).1
  have := (List.subperm_of_subset hnodup hsub).length_le
  rw [Std.ExtTreeMap.length_keys] at this
  omega

theorem ancestry_fuel : ∀ (fuel fuel' : Nat) (p : BlockPtr), p ∈ m → m.rank p < fuel → m.rank p < fuel' →
    ancestry m fuel (some p) = ancestry m fuel' (some p) := by
  intro fuel
  induction fuel with
  | zero => intro fuel' p _ h; omega
  | succ fuel ih =>
    intro fuel' p hp h h'
    obtain ⟨k, rfl⟩ : ∃ k, fuel' = k + 1 := ⟨fuel' - 1, by omega⟩
    obtain ⟨b, hb⟩ := mem_iff.mp hp
    unfold ancestry
    rw [hb]
    simp only []
    cases hq : b.pprev with
    | none => cases fuel <;> cases k <;> rfl
    | some q =>
      have hpq : m.pprev p = some q := by rw [pprev_of_get hb, hq]
      have := T.ranked p q hpq
      rw [ih k q (T.mem_parent hpq) (by omega) (by omega)]

end

theorem ancestry_size_agree (T : TreeShape m genesis) (T' : TreeShape m' genesis) (hp : p ∈ m)
    (h : AgreeBelow m m' p) : ancestry m' (m'.size + 1) (some p) = ancestry m (m.size + 1) (some p) := by
  have hp' : p ∈ m' := by
    obtain ⟨b, hb⟩ := mem_iff.mp hp
    exact mem_of_get ((h p .refl).trans hb)
  have hrank : m'.rank p = m.rank p := by
    unfold BlockMap.rank BlockMap.nHeight
    rw [h p .refl]
  have := rank_lt_size T hp
  have := rank_lt_size T' hp'
  rw [ancestry_fuel T' (m'.size + 1) (m.size + 1) p hp' (by omega) (by omega), ancestry_agree _ _ h]

end

end BlockMap

/-! ## Entries -/

/-- The skip pointer of a block with a parent leads to the parent or below it. -/
theorem HeaderTree.skip_below {getHash : CBlockHeader → Uint256} {m : BlockMap} {genesis p q : BlockPtr}
    {b : CBlockIndex} (T : HeaderTree getHash m genesis) (hb : m[p]? = some b) (hq : b.pprev = some q) :
    ∃ r, b.pskip = some r ∧ Anc m.pprev r q ∧ m.nHeight r = getSkipHeight b.nHeight := by
  obtain ⟨r, hr⟩ := Option.ne_none_iff_exists'.mp (T.skipSet p b hb (by rw [hq]; simp))
  obtain ⟨hanc, hheight⟩ := T.skip p b r hb hr
  refine ⟨r, hr, ?_, hheight⟩
  rcases (anc_child (by rw [pprev_of_get hb, hq])).mp hanc with rfl | h
  · have hn := T.nHeight_nonneg q
    have hp := (T.parent r b q hb hq).2
    have := (getSkipHeight_bounds (h := b.nHeight) (by omega)).2
    rw [nHeight_of_get hb] at hheight
    omega
  · exact h

/-- The entry of a header below a parent, given its status and reception time, depends only on
the entries below. -/
theorem HeaderTree.entry_unique {getHash : CBlockHeader → Uint256} {m m' : BlockMap} {genesis p q : BlockPtr}
    {b b' : CBlockIndex} (T : HeaderTree getHash m genesis) (T' : HeaderTree getHash m' genesis)
    (hb : m[p]? = some b) (hb' : m'[p]? = some b') (hheader : b'.getBlockHeader = b.getBlockHeader)
    (hstatus : b'.status = b.status) (htime : b'.nTimeReceived = b.nTimeReceived) (hq : b.pprev = some q)
    (hq' : b'.pprev = some q) (h : AgreeBelow m m' q) : b' = b := by
  have hqq := h q .refl
  have hheight : b'.nHeight = b.nHeight := by
    rw [(T.parent p b q hb hq).2, (T'.parent p b' q hb' hq').2]
    unfold BlockMap.nHeight
    rw [hqq]
  have hbits : b'.nBits = b.nBits := congrArg CBlockHeader.nBits hheader
  have hwork : b'.nChainWork = b.nChainWork := by
    rw [T.work p b hb, T'.work p b' hb', hq, hq', hbits]
    simp only [Option.elim_some, BlockMap.nChainWork, hqq]
  have htimes : b'.nTime = b.nTime := congrArg CBlockHeader.nTime hheader
  have hmax : b'.nTimeMax = b.nTimeMax := by
    rw [T.timeMax p b hb, T'.timeMax p b' hb', hq, hq']
    simp only [Option.elim_some, BlockMap.nTimeMax, hqq, CBlockIndex.getBlockTime, htimes]
  obtain ⟨r, hr, hrq, hrh⟩ := T.skip_below hb hq
  obtain ⟨r', hr', hrq', hrh'⟩ := T'.skip_below hb' hq'
  have hskip : b'.pskip = b.pskip := by
    rw [h.anc_iff] at hrq'
    have hsame : m.nHeight r' = m.nHeight r := by
      have : m'.nHeight r' = m.nHeight r' := by
        unfold BlockMap.nHeight
        rw [h r' hrq']
      rw [← this, hrh', hrh, hheight]
    rw [hr, hr', hrq'.unique T.ranked hrq (by unfold BlockMap.rank; rw [hsame])]
  have hversion := congrArg CBlockHeader.nVersion hheader
  have hminer := congrArg CBlockHeader.minerAddress hheader
  have hnonce := congrArg CBlockHeader.nNonce hheader
  have hrandom := congrArg CBlockHeader.hashRandomX hheader
  cases b
  cases b'
  simp_all [CBlockIndex.getBlockHeader]

end UnicityPow
