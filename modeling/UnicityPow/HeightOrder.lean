import UnicityPow.HeaderTree
import UnicityPow.HeaderFile

/-!
# Passes in height order

Both passes over a loaded index rewrite one entry after another, parents first. The
entries already rewritten form a growing tree, each step adding one leaf to it.
-/

namespace UnicityPow

open Forest

namespace BlockMap

/-! ## The order -/

section
variable {m : BlockMap} {genesis : BlockPtr}

theorem byHeight_pairwise (m : BlockMap) : m.byHeight.Pairwise (fun a b => m.nHeight a ≤ m.nHeight b) := by
  have : Std.Total (fun a b => m.nHeight a ≤ m.nHeight b) := ⟨fun a b => le_total _ _⟩
  have : IsTrans BlockPtr (fun a b => m.nHeight a ≤ m.nHeight b) := ⟨fun _ _ _ => le_trans⟩
  exact List.pairwise_insertionSort _ _

theorem byHeight_nodup (m : BlockMap) : m.byHeight.Nodup := by
  refine (List.perm_insertionSort _ m.keys).nodup_iff.mpr ?_
  exact Std.ExtTreeMap.nodup_keys

theorem TreeShape.byHeight_cons (T : TreeShape m genesis) : ∃ rest, m.byHeight = genesis :: rest := by
  cases hl : m.byHeight with
  | nil =>
    have := mem_byHeight.mpr T.genesis_mem
    rw [hl] at this
    cases this
  | cons p rest =>
    have hp : p ∈ m := mem_byHeight.mp (by rw [hl]; exact List.mem_cons_self)
    have hle : m.nHeight p ≤ m.nHeight genesis := by
      have hg := mem_byHeight.mpr T.genesis_mem
      have hs := byHeight_pairwise m
      rw [hl] at hg hs
      rcases List.mem_cons.mp hg with rfl | hg
      · exact le_refl _
      · exact (List.pairwise_cons.mp hs).1 _ hg
    have := T.nHeight_genesis
    have := T.nHeight_nonneg p
    exact ⟨rest, by rw [T.genesis_of_height hp (by omega)]⟩

end

/-! ## Rewriting the entries in order -/

/-- Every entry of the list is replaced by what `f` makes of it in the index so far. -/
def rebuild (f : BlockMap → CBlockIndex → CBlockIndex) (l : List BlockPtr) (m : BlockMap) : BlockMap :=
  l.foldl (fun m p => m[p]?.elim m (fun b => m.insert p (f m b))) m

theorem sameBy_rebuild {α : Type*} {k : CBlockIndex → α} {f : BlockMap → CBlockIndex → CBlockIndex}
    (hf : ∀ cur b, k (f cur b) = k b) (l : List BlockPtr) (m : BlockMap) : SameBy k m (rebuild f l m) := by
  unfold rebuild
  refine List.foldlRecOn l _ (.refl k m) (fun cur hc p _ => ?_)
  cases hb : cur[p]? with
  | none => exact hc
  | some b => exact hc.trans (.insert hb (hf cur b))

section
variable {f : BlockMap → CBlockIndex → CBlockIndex} (hf : ∀ cur b, (f cur b).links = b.links)
include hf

/-- The state between two entries: `t` holds the entries rewritten so far, `cur` is the whole
index, and `rest` is still to come. -/
structure Midway (m t cur : BlockMap) (rest : List BlockPtr) : Prop where
  links : SameLinks m cur
  done : ∀ x ∈ t, cur[x]? = t[x]?
  todo : ∀ x, x ∉ t → cur[x]? = m[x]?
  cover : ∀ x ∈ m, x ∈ t ∨ x ∈ rest
  indexed : ∀ x ∈ rest, x ∈ m
  disjoint : ∀ x ∈ rest, x ∉ t
  nodup : rest.Nodup
  sorted : rest.Pairwise (fun a b => m.nHeight a ≤ m.nHeight b)

omit hf in
theorem Midway.eq_nil {m t cur : BlockMap} (h : Midway m t cur []) : cur = t := by
  apply Std.ExtTreeMap.ext_getElem?
  intro x
  by_cases hx : x ∈ t
  · exact h.done x hx
  · have hxm : x ∉ m := fun hm => (h.cover x hm).elim hx (fun h => nomatch h)
    rw [h.todo x hx, get_of_notMem hxm, get_of_notMem hx]

omit hf in
/-- The parent of the next entry is lower, so it has been rewritten. -/
theorem Midway.parent_done {m t cur : BlockMap} {genesis p q : BlockPtr} {b : CBlockIndex} {rest : List BlockPtr}
    (T : TreeShape m genesis) (h : Midway m t cur (p :: rest)) (hb : m[p]? = some b) (hq : b.pprev = some q) :
    q ∈ t := by
  obtain ⟨hqm, hqh⟩ := T.parent p b q hb hq
  have hph := nHeight_of_get hb
  rcases h.cover q hqm with hq | hq
  · exact hq
  · rcases List.mem_cons.mp hq with rfl | hq
    · omega
    · have := (List.pairwise_cons.mp h.sorted).1 q hq
      omega

theorem Midway.next {m t cur : BlockMap} {p : BlockPtr} {b : CBlockIndex} {rest : List BlockPtr}
    (h : Midway m t cur (p :: rest)) (hb : cur[p]? = some b) :
    Midway m (t.insert p (f cur b)) (cur.insert p (f cur b)) rest where
  links := h.links.trans (.insert hb (hf cur b))
  done x hx := by
    by_cases hxp : p = x
    · subst hxp
      rw [Std.ExtTreeMap.getElem?_insert_self, Std.ExtTreeMap.getElem?_insert_self]
    · rw [getElem?_insert_ne _ _ hxp, getElem?_insert_ne _ _ hxp]
      exact h.done x ((mem_insert.mp hx).resolve_left (fun e => hxp e.symm))
  todo x hx := by
    rw [mem_insert, not_or] at hx
    rw [getElem?_insert_ne _ _ (fun e => hx.1 e.symm), h.todo x hx.2]
  cover x hx := by
    rw [mem_insert]
    rcases h.cover x hx with hx | hx
    · exact .inl (.inr hx)
    · rcases List.mem_cons.mp hx with rfl | hx
      · exact .inl (.inl rfl)
      · exact .inr hx
  indexed x hx := h.indexed x (List.mem_cons_of_mem _ hx)
  disjoint x hx hxt := by
    rcases mem_insert.mp hxt with rfl | hxt
    · exact (List.nodup_cons.mp h.nodup).1 hx
    · exact h.disjoint x (List.mem_cons_of_mem _ hx) hxt
  nodup := (List.nodup_cons.mp h.nodup).2
  sorted := (List.pairwise_cons.mp h.sorted).2

/-- What holds of genesis alone and is kept when a child joins its parent holds in the end. -/
theorem rebuild_induct {m : BlockMap} {genesis : BlockPtr} (T : TreeShape m genesis) {I : BlockMap → Prop}
    (base : ∀ b, m[genesis]? = some b → I ((∅ : BlockMap).insert genesis (f m b)))
    (step : ∀ (t cur : BlockMap) (p q : BlockPtr) (b : CBlockIndex), I t → (∀ x ∈ t, cur[x]? = t[x]?) → SameLinks m cur →
      p ∉ t → q ∈ t → m[p]? = some b → b.pprev = some q → I (t.insert p (f cur b))) :
    I (rebuild f m.byHeight m) := by
  have main : ∀ (rest : List BlockPtr) (t cur : BlockMap), I t → genesis ∈ t → Midway m t cur rest →
      I (rebuild f rest cur) := by
    intro rest
    induction rest with
    | nil =>
      intro t cur ht _ h
      rw [show rebuild f [] cur = cur from rfl, h.eq_nil]
      exact ht
    | cons p rest ih =>
      intro t cur ht hgt h
      have hpt := h.disjoint p List.mem_cons_self
      obtain ⟨b, hb⟩ := mem_iff.mp (h.indexed p List.mem_cons_self)
      have hcb : cur[p]? = some b := by rw [h.todo p hpt, hb]
      obtain ⟨q, hq⟩ : ∃ q, b.pprev = some q := by
        cases hq : b.pprev with
        | none => exact absurd ((T.root p b hb hq).1 ▸ hgt) hpt
        | some q => exact ⟨q, rfl⟩
      rw [show rebuild f (p :: rest) cur = rebuild f rest (cur.insert p (f cur b)) by unfold rebuild; simp [hcb]]
      exact ih (t.insert p (f cur b)) (cur.insert p (f cur b))
        (step t cur p q b ht h.done h.links hpt (h.parent_done T hb hq) hb hq)
        (mem_insert.mpr (.inr hgt)) (h.next hf hcb)
  obtain ⟨rest, hl⟩ := T.byHeight_cons
  obtain ⟨g, hg⟩ := mem_iff.mp T.genesis_mem
  have hstart : Midway m ∅ m m.byHeight :=
    { links := .refl _ m
      done := fun x hx => absurd hx Std.ExtTreeMap.not_mem_empty
      todo := fun _ _ => rfl
      cover := fun x hx => .inr (mem_byHeight.mpr hx)
      indexed := fun x hx => mem_byHeight.mp hx
      disjoint := fun x _ => Std.ExtTreeMap.not_mem_empty
      nodup := byHeight_nodup m
      sorted := byHeight_pairwise m }
  rw [hl] at hstart ⊢
  rw [show rebuild f (genesis :: rest) m = rebuild f rest (m.insert genesis (f m g)) by unfold rebuild; simp [hg]]
  exact main rest _ _ (base g hg) (mem_insert.mpr (.inl rfl)) (hstart.next hf hg)

/-- Every entry is what `f` makes of the old one in some stage of the index. -/
theorem rebuild_get {m : BlockMap} {genesis : BlockPtr} (T : TreeShape m genesis) {p : BlockPtr}
    {b' : CBlockIndex} (h : (rebuild f m.byHeight m)[p]? = some b') :
    ∃ cur b, SameLinks m cur ∧ m[p]? = some b ∧ b' = f cur b := by
  refine rebuild_induct hf T (I := fun t => ∀ p b', t[p]? = some b' →
    ∃ cur b, SameLinks m cur ∧ m[p]? = some b ∧ b' = f cur b) ?_ ?_ p b' h
  · intro b hb p b' h
    rcases get_insert h with ⟨rfl, rfl⟩ | ⟨-, h⟩
    · exact ⟨m, b, .refl _ m, hb, rfl⟩
    · simp at h
  · intro t cur p q b ht _ hlinks _ _ hb _ x b' h
    rcases get_insert h with ⟨rfl, rfl⟩ | ⟨-, h⟩
    · exact ⟨cur, b, hlinks, hb, rfl⟩
    · exact ht x b' h

end

/-! ## Time maximum and skip pointer -/

section
variable {m t cur : BlockMap} {genesis p q : BlockPtr} {b : CBlockIndex}

@[simp] theorem links_buildSkip (m : BlockMap) (b : CBlockIndex) : (m.buildSkip b).links = b.links := by
  unfold buildSkip
  split <;> rfl

@[simp] theorem links_setTimeMax (m : BlockMap) (b : CBlockIndex) : (setTimeMax m b).links = b.links := by
  unfold setTimeMax
  split <;> rfl

theorem nHeight_of_same (hc : ∀ x ∈ t, cur[x]? = t[x]?) (hlinks : SameLinks m cur) (hq : q ∈ t) :
    t.nHeight q = m.nHeight q := by
  rw [← hlinks.nHeight_eq]
  unfold nHeight
  rw [hc q hq]

/-- What a rewritten entry below a finished parent looks like. -/
theorem relink_spec (T : TreeShape m genesis) (Tt : TreeShape t genesis) (hc : ∀ x ∈ t, cur[x]? = t[x]?)
    (hlinks : SameLinks m cur) (hq : q ∈ t) (hb : m[p]? = some b) (hp : b.pprev = some q) :
    (cur.buildSkip (setTimeMax cur b)).nTimeMax = max (t.nTimeMax q) b.getBlockTime ∧
      ∃ r, (cur.buildSkip (setTimeMax cur b)).pskip = some r ∧ Anc t.pprev r q ∧
        t.nHeight r = getSkipHeight b.nHeight := by
  have hh := (T.parent p b q hb hp).2
  have hn := Tt.nHeight_nonneg q
  rw [← nHeight_of_same hc hlinks hq] at hh
  have hbound := getSkipHeight_bounds (h := b.nHeight) (by omega)
  obtain ⟨r, hr, hanc, hrh⟩ := Tt.getAncestor_spec hq hbound.1 (by omega)
  rw [← getAncestor_congr Tt hc hq] at hr
  have htime : cur.nTimeMax q = t.nTimeMax q := by unfold nTimeMax; rw [hc q hq]
  have hskip : cur.buildSkip (setTimeMax cur b) =
      { b with nTimeMax := max (t.nTimeMax q) b.getBlockTime, pskip := some r } := by
    unfold setTimeMax
    simp only [hp]
    unfold buildSkip
    simp only [hr, htime]
  rw [hskip]
  exact ⟨rfl, r, rfl, hanc, hrh⟩

theorem relink_genesis (hp : b.pprev = none) :
    cur.buildSkip (setTimeMax cur b) = { b with nTimeMax := b.getBlockTime } := by
  unfold setTimeMax
  simp only [hp]
  unfold buildSkip
  simp only

theorem TreeShape.genesis_pskip (T : TreeShape m genesis) (hb : m[genesis]? = some b) :
    ∀ r, b.pskip = some r → r = genesis := fun r hr =>
  (anc_root T.genesis_root).mp (T.skip genesis b r hb hr).1

theorem TreeShape.genesis_entry (T : TreeShape m genesis) (hb : m[genesis]? = some b) :
    b.pprev = none ∧ b.nHeight = 0 := by
  have hp : b.pprev = none := by rw [← pprev_of_get hb]; exact T.genesis_root
  exact ⟨hp, (T.root genesis b hb hp).2⟩

/-- A pass that sets the skip pointers, and leaves the links alone, keeps the shape. -/
theorem TreeShape.rebuild {f : BlockMap → CBlockIndex → CBlockIndex} (hf : ∀ cur b, (f cur b).links = b.links)
    (hskip : ∀ cur b, (f cur b).pskip = (cur.buildSkip (setTimeMax cur b)).pskip) (T : TreeShape m genesis) :
    TreeShape (BlockMap.rebuild f m.byHeight m) genesis := by
  refine rebuild_induct hf T (I := fun t => TreeShape t genesis) ?_ ?_
  · intro b hb
    obtain ⟨hp, hh⟩ := T.genesis_entry hb
    refine TreeShape.single ?_ ?_ (fun r hr => ?_)
    · rw [← hp]; exact CBlockIndex.of_links (hf m b) CBlockIndex.pprev
    · rw [← hh]; exact CBlockIndex.of_links (hf m b) CBlockIndex.nHeight
    · rw [hskip, relink_genesis hp] at hr
      exact T.genesis_pskip hb r hr
  · intro t cur p q b Tt hc hlinks hpt hqt hb hp
    obtain ⟨-, r, hr, hanc, hrh⟩ := relink_spec T Tt hc hlinks hqt hb hp
    have hh : (f cur b).nHeight = b.nHeight := CBlockIndex.of_links (hf cur b) CBlockIndex.nHeight
    refine Tt.insert hpt hqt ((CBlockIndex.of_links (hf cur b) CBlockIndex.pprev).trans hp) ?_ (fun r' hr' => ?_)
    · rw [hh, (T.parent p b q hb hp).2, nHeight_of_same hc hlinks hqt]
    · rw [hskip, hr] at hr'
      cases hr'
      exact ⟨hanc, by rw [hh]; exact hrh⟩

/-- A pass that also computes work and time maximum leaves a tree of headers. -/
theorem TreeShape.rebuild_headerTree {getHash : CBlockHeader → Uint256} {f : BlockMap → CBlockIndex → CBlockIndex}
    (hf : ∀ cur b, (f cur b).links = b.links) (hskip : ∀ cur b, (f cur b).pskip = (cur.buildSkip (setTimeMax cur b)).pskip)
    (hwork : ∀ cur b, (f cur b).nChainWork = b.pprev.elim 0 cur.nChainWork + getBlockProof b.nBits)
    (htime : ∀ cur b, (f cur b).nTimeMax = (cur.buildSkip (setTimeMax cur b)).nTimeMax) (T : TreeShape m genesis)
    (hhash : ∀ (p : BlockPtr) (b : CBlockIndex), m[p]? = some b → getHash b.getBlockHeader = p)
    (h0 : ∀ (p : BlockPtr) (b : CBlockIndex), m[p]? = some b → b.pprev ≠ some 0) :
    HeaderTree getHash (BlockMap.rebuild f m.byHeight m) genesis := by
  have hheader : ∀ cur b, (f cur b).getBlockHeader = b.getBlockHeader := fun cur b =>
    CBlockIndex.of_links (hf cur b) CBlockIndex.getBlockHeader
  have hbits : ∀ cur b, (f cur b).nBits = b.nBits := fun cur b => CBlockIndex.of_links (hf cur b) CBlockIndex.nBits
  have htime' : ∀ cur b, (f cur b).getBlockTime = b.getBlockTime := fun cur b =>
    CBlockIndex.of_links (hf cur b) CBlockIndex.getBlockTime
  refine rebuild_induct hf T (I := fun t => HeaderTree getHash t genesis) ?_ ?_
  · intro b hb
    obtain ⟨hp, hh⟩ := T.genesis_entry hb
    refine HeaderTree.single ?_ ?_ (fun r hr => ?_) ?_ ?_ ?_
    · rw [← hp]; exact CBlockIndex.of_links (hf m b) CBlockIndex.pprev
    · rw [← hh]; exact CBlockIndex.of_links (hf m b) CBlockIndex.nHeight
    · rw [hskip, relink_genesis hp] at hr
      exact T.genesis_pskip hb r hr
    · rw [hheader, hhash genesis b hb]
    · rw [hwork, hbits, hp]; simp
    · rw [htime, relink_genesis hp, htime']
  · intro t cur p q b Tt hc hlinks hpt hqt hb hp
    obtain ⟨ht, r, hr, hanc, hrh⟩ := relink_spec T Tt.toTreeShape hc hlinks hqt hb hp
    have hh : (f cur b).nHeight = b.nHeight := CBlockIndex.of_links (hf cur b) CBlockIndex.nHeight
    have hw : cur.nChainWork q = t.nChainWork q := by unfold nChainWork; rw [hc q hqt]
    refine Tt.insert hpt hqt (fun e => h0 p b hb (e ▸ hp))
      ((CBlockIndex.of_links (hf cur b) CBlockIndex.pprev).trans hp) ?_ ?_ ?_ ?_
      ⟨r, by rw [hskip, hr], hanc, by rw [hh]; exact hrh⟩
    · rw [hh, (T.parent p b q hb hp).2, nHeight_of_same hc hlinks hqt]
    · rw [hheader, hhash p b hb]
    · rw [hwork, hbits, hp, Option.elim_some, hw]
    · rw [htime, ht, htime']

end

/-! ## The third pass -/

theorem heightFits_congr {m m' : BlockMap} (h : SameLinks m m') (b : CBlockIndex) :
    heightFits m' b = heightFits m b := by
  unfold heightFits
  rw [h.nHeight_eq]

def relink (m : BlockMap) (b : CBlockIndex) : CBlockIndex := m.buildSkip (setTimeMax m b)

theorem links_relink (m : BlockMap) (b : CBlockIndex) : (relink m b).links = b.links := by simp [relink]

theorem heightFits_links (m : BlockMap) {b b' : CBlockIndex} (h : b'.links = b.links) :
    heightFits m b' = heightFits m b := by
  unfold heightFits
  rw [CBlockIndex.of_links h CBlockIndex.pprev, CBlockIndex.of_links h CBlockIndex.nHeight]

/-- The third pass succeeds when every height fits, and has then rewritten every entry. -/
theorem thirdPass_true {m' : BlockMap} : ∀ (l : List BlockPtr) (m : BlockMap),
    thirdPass l m = (m', true) ↔
      m' = rebuild relink l m ∧ ∀ p ∈ l, ∀ b, m[p]? = some b → heightFits m b = true := by
  intro l
  induction l with
  | nil =>
    intro m
    constructor
    · intro h
      exact ⟨(congrArg Prod.fst h).symm, fun p hp => nomatch hp⟩
    · rintro ⟨h, -⟩
      rw [h]
      rfl
  | cons p l ih =>
    intro m
    unfold thirdPass
    cases hb : m[p]? with
    | none =>
      rw [show rebuild relink (p :: l) m = rebuild relink l m by unfold rebuild; simp [hb]]
      simp only [ih, List.mem_cons, forall_eq_or_imp, hb]
      simp
    | some b =>
      simp only []
      have hlinks : SameLinks m (m.insert p (relink m b)) := .insert hb (links_relink m b)
      rw [show rebuild relink (p :: l) m = rebuild relink l (m.insert p (relink m b)) by
        unfold rebuild; simp [hb]]
      have hfits : (∀ x ∈ l, ∀ y, (m.insert p (relink m b))[x]? = some y → heightFits (m.insert p (relink m b)) y) ↔
          ∀ x ∈ l, ∀ y, m[x]? = some y → heightFits m y = true := by
        constructor
        · intro h x hx y hy
          obtain ⟨y', hy', he⟩ := hlinks.symm.get hy
          rw [heightFits_links m he, ← heightFits_congr hlinks]
          exact h x hx y' hy'
        · intro h x hx y hy
          obtain ⟨y', hy', he⟩ := hlinks.get hy
          rw [heightFits_congr hlinks, heightFits_links m he]
          exact h x hx y' hy'
      by_cases hf : heightFits m b = true
      · rw [hf]
        simp only [Bool.not_true, Bool.false_eq_true, if_false, List.mem_cons, forall_eq_or_imp, hb, Option.some.injEq,
          forall_eq', hf, true_and]
        rw [← hfits]
        exact ih (m.insert p (relink m b))
      · simp only [Bool.not_eq_true] at hf
        simp [hf, hb]

end BlockMap

end UnicityPow
