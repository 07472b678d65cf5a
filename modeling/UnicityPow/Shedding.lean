import UnicityPow.Tally

/-!
# Making room in a map

What it means that a map has shed so many of its entries, those of least rank, and two ways to do
it: erasing the first entries of a list sorted by rank, and erasing one entry that none is below.
-/

namespace Shedding

open List

variable {K V τ : Type*} [LinearOrder τ] {cmp : K → K → Ordering} [Std.TransCmp cmp] [Std.LawfulEqCmp cmp]

/-- `m'` is `m` without `n` of its entries, and none of these is above one that is left. -/
structure Sheds (rank : V → τ) (n : Nat) (m m' : Std.ExtTreeMap K V cmp) : Prop where
  size : m'.size + n = m.size
  kept : ∀ (k : K) (v : V), m'[k]? = some v → m[k]? = some v
  later : ∀ (k : K) (v : V) (k' : K) (v' : V), m'[k]? = some v → m[k']? = some v' → k' ∉ m' → rank v' ≤ rank v

section
variable {m : Std.ExtTreeMap K V cmp} {l : List (K × V)} {k : K} {v : V}

omit [Std.LawfulEqCmp cmp] in
theorem sheds_refl (rank : V → τ) (m : Std.ExtTreeMap K V cmp) : Sheds rank 0 m m :=
  ⟨rfl, fun _ _ h => h, fun _ _ k' v' _ h hout => absurd (Std.ExtTreeMap.mem_iff_isSome_getElem?.mpr (by rw [h]; rfl)) hout⟩

/-! ## Erasing a list of entries -/

def eraseAll (l : List (K × V)) (m : Std.ExtTreeMap K V cmp) : Std.ExtTreeMap K V cmp :=
  l.foldl (fun m kv => m.erase kv.1) m

theorem getElem?_eraseAll : ∀ {l : List (K × V)} {m : Std.ExtTreeMap K V cmp},
    (eraseAll l m)[k]? = some v ↔ m[k]? = some v ∧ k ∉ l.map Prod.fst
  | [], m => by simp [eraseAll]
  | kv :: l, m => by
    have hstep : eraseAll (kv :: l) m = eraseAll l (m.erase kv.1) := rfl
    rw [hstep, getElem?_eraseAll, Std.ExtTreeMap.getElem?_erase, map_cons, mem_cons, not_or]
    by_cases hk : kv.1 = k
    · simp [hk]
    · have hne : cmp kv.1 k ≠ .eq := fun h => hk (Std.LawfulEqCmp.eq_of_compare h)
      rw [if_neg hne, and_iff_right (Ne.symm hk)]

theorem size_eraseAll : ∀ {l : List (K × V)} {m : Std.ExtTreeMap K V cmp}, (l.map Prod.fst).Nodup →
    (∀ kv ∈ l, m[kv.1]? = some kv.2) → (eraseAll l m).size + l.length = m.size
  | [], m, _, _ => rfl
  | kv :: l, m, hnodup, hin => by
    obtain ⟨hout, hnodup⟩ := nodup_cons.mp hnodup
    have hrest : ∀ a ∈ l, (m.erase kv.1)[a.1]? = some a.2 := by
      intro a ha
      have hne : cmp kv.1 a.1 ≠ .eq := fun h =>
        hout (Std.LawfulEqCmp.eq_of_compare h ▸ mem_map_of_mem ha)
      rw [Std.ExtTreeMap.getElem?_erase, if_neg hne]
      exact hin a (mem_cons_of_mem kv ha)
    have hstep : eraseAll (kv :: l) m = eraseAll l (m.erase kv.1) := rfl
    have hsize := size_eraseAll hnodup hrest
    have herase := Tally.size_erase (hin kv mem_cons_self)
    rw [hstep, length_cons]
    omega

omit [Std.LawfulEqCmp cmp] in
theorem nodup_map_fst (hperm : l.Perm m.toList) : (l.map Prod.fst).Nodup := by
  rw [(hperm.map Prod.fst).nodup_iff, Std.ExtTreeMap.map_fst_toList_eq_keys]
  exact Std.ExtTreeMap.nodup_keys

theorem mem_of_perm (hperm : l.Perm m.toList) {kv : K × V} : kv ∈ l ↔ m[kv.1]? = some kv.2 := by
  rw [hperm.mem_iff]
  exact Std.ExtTreeMap.mem_toList_iff_getElem?_eq_some

/-- The entries in the order of their ranks, however entries of one rank stand. -/
theorem sheds_take {rank : V → τ} (hperm : l.Perm m.toList) (hsorted : l.Pairwise (fun a b => rank a.2 ≤ rank b.2))
    {n : Nat} (hn : n ≤ m.size) : Sheds rank n m (eraseAll (l.take n) m) where
  size := by
    have hsize := size_eraseAll ((nodup_map_fst hperm).sublist ((take_sublist n l).map Prod.fst))
      (fun kv hkv => (mem_of_perm hperm).mp (mem_of_mem_take hkv))
    rwa [length_take, hperm.length_eq, Std.ExtTreeMap.length_toList, min_eq_left hn] at hsize
  kept k v hk := (getElem?_eraseAll.mp hk).1
  later k v k' v' hk hk' hout := by
    obtain ⟨hget, hkeep⟩ := getElem?_eraseAll.mp hk
    have hleft : (k', v') ∈ l.take n := by
      by_contra hleft
      refine hout (Std.ExtTreeMap.mem_iff_isSome_getElem?.mpr ?_)
      rw [getElem?_eraseAll.mpr ⟨hk', fun hmem => ?_⟩]
      · rfl
      · -- the key stands once in the map
        obtain ⟨a, ha, rfl⟩ := mem_map.mp hmem
        have hget' := (mem_of_perm hperm).mp (mem_of_mem_take ha)
        rw [hget'] at hk'
        exact hleft (Option.some.inj hk' ▸ ha)
    have hright : (k, v) ∈ l.drop n := by
      have hmem : (k, v) ∈ l := (mem_of_perm hperm).mpr hget
      rw [← take_append_drop n l, mem_append] at hmem
      exact hmem.resolve_left fun h => hkeep (mem_map_of_mem (f := Prod.fst) h)
    rw [← take_append_drop n l, pairwise_append] at hsorted
    exact hsorted.2.2 _ hleft _ hright

/-! ## Erasing one entry -/

theorem sheds_erase {rank : V → τ} (hk : m[k]? = some v)
    (hleast : ∀ (k' : K) (v' : V), m[k']? = some v' → rank v ≤ rank v') : Sheds rank 1 m (m.erase k) where
  size := Tally.size_erase hk
  kept k' v' h := by
    rw [Std.ExtTreeMap.getElem?_erase] at h
    split at h
    · cases h
    · exact h
  later k₁ v₁ k₂ v₂ h₁ h₂ hout := by
    have heq : k = k₂ := by
      by_contra hne
      refine hout (Std.ExtTreeMap.mem_erase.mpr ⟨fun h => hne (Std.LawfulEqCmp.eq_of_compare h), ?_⟩)
      exact Std.ExtTreeMap.mem_iff_isSome_getElem?.mpr (by rw [h₂]; rfl)
    rw [heq, h₂] at hk
    cases hk
    rw [Std.ExtTreeMap.getElem?_erase] at h₁
    split at h₁
    · cases h₁
    · exact hleast k₁ v₁ h₁

end

end Shedding
