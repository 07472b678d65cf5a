import Mathlib.Tactic

/-!
# A map and the list of its keys

A list kept beside a map, so that an entry can be drawn by a position: what it has to hold, and
how it follows the changes of the map. How many entries there are is told by the keys; what holds of
every entry follows the changes as well.
-/

namespace KeyList

variable {K V : Type*} {cmp : K → K → Ordering} [Std.TransCmp cmp] [Std.LawfulEqCmp cmp]

/-- The list has the keys of the map and no others. -/
def Covers (keys : List K) (m : Std.ExtTreeMap K V cmp) : Prop := ∀ k, k ∈ keys ↔ k ∈ m

/-- It has each of them once. -/
structure Lists (keys : List K) (m : Std.ExtTreeMap K V cmp) : Prop where
  covers : Covers keys m
  nodup : keys.Nodup

section
variable {keys : List K} {m m' : Std.ExtTreeMap K V cmp} {k : K}

omit [Std.LawfulEqCmp cmp] in
theorem Covers.congr (h : Covers keys m) (hm : ∀ k, k ∈ m' ↔ k ∈ m) : Covers keys m' :=
  fun k => (h k).trans (hm k).symm

omit [Std.LawfulEqCmp cmp] in
theorem Lists.congr (h : Lists keys m) (hm : ∀ k, k ∈ m' ↔ k ∈ m) : Lists keys m' := ⟨h.covers.congr hm, h.nodup⟩

theorem covers_keys (m : Std.ExtTreeMap K V cmp) : Covers m.keys m := fun _ => Std.ExtTreeMap.mem_keys

theorem lists_keys (m : Std.ExtTreeMap K V cmp) : Lists m.keys m := ⟨covers_keys m, Std.ExtTreeMap.nodup_keys⟩

omit [Std.LawfulEqCmp cmp] in
theorem Covers.entry (h : Covers keys m) {i : Nat} (hi : keys[i]? = some k) : ∃ v, m[k]? = some v := by
  have hk := (h k).mp (List.mem_of_getElem? hi)
  rw [Std.ExtTreeMap.mem_iff_isSome_getElem?] at hk
  exact Option.isSome_iff_exists.mp hk

theorem mem_insert_iff {k' : K} (v : V) : k' ∈ m.insert k v ↔ k' = k ∨ k' ∈ m := by
  rw [Std.ExtTreeMap.mem_insert, Std.LawfulEqCmp.compare_eq_iff_eq, eq_comm]

theorem mem_erase_iff {k' : K} : k' ∈ m.erase k ↔ k' ≠ k ∧ k' ∈ m := by
  rw [Std.ExtTreeMap.mem_erase, ne_eq, Std.LawfulEqCmp.compare_eq_iff_eq, eq_comm]

theorem Covers.insert (h : Covers keys m) (k : K) (v : V) : Covers (keys ++ [k]) (m.insert k v) := by
  intro k'
  rw [List.mem_append, List.mem_singleton, mem_insert_iff, h k', or_comm]

theorem Lists.insert (h : Lists keys m) (hk : k ∉ m) (v : V) : Lists (keys ++ [k]) (m.insert k v) := by
  refine ⟨h.covers.insert k v, List.nodup_append.mpr ⟨h.nodup, List.nodup_singleton k, fun a ha b hb => ?_⟩⟩
  rw [List.mem_singleton.mp hb]
  rintro rfl
  exact hk ((h.covers a).mp ha)

variable [DecidableEq K]

theorem Covers.erase (h : Covers keys m) (k : K) : Covers (keys.filter (· ≠ k)) (m.erase k) := by
  intro k'
  rw [List.mem_filter, decide_eq_true_eq, mem_erase_iff, h k', and_comm]

theorem Lists.erase (h : Lists keys m) (k : K) : Lists (keys.filter (· ≠ k)) (m.erase k) :=
  ⟨h.covers.erase k, h.nodup.filter _⟩

end

/-! ## How many keys there are -/

section
variable {m m' : Std.ExtTreeMap K V cmp} {l : List K}

theorem size_le_of_keys (h : ∀ k, k ∈ m' → k ∈ m ∨ k ∈ l) : m'.size ≤ m.size + l.length := by
  have hsub : m'.keys ⊆ m.keys ++ l := by
    intro k hk
    rw [List.mem_append]
    exact (h k (Std.ExtTreeMap.mem_keys.mp hk)).imp_left Std.ExtTreeMap.mem_keys.mpr
  have hle := (Std.ExtTreeMap.nodup_keys.subperm hsub).length_le
  rwa [List.length_append, Std.ExtTreeMap.length_keys, Std.ExtTreeMap.length_keys] at hle

theorem size_eq_of_keys (hnodup : l.Nodup) (hout : ∀ k ∈ l, k ∉ m) (h : ∀ k, k ∈ m' ↔ k ∈ m ∨ k ∈ l) :
    m'.size = m.size + l.length := by
  refine (size_le_of_keys fun k => (h k).mp).antisymm ?_
  have hboth : (m.keys ++ l).Nodup := by
    refine List.nodup_append.mpr ⟨Std.ExtTreeMap.nodup_keys, hnodup, ?_⟩
    rintro k hk k' hk' rfl
    exact hout k hk' (Std.ExtTreeMap.mem_keys.mp hk)
  have hsub : m.keys ++ l ⊆ m'.keys := by
    intro k hk
    rw [List.mem_append] at hk
    exact Std.ExtTreeMap.mem_keys.mpr ((h k).mpr (hk.imp_left Std.ExtTreeMap.mem_keys.mp))
  have hle := (hboth.subperm hsub).length_le
  rwa [List.length_append, Std.ExtTreeMap.length_keys, Std.ExtTreeMap.length_keys] at hle

end

/-! ## What holds of every entry -/

def Every (P : K → V → Prop) (m : Std.ExtTreeMap K V cmp) : Prop := ∀ (k : K) (v : V), m[k]? = some v → P k v

section
variable {P Q : K → V → Prop} {m m' : Std.ExtTreeMap K V cmp} {k : K} {v : V}

omit [Std.LawfulEqCmp cmp] in
theorem every_empty (P : K → V → Prop) : Every P (∅ : Std.ExtTreeMap K V cmp) := fun k v h => by simp at h

omit [Std.LawfulEqCmp cmp] in
theorem Every.mono (h : Every P m) (hPQ : ∀ k v, P k v → Q k v) : Every Q m := fun k v hk => hPQ k v (h k v hk)

omit [Std.LawfulEqCmp cmp] in
theorem Every.of_sub (h : Every P m) (hsub : ∀ (k : K) (v : V), m'[k]? = some v → m[k]? = some v) : Every P m' :=
  fun k v hk => h k v (hsub k v hk)

theorem Every.insert (h : Every P m) (hk : P k v) : Every P (m.insert k v) := by
  intro k' v' h'
  rw [Std.ExtTreeMap.getElem?_insert] at h'
  split at h'
  · rename_i heq
    cases h'
    rw [← Std.LawfulEqCmp.eq_of_compare heq]
    exact hk
  · exact h k' v' h'

omit [Std.LawfulEqCmp cmp] in
theorem Every.erase (h : Every P m) (k : K) : Every P (m.erase k) := by
  refine h.of_sub fun k' v' h' => ?_
  rw [Std.ExtTreeMap.getElem?_erase] at h'
  split at h'
  · cases h'
  · exact h'

theorem Every.modify (h : Every P m) (k : K) {f : V → V} (hf : ∀ k v, P k v → P k (f v)) : Every P (m.modify k f) := by
  intro k' v' h'
  rw [Std.ExtTreeMap.getElem?_modify] at h'
  split at h'
  · obtain ⟨v, hv, rfl⟩ := Option.map_eq_some_iff.mp h'
    rename_i heq
    rw [Std.LawfulEqCmp.eq_of_compare heq] at hv
    exact hf k' v (h k' v hv)
  · exact h k' v' h'

end

end KeyList
