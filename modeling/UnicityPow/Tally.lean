import Mathlib.Tactic

/-!
# Counting the entries of a map by class

The entries of a map whose values fall in one class, and how insertion and removal of one
entry change their number.
-/

namespace Tally

variable {K V G : Type*} {cmp : K → K → Ordering} [Std.TransCmp cmp] [Std.LawfulEqCmp cmp]

/-- The number of entries of class `g`. -/
def count [DecidableEq G] (cls : V → G) (m : Std.ExtTreeMap K V cmp) (g : G) : Nat :=
  (m.filter (fun _ v => decide (cls v = g))).size

section
variable (f : K → V → Bool) {m : Std.ExtTreeMap K V cmp} {k : K} {v : V}

theorem getElem?_filter (m : Std.ExtTreeMap K V cmp) (k : K) :
    (m.filter f)[k]? = m[k]?.filter (f k) := Std.ExtTreeMap.getElem?_filter'

theorem filter_erase (m : Std.ExtTreeMap K V cmp) (k : K) : (m.erase k).filter f = (m.filter f).erase k := by
  refine Std.ExtTreeMap.ext_getElem? fun a => ?_
  rw [getElem?_filter, Std.ExtTreeMap.getElem?_erase, Std.ExtTreeMap.getElem?_erase, getElem?_filter]
  split <;> rfl

theorem filter_insert (hk : k ∉ m) (v : V) :
    (m.insert k v).filter f = if f k v then (m.filter f).insert k v else m.filter f := by
  refine Std.ExtTreeMap.ext_getElem? fun a => ?_
  rw [getElem?_filter, Std.ExtTreeMap.getElem?_insert]
  by_cases ha : cmp k a = .eq
  · have : k = a := Std.LawfulEqCmp.eq_of_compare ha
    subst this
    rw [if_pos ha]
    by_cases hf : f k v = true
    · simp [hf]
    · have hnone : m[k]? = none := Std.ExtTreeMap.getElem?_eq_none hk
      simp [hf, hnone]
  · rw [if_neg ha]
    split
    · rw [Std.ExtTreeMap.getElem?_insert, if_neg ha, getElem?_filter]
    · rw [getElem?_filter]

theorem insert_erase (hk : m[k]? = some v) : (m.erase k).insert k v = m := by
  refine Std.ExtTreeMap.ext_getElem? fun a => ?_
  rw [Std.ExtTreeMap.getElem?_insert, Std.ExtTreeMap.getElem?_erase]
  by_cases ha : cmp k a = .eq
  · rw [if_pos ha, ← Std.LawfulEqCmp.eq_of_compare ha, hk]
  · rw [if_neg ha, if_neg ha]

theorem size_erase (hk : m[k]? = some v) : (m.erase k).size + 1 = m.size := by
  have hsize := Std.ExtTreeMap.size_insert (t := m.erase k) (k := k) (v := v)
  rw [insert_erase hk, if_neg (by simp)] at hsize
  exact hsize.symm

theorem size_filter_le {m' : Std.ExtTreeMap K V cmp} (h : ∀ (a : K) (w : V), m'[a]? = some w → m[a]? = some w) :
    (m'.filter f).size ≤ (m.filter f).size := by
  have hsub : (m'.filter f).keys ⊆ (m.filter f).keys := by
    intro a ha
    rw [Std.ExtTreeMap.mem_keys, Std.ExtTreeMap.mem_iff_isSome_getElem?, getElem?_filter] at ha ⊢
    obtain ⟨w, hw⟩ := Option.isSome_iff_exists.mp ha
    obtain ⟨hw, hf⟩ := Option.filter_eq_some_iff.mp hw
    rw [h a w hw]
    exact Option.isSome_iff_exists.mpr ⟨w, Option.filter_eq_some_iff.mpr ⟨rfl, hf⟩⟩
  have hle := (List.Nodup.subperm Std.ExtTreeMap.nodup_keys hsub).length_le
  rwa [Std.ExtTreeMap.length_keys, Std.ExtTreeMap.length_keys] at hle

theorem size_filter_le_one (h : ∀ (a b : K) (w u : V), m[a]? = some w → m[b]? = some u →
    f a w = true → f b u = true → a = b) : (m.filter f).size ≤ 1 := by
  have hkey : ∀ a ∈ (m.filter f).keys, ∃ w, m[a]? = some w ∧ f a w = true := by
    intro a ha
    rw [Std.ExtTreeMap.mem_keys, Std.ExtTreeMap.mem_iff_isSome_getElem?, getElem?_filter] at ha
    obtain ⟨w, hw⟩ := Option.isSome_iff_exists.mp ha
    exact ⟨w, Option.filter_eq_some_iff.mp hw⟩
  have hsame : ∀ a ∈ (m.filter f).keys, ∀ b ∈ (m.filter f).keys, a = b := by
    intro a ha b hb
    obtain ⟨w, hw, hfw⟩ := hkey a ha
    obtain ⟨u, hu, hfu⟩ := hkey b hb
    exact h a b w u hw hu hfw hfu
  have hnodup : (m.filter f).keys.Nodup := Std.ExtTreeMap.nodup_keys
  rw [← Std.ExtTreeMap.length_keys]
  generalize (m.filter f).keys = l at hsame hnodup
  match l with
  | [] => simp
  | [_] => simp
  | a :: b :: l =>
    have heq := hsame a (by simp) b (by simp)
    simp [heq] at hnodup

/-- An entry written over the map is one more that may pass. -/
theorem size_filter_insert_le (m : Std.ExtTreeMap K V cmp) (k : K) (v : V) :
    ((m.insert k v).filter f).size ≤ (m.filter f).size + if f k v then 1 else 0 := by
  have hover : m.insert k v = (m.erase k).insert k v := by
    refine Std.ExtTreeMap.ext_getElem? fun a => ?_
    rw [Std.ExtTreeMap.getElem?_insert, Std.ExtTreeMap.getElem?_insert, Std.ExtTreeMap.getElem?_erase]
    split <;> rfl
  have hle : ((m.erase k).filter f).size ≤ (m.filter f).size := by
    refine size_filter_le f fun a w hw => ?_
    rw [Std.ExtTreeMap.getElem?_erase] at hw
    split at hw
    · cases hw
    · exact hw
  rw [hover, filter_insert f (by simp)]
  by_cases hf : f k v = true
  · rw [if_pos hf, if_pos hf, Std.ExtTreeMap.size_insert]
    split <;> omega
  · rw [if_neg hf, if_neg hf]
    exact hle

end

section
variable [DecidableEq G] (cls : V → G) {m : Std.ExtTreeMap K V cmp} {k : K} {v : V}

@[simp] theorem count_empty (g : G) : count cls (∅ : Std.ExtTreeMap K V cmp) g = 0 := by
  unfold count
  have : (∅ : Std.ExtTreeMap K V cmp).filter (fun _ v => decide (cls v = g)) = ∅ :=
    Std.ExtTreeMap.ext_getElem? fun a => by rw [getElem?_filter]; simp
  rw [this]
  rfl

theorem count_insert (hk : k ∉ m) (v : V) (g : G) :
    count cls (m.insert k v) g = count cls m g + if cls v = g then 1 else 0 := by
  have hk' : k ∉ m.filter (fun _ v => decide (cls v = g)) := fun h => hk (Std.ExtTreeMap.mem_of_mem_filter h)
  unfold count
  rw [filter_insert _ hk]
  by_cases hv : cls v = g
  · rw [if_pos (decide_eq_true hv), if_pos hv, Std.ExtTreeMap.size_insert, if_neg (fun h => hk' (Std.ExtTreeMap.contains_iff_mem.mp h))]
  · simp only [hv, decide_false, Bool.false_eq_true, if_false, Nat.add_zero]

theorem count_erase (hk : m[k]? = some v) (g : G) :
    count cls m g = count cls (m.erase k) g + if cls v = g then 1 else 0 := by
  have hne : k ∉ m.erase k := by simp
  rw [← count_insert cls hne v g, insert_erase hk]

end

end Tally
