import UnicityPow.ForkSound
import UnicityPow.WireSound

/-!
# The shape of a locator

A locator lists ancestors at fixed distances from its block, one apart at first and then
doubling, until genesis. The distances are known in advance, so one induction along the loop
gives every entry, and the rest is arithmetic.
-/

namespace UnicityPow

open Forest BlockMap

/-! ## Distances -/

/-- How far entry `k` lies below the first: the step from it to the next is `2 ^ (k - 10)`. -/
def locatorDistance : Nat → Nat
  | 0 => 0
  | k + 1 => locatorDistance k + 2 ^ (k - 10)

theorem locatorDistance_succ (k : Nat) : locatorDistance (k + 1) = locatorDistance k + 2 ^ (k - 10) := rfl

theorem locatorDistance_lt_succ (k : Nat) : locatorDistance k < locatorDistance (k + 1) := by
  have := Nat.two_pow_pos (k - 10)
  rw [locatorDistance_succ]
  omega

theorem locatorDistance_strictMono : StrictMono locatorDistance := strictMono_nat_of_lt_succ locatorDistance_lt_succ

/-- The first distances are one apart. -/
theorem locatorDistance_small : ∀ k ≤ 11, locatorDistance k = k := by decide

/-- A step is at most one more than the distance already descended. -/
theorem step_le_locatorDistance (k : Nat) : 2 ^ (k - 10) ≤ locatorDistance k + 1 := by
  induction k with
  | zero => decide
  | succ k ih =>
    rw [locatorDistance_succ]
    by_cases hk : k < 10
    · rw [show k - 10 = 0 by omega, show k + 1 - 10 = 0 by omega]
      omega
    · rw [show k + 1 - 10 = (k - 10) + 1 by omega, Nat.pow_succ]
      omega

/-- Fewer than forty entries lie less than `2 ^ 30` below the first. -/
theorem lt_of_locatorDistance {k : Nat} (h : locatorDistance k < 2 ^ 30) : k < 40 := by
  by_contra hk
  have hmono := locatorDistance_strictMono.monotone (show 40 ≤ k by omega)
  have h40 : 2 ^ 30 ≤ locatorDistance 40 := by decide +kernel
  omega

/-- The step the loop holds when it has `k` hashes. -/
def locatorStep (k : Nat) : Int := 2 ^ (k - 10)

theorem locatorStep_cast (k : Nat) : locatorStep k = ((2 ^ (k - 10) : Nat) : Int) := by
  unfold locatorStep
  push_cast
  rfl

theorem locatorStep_succ (k : Nat) :
    (if 10 < k + 1 then locatorStep k * 2 else locatorStep k) = locatorStep (k + 1) := by
  unfold locatorStep
  split
  · rw [show k + 1 - 10 = (k - 10) + 1 by omega, pow_succ]
  · rw [show k - 10 = 0 by omega, show k + 1 - 10 = 0 by omega]

theorem locatorStep_pos (k : Nat) : 1 ≤ locatorStep k := by
  rw [locatorStep_cast]
  exact_mod_cast Nat.two_pow_pos (k - 10)

/-! ## The loop -/

/-- The values the loop assigns to `step`, before they are cut to an `int`. -/
def locatorSteps (m : BlockMap) : Nat → Option BlockPtr → Int → Nat → List Int
  | 0, _, _, _ => []
  | _ + 1, none, _, _ => []
  | fuel + 1, some p, step, size =>
    if m.nHeight p = 0 then []
    else
      let height := max (m.nHeight p - step) 0
      let next := if 10 < size + 1 then step * 2 else step
      next :: locatorSteps m fuel (m.getAncestor p height) (toInt32 next) (size + 1)

section
variable {m : BlockMap} {genesis : BlockPtr} {top : Nat}

/-- `l` lists what the loop adds when entry `k` comes next: ancestors at the distances, the
last at genesis. -/
structure LocatorFrom (m : BlockMap) (top k : Nat) (p : BlockPtr) (l : List BlockPtr) : Prop where
  pos : 0 < l.length
  entry : ∀ (i : Nat) (a : BlockPtr), l[i]? = some a → Anc m.pprev a p ∧ m.rank a = top - locatorDistance (k + i)
  inner : ∀ i, i + 1 < l.length → locatorDistance (k + i) < top
  last : top ≤ locatorDistance (k + (l.length - 1))

theorem LocatorFrom.single {k : Nat} {p : BlockPtr} (hp : m.rank p = top - locatorDistance k)
    (hlast : top ≤ locatorDistance k) : LocatorFrom m top k p [p] := by
  refine ⟨by simp, fun i a ha => ?_, fun i hi => by simp at hi, by simpa using hlast⟩
  obtain ⟨rfl, rfl⟩ : i = 0 ∧ a = p := by
    have hi := (List.getElem?_eq_some_iff.mp ha).1
    obtain rfl : i = 0 := by simpa using hi
    exact ⟨rfl, by simpa using ha.symm⟩
  exact ⟨.refl, by simpa using hp⟩

theorem LocatorFrom.cons {k : Nat} {p a : BlockPtr} {l : List BlockPtr} (h : LocatorFrom m top (k + 1) a l)
    (hanc : Anc m.pprev a p) (hp : m.rank p = top - locatorDistance k) (hlt : locatorDistance k < top) :
    LocatorFrom m top k p (p :: l) := by
  refine ⟨by simp, fun i b hb => ?_, fun i hi => ?_, ?_⟩
  · cases i with
    | zero => cases hb; exact ⟨.refl, by simpa using hp⟩
    | succ i =>
      obtain ⟨hb1, hb2⟩ := h.entry i b hb
      exact ⟨hb1.trans hanc, by rw [hb2, show k + 1 + i = k + (i + 1) by omega]⟩
  · cases i with
    | zero => simpa using hlt
    | succ i =>
      have := h.inner i (by simpa using hi)
      rwa [show k + 1 + i = k + (i + 1) by omega] at this
  · have hpos := h.pos
    have := h.last
    rwa [show k + 1 + (l.length - 1) = k + ((p :: l).length - 1) by simp; omega] at this

variable (T : TreeShape m genesis)
include T

/-- One round of the loop below height `2 ^ 30`: the step stays an `int`, and the block looked up
is the next entry. -/
theorem locatorWalk_round (htop : top < 2 ^ 30) {p : BlockPtr} {k : Nat} (hp : p ∈ m)
    (hrank : m.rank p = top - locatorDistance k) (h0 : m.nHeight p ≠ 0) :
    locatorDistance k < top ∧ locatorStep k < 2 ^ 30 ∧
      ∃ a ∈ m, m.getAncestor p (max (m.nHeight p - locatorStep k) 0) = some a ∧ Anc m.pprev a p ∧
        m.rank a = top - locatorDistance (k + 1) := by
  have hcast := T.rank_cast p
  have hstep := step_le_locatorDistance k
  have hpos := Nat.two_pow_pos (k - 10)
  have hdist := locatorDistance_succ k
  rw [locatorStep_cast]
  generalize hs : 2 ^ (k - 10) = s at hstep hpos hdist ⊢
  have hlt : locatorDistance k < top := by omega
  obtain ⟨a, ha, hanc, hh⟩ := T.getAncestor_spec hp (show 0 ≤ max (m.nHeight p - (s : Int)) 0 by omega) (by omega)
  have hacast := T.rank_cast a
  exact ⟨hlt, by omega, a, T.mem_anc hanc hp, ha, hanc, by omega⟩

theorem locatorWalk_spec (htop : top < 2 ^ 30) : ∀ (n : Nat) (p : BlockPtr) (k : Nat) (acc : List Uint256), p ∈ m →
    acc.length = k → m.rank p = top - locatorDistance k → m.rank p < n → ∃ l, LocatorFrom m top k p l ∧
      ∀ fuel, m.rank p < fuel → locatorWalk m fuel (some p) (locatorStep k) acc = acc ++ l := by
  intro n
  induction n with
  | zero => intro p k acc _ _ _ hn; omega
  | succ n ih =>
    intro p k acc hp hlen hrank hn
    have hcast := T.rank_cast p
    by_cases h0 : m.nHeight p = 0
    · refine ⟨[p], .single hrank (by omega), fun fuel hfuel => ?_⟩
      obtain ⟨fuel, rfl⟩ := Nat.exists_eq_succ_of_ne_zero (by omega : fuel ≠ 0)
      rw [locatorWalk]
      dsimp only
      rw [if_pos h0]
    · obtain ⟨hlt, hstep, a, ha, hget, hanc, harank⟩ := locatorWalk_round T htop hp hrank h0
      have hint := toInt32_eq (show 0 ≤ locatorStep k * 2 by have := locatorStep_pos k; omega) (by omega)
      have hdist := locatorDistance_lt_succ k
      have hsize : (acc ++ [p]).length = k + 1 := by simp [hlen]
      obtain ⟨l, hfrom, hwalk⟩ := ih a (k + 1) (acc ++ [p]) ha hsize harank (by omega)
      refine ⟨p :: l, hfrom.cons hanc hrank hlt, fun fuel hfuel => ?_⟩
      obtain ⟨fuel, rfl⟩ := Nat.exists_eq_succ_of_ne_zero (by omega : fuel ≠ 0)
      rw [locatorWalk]
      dsimp only
      rw [if_neg h0, hget, hsize, hint, locatorStep_succ, hwalk fuel (by omega), List.append_assoc]
      rfl

theorem locatorSteps_int (htop : top < 2 ^ 30) : ∀ (fuel : Nat) (p : BlockPtr) (k : Nat), p ∈ m →
    m.rank p = top - locatorDistance k →
    ∀ s ∈ locatorSteps m fuel (some p) (locatorStep k) k, 1 ≤ s ∧ s < 2 ^ 31 := by
  intro fuel
  induction fuel with
  | zero => intro p k _ _ s hs; simp [locatorSteps] at hs
  | succ fuel ih =>
    intro p k hp hrank s hs
    rw [locatorSteps] at hs
    dsimp only at hs
    by_cases h0 : m.nHeight p = 0
    · rw [if_pos h0] at hs
      exact absurd hs List.not_mem_nil
    · obtain ⟨hlt, hstep, a, ha, hget, hanc, harank⟩ := locatorWalk_round T htop hp hrank h0
      have hpos := locatorStep_pos k
      rw [if_neg h0, hget, locatorStep_succ] at hs
      have hnext : 1 ≤ locatorStep (k + 1) ∧ locatorStep (k + 1) < 2 ^ 31 := by
        rw [← locatorStep_succ]
        split <;> omega
      rw [toInt32_eq (by omega) hnext.2] at hs
      rcases List.mem_cons.mp hs with rfl | hs
      · exact hnext
      · exact ih a (k + 1) ha harank s hs

/-! ## The entries -/

theorem locatorEntries_spec {p : BlockPtr} (hp : p ∈ m) (hheight : m.nHeight p < 2 ^ 30) :
    LocatorFrom m (m.rank p) 0 p (locatorEntries m (some p)) ∧
      ∀ fuel, (m.nHeight p).toNat + 1 ≤ fuel → locatorWalk m fuel (some p) 1 [] = locatorEntries m (some p) := by
  have htop : m.rank p < 2 ^ 30 := by have := T.rank_cast p; omega
  obtain ⟨l, hl, hwalk⟩ := locatorWalk_spec T htop (m.rank p + 1) p 0 [] hp rfl rfl (Nat.lt_succ_self _)
  have hentries : locatorEntries m (some p) = l := hwalk _ (Nat.lt_succ_self _)
  rw [hentries]
  exact ⟨hl, hwalk⟩

end

namespace LocatorFrom

variable {m : BlockMap} {genesis p : BlockPtr} {l : List BlockPtr} (h : LocatorFrom m (m.rank p) 0 p l)
include h

theorem rank_get {i : Nat} {a : BlockPtr} (ha : l[i]? = some a) : m.rank a = m.rank p - locatorDistance i := by
  have := (h.entry i a ha).2
  rwa [Nat.zero_add] at this

theorem inner_lt {i : Nat} (hi : i + 1 < l.length) : locatorDistance i < m.rank p := by
  have := h.inner i hi
  rwa [Nat.zero_add] at this

theorem le_last : m.rank p ≤ locatorDistance (l.length - 1) := by
  have := h.last
  rwa [Nat.zero_add] at this

theorem length_le (hrank : m.rank p < 2 ^ 30) : l.length ≤ MAX_LOCATOR_SZ := by
  by_contra hlen
  have hbig : 101 < l.length := by simpa [MAX_LOCATOR_SZ] using hlen
  have h40 := h.inner_lt (i := 40) (by omega)
  have := lt_of_locatorDistance (show locatorDistance 40 < 2 ^ 30 by omega)
  omega

variable (T : TreeShape m genesis)
include T

theorem head : l.head? = some p := by
  obtain ⟨a, ha⟩ : ∃ a, l[0]? = some a := ⟨_, List.getElem?_eq_getElem h.pos⟩
  have hrank := h.rank_get ha
  have := (h.entry 0 a ha).1.eq_of_rank_le T.ranked (by rw [hrank]; exact le_rfl)
  rw [List.head?_eq_getElem?, ha, this]

theorem getLast (hp : p ∈ m) : l.getLast? = some genesis := by
  have hpos := h.pos
  obtain ⟨a, ha⟩ : ∃ a, l[l.length - 1]? = some a := ⟨_, List.getElem?_eq_getElem (by omega)⟩
  have hrank := h.rank_get ha
  have hlast := h.le_last
  have hcast := T.rank_cast a
  rw [List.getLast?_eq_getElem?, ha, T.genesis_of_height (T.mem_anc (h.entry _ a ha).1 hp) (by omega)]

theorem decreasing : l.Pairwise (fun a b => m.nHeight b < m.nHeight a) := by
  rw [List.pairwise_iff_getElem]
  intro i j hi hj hij
  have hri := h.rank_get (List.getElem?_eq_getElem hi)
  have hrj := h.rank_get (List.getElem?_eq_getElem hj)
  have hinner := h.inner_lt (i := i) (by omega)
  have hdist := locatorDistance_strictMono hij
  have := T.rank_cast l[i]
  have := T.rank_cast l[j]
  omega

/-- Close ancestors are all listed. -/
theorem near {a : BlockPtr} (ha : Anc m.pprev a p) (hd : m.nHeight p - m.nHeight a ≤ 11) : a ∈ l := by
  have hle := ha.rank_le T.ranked
  have h1 := T.rank_cast p
  have h2 := T.rank_cast a
  have hsmall := locatorDistance_small (m.rank p - m.rank a) (by omega)
  by_cases hlen : m.rank p - m.rank a < l.length
  · have hget := List.getElem?_eq_getElem hlen
    have hrank := h.rank_get hget
    rw [ha.unique T.ranked (h.entry _ _ hget).1 (by omega)]
    exact List.getElem_mem hlen
  · -- the list would have reached genesis before
    have hlast := h.le_last
    have hpos := h.pos
    rw [locatorDistance_small _ (by omega)] at hlast
    omega

theorem gap {i : Nat} {a b : BlockPtr} (ha : l[i]? = some a) (hb : l[i + 1]? = some b) :
    m.nHeight a - m.nHeight b ≤ m.nHeight p - m.nHeight a + 1 := by
  have hra := h.rank_get ha
  have hrb := h.rank_get hb
  have hinner := h.inner_lt (List.getElem?_eq_some_iff.mp hb).1
  have hstep := step_le_locatorDistance i
  rw [locatorDistance_succ] at hrb
  have := T.rank_cast a
  have := T.rank_cast b
  have := T.rank_cast p
  omega

end LocatorFrom

theorem locatorEntries_genesis {m : BlockMap} {genesis p : BlockPtr} (T : TreeShape m genesis) (hp : p ∈ m)
    (hheight : m.nHeight p < 2 ^ 30) : genesis ∈ locatorEntries m (some p) :=
  List.mem_of_getLast? ((locatorEntries_spec T hp hheight).1.getLast T hp)

/-- Below height `2 ^ 30`, the locator of a block of a tree is made without overflow and lists
ancestors from the block down to genesis, close ones all and the others at growing gaps. It
fits a GETHEADERS message. -/
theorem locatorEntries_shape {m : BlockMap} {genesis p : BlockPtr} (T : TreeShape m genesis) (hp : p ∈ m)
    (hheight : m.nHeight p < 2 ^ 30) :
    (∀ fuel, (m.nHeight p).toNat + 1 ≤ fuel → locatorWalk m fuel (some p) 1 [] = locatorEntries m (some p)) ∧
    (∀ fuel, ∀ s ∈ locatorSteps m fuel (some p) 1 0, 1 ≤ s ∧ s < 2 ^ 31) ∧
    (locatorEntries m (some p)).head? = some p ∧ (locatorEntries m (some p)).getLast? = some genesis ∧
    (∀ a ∈ locatorEntries m (some p), Anc m.pprev a p) ∧
    (locatorEntries m (some p)).Pairwise (fun a b => m.nHeight b < m.nHeight a) ∧
    (∀ a, Anc m.pprev a p → m.nHeight p - m.nHeight a ≤ 11 → a ∈ locatorEntries m (some p)) ∧
    (locatorEntries m (some p)).length ≤ 101 ∧
    (∀ version hashStop, Message.deserialize "getheaders"
      (GetHeadersMessage.mk version (locatorEntries m (some p)) hashStop).serialize =
        some (.getheaders ⟨version, locatorEntries m (some p), hashStop⟩)) ∧
    (∀ (i : Nat) (a b : BlockPtr), (locatorEntries m (some p))[i]? = some a →
      (locatorEntries m (some p))[i + 1]? = some b →
      m.nHeight a - m.nHeight b ≤ m.nHeight p - m.nHeight a + 1) := by
  have hrank : m.rank p < 2 ^ 30 := by have := T.rank_cast p; omega
  obtain ⟨hl, hwalk⟩ := locatorEntries_spec T hp hheight
  have hlen := hl.length_le hrank
  refine ⟨hwalk, fun fuel => locatorSteps_int T hrank fuel p 0 hp rfl, hl.head T, hl.getLast T hp, fun a ha => ?_,
    hl.decreasing T, fun a ha hd => hl.near T ha hd, hlen, fun version hashStop => ?_,
    fun i a b ha hb => hl.gap T ha hb⟩
  · obtain ⟨i, hi⟩ := List.mem_iff_getElem?.mp ha
    exact (hl.entry i a hi).1
  · exact Message.deserialize_serialize (m := .getheaders ⟨version, locatorEntries m (some p), hashStop⟩) hlen

theorem locatorEntries_shape_branched :
    (locatorEntries branchedState.blockIndex (some 3)).head? = some 3 ∧
      (locatorEntries branchedState.blockIndex (some 3)).length ≤ 101 := by
  have hheight : branchedState.blockIndex.nHeight 3 = 2 := by decide +kernel
  have h := locatorEntries_shape branchedState_wf.tree.toTreeShape
    (show 3 ∈ branchedState.blockIndex by decide +kernel) (by omega)
  exact ⟨h.2.2.1, h.2.2.2.2.2.2.2.1⟩

end UnicityPow
