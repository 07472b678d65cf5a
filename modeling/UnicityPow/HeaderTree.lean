import UnicityPow.BlockTree
import UnicityPow.BlockManager

/-!
# The index invariant

`HeaderTree` is what every entry of a well-formed index satisfies: its key is the hash of
its header, and height, work, time maximum and skip pointer follow from its parent. The null
hash stands for no parent and is never one. It is kept by status changes and by
`AddToBlockIndex`.
-/

namespace UnicityPow

open Forest BlockMap

structure HeaderTree (getHash : CBlockHeader → Uint256) (m : BlockMap) (genesis : BlockPtr) : Prop extends
    TreeShape m genesis where
  hash : ∀ (p : BlockPtr) (b : CBlockIndex), m[p]? = some b → getHash b.getBlockHeader = p
  skipSet : ∀ (p : BlockPtr) (b : CBlockIndex), m[p]? = some b → b.pprev ≠ none → b.pskip ≠ none
  work : ∀ (p : BlockPtr) (b : CBlockIndex), m[p]? = some b →
    b.nChainWork = b.pprev.elim 0 m.nChainWork + getBlockProof b.nBits
  timeMax : ∀ (p : BlockPtr) (b : CBlockIndex), m[p]? = some b →
    b.nTimeMax = b.pprev.elim b.getBlockTime (fun q => max (m.nTimeMax q) b.getBlockTime)
  prevNotNull : ∀ (p : BlockPtr) (b : CBlockIndex), m[p]? = some b → b.pprev ≠ some 0

/-! ## Indexes that agree in part of their entries -/

namespace CBlockIndex

/-- An entry without its status and reception time. -/
def core (b : CBlockIndex) : CBlockIndex := { b with status := {}, nTimeReceived := 0 }

/-- The header of an entry with its parent and height. -/
def links (b : CBlockIndex) : CBlockIndex :=
  { b with status := {}, pskip := none, nChainWork := 0, nTimeReceived := 0, nTimeMax := 0 }

theorem of_core {α : Type*} {b b' : CBlockIndex} (h : b'.core = b.core) (f : CBlockIndex → α)
    (hf : ∀ b, f b.core = f b := by intro _; rfl) : f b' = f b := by rw [← hf, h, hf]

theorem of_links {α : Type*} {b b' : CBlockIndex} (h : b'.links = b.links) (f : CBlockIndex → α)
    (hf : ∀ b, f b.links = f b := by intro _; rfl) : f b' = f b := by rw [← hf, h, hf]

end CBlockIndex

namespace BlockMap

/-- Two indexes with the same blocks, whose entries agree in `f`. -/
def SameBy {α : Type*} (f : CBlockIndex → α) (m m' : BlockMap) : Prop :=
  ∀ p : BlockPtr, m'[p]?.map f = m[p]?.map f

/-- They differ in statuses and reception times only. -/
abbrev SameCore (m m' : BlockMap) : Prop := SameBy CBlockIndex.core m m'

/-- They have the same headers, parents and heights. -/
abbrev SameLinks (m m' : BlockMap) : Prop := SameBy CBlockIndex.links m m'

namespace SameBy

variable {α : Type*} {f : CBlockIndex → α} {m m' : BlockMap}

theorem refl (f : CBlockIndex → α) (m : BlockMap) : SameBy f m m := fun _ => rfl

theorem symm (h : SameBy f m m') : SameBy f m' m := fun p => (h p).symm

theorem trans {m'' : BlockMap} (h1 : SameBy f m m') (h2 : SameBy f m' m'') : SameBy f m m'' :=
  fun p => (h2 p).trans (h1 p)

theorem get (h : SameBy f m m') {p : BlockPtr} {b' : CBlockIndex} (hb : m'[p]? = some b') :
    ∃ b, m[p]? = some b ∧ f b' = f b := by
  have := h p
  rw [hb] at this
  cases hm : m[p]? with
  | none => simp [hm] at this
  | some b => exact ⟨b, rfl, by simpa [hm] using this⟩

theorem map_eq {β : Type*} (h : SameBy f m m') (k : α → β) (p : BlockPtr) :
    m'[p]?.map (fun b => k (f b)) = m[p]?.map (fun b => k (f b)) := by
  have := congrArg (Option.map k) (h p)
  simpa only [Option.map_map, Function.comp_def] using this

theorem elim_eq {β : Type*} (h : SameBy f m m') (g : CBlockIndex → β) (k : α → β) (d : β)
    (hg : ∀ b, g b = k (f b)) (p : BlockPtr) : m'[p]?.elim d g = m[p]?.elim d g := by
  have := congrArg (fun o => Option.elim o d k) (h p)
  simp only [Option.elim_map] at this
  simpa [Function.comp_def, ← hg] using this

theorem mem_iff (h : SameBy f m m') {p : BlockPtr} : p ∈ m' ↔ p ∈ m := by
  constructor
  · intro hp
    obtain ⟨b', hb'⟩ := BlockMap.mem_iff.mp hp
    obtain ⟨b, hb, -⟩ := h.get hb'
    exact mem_of_get hb
  · intro hp
    obtain ⟨b, hb⟩ := BlockMap.mem_iff.mp hp
    obtain ⟨b', hb', -⟩ := h.symm.get hb
    exact mem_of_get hb'

theorem modify (m : BlockMap) (p : BlockPtr) (g : CBlockIndex → CBlockIndex) (hg : ∀ b, f (g b) = f b) :
    SameBy f m (m.modify p g) := by
  intro q
  rw [Std.ExtTreeMap.getElem?_modify]
  split
  · rename_i h
    cases Std.LawfulEqOrd.eq_of_compare h
    cases m[p]? <;> simp [hg]
  · rfl

theorem map (m : BlockMap) (g : Uint256 → CBlockIndex → CBlockIndex) (hg : ∀ p b, f (g p b) = f b) :
    SameBy f m (m.map g) := by
  intro q
  rw [Std.ExtTreeMap.getElem?_map]
  cases m[q]? <;> simp [hg]

theorem insert {p : BlockPtr} {b b' : CBlockIndex} (hb : m[p]? = some b) (hf : f b' = f b) :
    SameBy f m (m.insert p b') := by
  intro q
  rw [Std.ExtTreeMap.getElem?_insert]
  split
  · rename_i h
    cases Std.LawfulEqOrd.eq_of_compare h
    simp [hb, hf]
  · rfl

theorem keys_eq (h : SameBy f m m') : m'.keys = m.keys := by
  have hk : ∀ m : BlockMap, (m.map (fun _ b => f b)).keys = m.keys := fun m => Std.ExtTreeMap.keys_map
  rw [← hk m, ← hk m', show m'.map (fun _ b => f b) = m.map (fun _ b => f b) from
    Std.ExtTreeMap.ext_getElem? (fun {p} => by
      rw [Std.ExtTreeMap.getElem?_map, Std.ExtTreeMap.getElem?_map]; exact h p)]

end SameBy

namespace SameLinks

variable {m m' : BlockMap}

theorem pprev_eq (h : SameLinks m m') : m'.pprev = m.pprev := by
  funext p
  have := h.elim_eq CBlockIndex.pprev CBlockIndex.pprev none (fun _ => rfl) p
  unfold pprev
  cases hm : m[p]? <;> cases hm' : m'[p]? <;> simp_all

theorem nHeight_eq (h : SameLinks m m') : m'.nHeight = m.nHeight :=
  funext fun p => h.elim_eq CBlockIndex.nHeight CBlockIndex.nHeight 0 (fun _ => rfl) p

theorem rank_eq (h : SameLinks m m') : m'.rank = m.rank := by
  unfold rank
  rw [h.nHeight_eq]

theorem hasChildren_eq (h : SameLinks m m') : m'.hasChildren = m.hasChildren := by
  funext p
  rw [Bool.eq_iff_iff, hasChildren_iff, hasChildren_iff, h.pprev_eq]

theorem size_eq (h : SameLinks m m') : m'.size = m.size := by
  rw [← Std.ExtTreeMap.length_keys, h.keys_eq, Std.ExtTreeMap.length_keys]

end SameLinks

namespace SameCore

variable {m m' : BlockMap}

theorem toLinks (h : SameCore m m') : SameLinks m m' := fun p => h.map_eq CBlockIndex.links p

theorem pprev_eq (h : SameCore m m') : m'.pprev = m.pprev := h.toLinks.pprev_eq

theorem nHeight_eq (h : SameCore m m') : m'.nHeight = m.nHeight := h.toLinks.nHeight_eq

theorem hasChildren_eq (h : SameCore m m') : m'.hasChildren = m.hasChildren := h.toLinks.hasChildren_eq

theorem nChainWork_eq (h : SameCore m m') : m'.nChainWork = m.nChainWork :=
  funext fun p => h.elim_eq CBlockIndex.nChainWork CBlockIndex.nChainWork 0 (fun _ => rfl) p

theorem nTimeMax_eq (h : SameCore m m') : m'.nTimeMax = m.nTimeMax :=
  funext fun p => h.elim_eq CBlockIndex.nTimeMax CBlockIndex.nTimeMax 0 (fun _ => rfl) p

theorem toExtends (h : SameCore m m') : Extends m m' where
  mem p hp := h.mem_iff.mpr hp
  pprev p _ := by rw [h.pprev_eq]
  nHeight p _ := by rw [h.nHeight_eq]
  nChainWork p _ := by rw [h.nChainWork_eq]

end SameCore

end BlockMap

theorem BlockMap.TreeShape.sameCore {m m' : BlockMap} {genesis : BlockPtr} (T : TreeShape m genesis)
    (h : SameCore m m') : TreeShape m' genesis where
  genesis_mem := h.mem_iff.mpr T.genesis_mem
  genesis_root := by rw [h.pprev_eq]; exact T.genesis_root
  root p b' hb' hp := by
    obtain ⟨b, hb, hc⟩ := h.get hb'
    rw [show b'.nHeight = b.nHeight from CBlockIndex.of_core hc CBlockIndex.nHeight]
    exact T.root p b hb ((CBlockIndex.of_core hc CBlockIndex.pprev).symm.trans hp)
  parent p b' q hb' hp := by
    obtain ⟨b, hb, hc⟩ := h.get hb'
    rw [show b'.nHeight = b.nHeight from CBlockIndex.of_core hc CBlockIndex.nHeight, h.nHeight_eq, h.mem_iff]
    exact T.parent p b q hb ((CBlockIndex.of_core hc CBlockIndex.pprev).symm.trans hp)
  nonneg p b' hb' := by
    obtain ⟨b, hb, hc⟩ := h.get hb'
    rw [show b'.nHeight = b.nHeight from CBlockIndex.of_core hc CBlockIndex.nHeight]
    exact T.nonneg p b hb
  skip p b' q hb' hp := by
    obtain ⟨b, hb, hc⟩ := h.get hb'
    rw [show b'.nHeight = b.nHeight from CBlockIndex.of_core hc CBlockIndex.nHeight, h.nHeight_eq, h.pprev_eq]
    exact T.skip p b q hb ((CBlockIndex.of_core hc CBlockIndex.pskip).symm.trans hp)

theorem HeaderTree.sameCore {getHash : CBlockHeader → Uint256} {m m' : BlockMap} {genesis : BlockPtr}
    (T : HeaderTree getHash m genesis) (h : SameCore m m') : HeaderTree getHash m' genesis where
  toTreeShape := T.toTreeShape.sameCore h
  hash p b' hb' := by
    obtain ⟨b, hb, hc⟩ := h.get hb'
    rw [show b'.getBlockHeader = b.getBlockHeader from CBlockIndex.of_core hc CBlockIndex.getBlockHeader]
    exact T.hash p b hb
  skipSet p b' hb' := by
    obtain ⟨b, hb, hc⟩ := h.get hb'
    rw [show b'.pprev = b.pprev from CBlockIndex.of_core hc CBlockIndex.pprev,
      show b'.pskip = b.pskip from CBlockIndex.of_core hc CBlockIndex.pskip]
    exact T.skipSet p b hb
  work p b' hb' := by
    obtain ⟨b, hb, hc⟩ := h.get hb'
    rw [show b'.pprev = b.pprev from CBlockIndex.of_core hc CBlockIndex.pprev,
      show b'.nBits = b.nBits from CBlockIndex.of_core hc CBlockIndex.nBits,
      show b'.nChainWork = b.nChainWork from CBlockIndex.of_core hc CBlockIndex.nChainWork, h.nChainWork_eq]
    exact T.work p b hb
  timeMax p b' hb' := by
    obtain ⟨b, hb, hc⟩ := h.get hb'
    rw [show b'.pprev = b.pprev from CBlockIndex.of_core hc CBlockIndex.pprev,
      show b'.getBlockTime = b.getBlockTime from CBlockIndex.of_core hc CBlockIndex.getBlockTime,
      show b'.nTimeMax = b.nTimeMax from CBlockIndex.of_core hc CBlockIndex.nTimeMax, h.nTimeMax_eq]
    exact T.timeMax p b hb
  prevNotNull p b' hb' := by
    obtain ⟨b, hb, hc⟩ := h.get hb'
    rw [show b'.pprev = b.pprev from CBlockIndex.of_core hc CBlockIndex.pprev]
    exact T.prevNotNull p b hb

/-! ## Insertion of a header -/

namespace BlockMap

theorem getElem?_insert_ne {β : Type*} (m : Std.ExtTreeMap Uint256 β compare) {p q : Uint256} (b : β) (h : p ≠ q) :
    (m.insert p b)[q]? = m[q]? := by
  rw [Std.ExtTreeMap.getElem?_insert, if_neg]
  intro hc
  exact h (Std.LawfulEqOrd.eq_of_compare hc)

section
variable {m m' : BlockMap} {genesis : BlockPtr} (T : TreeShape m genesis)
  (heq : ∀ p ∈ m, m'[p]? = m[p]?)
include T heq

theorem getAncestorWalk_congr (height : Int) : ∀ (fuel : Nat) (w : BlockPtr) (k : Int), w ∈ m →
    getAncestorWalk m' height fuel w k = getAncestorWalk m height fuel w k := by
  intro fuel
  induction fuel with
  | zero => intro w k _; rfl
  | succ fuel ih =>
    intro w k hw
    obtain ⟨b, hb⟩ := mem_iff.mp hw
    have hprev : ∀ j, b.pprev.bind (fun p => getAncestorWalk m' height fuel p j) =
        b.pprev.bind (fun p => getAncestorWalk m height fuel p j) := by
      intro j
      cases hp : b.pprev with
      | none => rfl
      | some q => exact ih q j (T.parent w b q hb hp).1
    have hskip : ∀ q, b.pskip = some q → ∀ j,
        getAncestorWalk m' height fuel q j = getAncestorWalk m height fuel q j :=
      fun q hq j => ih q j (T.mem_anc (T.skip w b q hb hq).1 hw)
    unfold getAncestorWalk
    rw [heq w hw, hb]
    cases hs : b.pskip with
    | none => simp only [hs, hprev]
    | some sk => simp only [hs, hprev, hskip sk hs]

theorem getAncestor_congr {p : BlockPtr} (hp : p ∈ m) (height : Int) :
    m'.getAncestor p height = m.getAncestor p height := by
  have : m'.nHeight p = m.nHeight p := by unfold nHeight; rw [heq p hp]
  unfold getAncestor
  rw [this, getAncestorWalk_congr T heq height _ p _ hp]

end

theorem mem_insert {β : Type*} {m : Std.ExtTreeMap Uint256 β compare} {p q : Uint256} {b : β} :
    q ∈ m.insert p b ↔ q = p ∨ q ∈ m := by
  rw [Std.ExtTreeMap.mem_insert, Std.LawfulEqCmp.compare_eq_iff_eq, eq_comm]

theorem extends_insert {m : BlockMap} {p : BlockPtr} (b : CBlockIndex) (hp : p ∉ m) : Extends m (m.insert p b) := by
  have hne : ∀ q ∈ m, (m.insert p b)[q]? = m[q]? := fun q hq =>
    getElem?_insert_ne m b (fun h => hp (h ▸ hq))
  refine ⟨fun q hq => ?_, fun q hq => ?_, fun q hq => ?_, fun q hq => ?_⟩
  · obtain ⟨c, hc⟩ := mem_iff.mp hq
    exact mem_of_get (by rw [hne q hq]; exact hc)
  · unfold pprev; rw [hne q hq]
  · unfold nHeight; rw [hne q hq]
  · unfold nChainWork; rw [hne q hq]

theorem get_insert {m : BlockMap} {p q : BlockPtr} {b c : CBlockIndex} (h : (m.insert p b)[q]? = some c) :
    (q = p ∧ c = b) ∨ (q ≠ p ∧ m[q]? = some c) := by
  by_cases hq : q = p
  · subst hq
    rw [Std.ExtTreeMap.getElem?_insert_self] at h
    exact .inl ⟨rfl, (Option.some.inj h).symm⟩
  · rw [getElem?_insert_ne m b (fun h => hq h.symm)] at h
    exact .inr ⟨hq, h⟩

/-- A leaf entry whose height and skip pointer fit its parent keeps the shape. -/
theorem TreeShape.insert {m : BlockMap} {genesis p q : BlockPtr} {b : CBlockIndex} (T : TreeShape m genesis)
    (hp : p ∉ m) (hq : q ∈ m) (hb : b.pprev = some q) (hh : b.nHeight = m.nHeight q + 1)
    (hs : ∀ r, b.pskip = some r → Anc m.pprev r q ∧ m.nHeight r = getSkipHeight b.nHeight) :
    TreeShape (m.insert p b) genesis := by
  have hE := extends_insert b hp
  have hself : (m.insert p b)[p]? = some b := Std.ExtTreeMap.getElem?_insert_self
  have hpar : pprev (m.insert p b) p = some q := by rw [pprev_of_get hself, hb]
  refine ⟨hE.mem _ T.genesis_mem, by rw [hE.pprev _ T.genesis_mem, T.genesis_root], ?_, ?_, ?_, ?_⟩
  · intro x c hc hn
    rcases get_insert hc with ⟨rfl, rfl⟩ | ⟨-, hc⟩
    · rw [hb] at hn; cases hn
    · exact T.root x c hc hn
  · intro x c y hc hy
    rcases get_insert hc with ⟨rfl, rfl⟩ | ⟨-, hc⟩
    · rw [hb] at hy
      cases hy
      exact ⟨hE.mem _ hq, by rw [hE.nHeight _ hq]; exact hh⟩
    · obtain ⟨h1, h2⟩ := T.parent x c y hc hy
      exact ⟨hE.mem _ h1, by rw [hE.nHeight _ h1]; exact h2⟩
  · intro x c hc
    rcases get_insert hc with ⟨rfl, rfl⟩ | ⟨-, hc⟩
    · have := T.nHeight_nonneg q; omega
    · exact T.nonneg x c hc
  · intro x c r hc hr
    rcases get_insert hc with ⟨rfl, rfl⟩ | ⟨-, hc⟩
    · obtain ⟨h1, h2⟩ := hs r hr
      exact ⟨.step hpar ((hE.anc T hq).mpr h1), by rw [hE.nHeight _ (T.mem_anc h1 hq)]; exact h2⟩
    · obtain ⟨h1, h2⟩ := T.skip x c r hc hr
      have hx := mem_of_get hc
      exact ⟨(hE.anc T hx).mpr h1, by rw [hE.nHeight _ (T.mem_anc h1 hx)]; exact h2⟩

end BlockMap

theorem insert_insert {m : BlockMap} {p : BlockPtr} (b c : CBlockIndex) : (m.insert p b).insert p c = m.insert p c := by
  apply Std.ExtTreeMap.ext_getElem?
  intro k
  simp only [Std.ExtTreeMap.getElem?_insert]
  split <;> rfl

/-! ## An index of one entry -/

section
variable {genesis p q : BlockPtr} {b c : CBlockIndex}

theorem getElem?_single : ((∅ : BlockMap).insert p b)[q]? = if q = p then some b else none := by
  rw [Std.ExtTreeMap.getElem?_insert]
  by_cases h : q = p
  · subst h; simp
  · rw [if_neg h, if_neg (fun hc => h (Std.LawfulEqOrd.eq_of_compare hc).symm)]
    simp

theorem mem_single : q ∈ (∅ : BlockMap).insert p b ↔ q = p := by
  rw [mem_iff, getElem?_single]
  by_cases h : q = p <;> simp [h]

theorem get_single (h : ((∅ : BlockMap).insert p b)[q]? = some c) : q = p ∧ c = b := by
  rw [getElem?_single] at h
  split at h
  · exact ⟨‹_›, (Option.some.inj h).symm⟩
  · cases h

theorem BlockMap.TreeShape.single (hp : b.pprev = none) (hh : b.nHeight = 0)
    (hs : ∀ r, b.pskip = some r → r = genesis) : TreeShape ((∅ : BlockMap).insert genesis b) genesis := by
  have hself : ((∅ : BlockMap).insert genesis b)[genesis]? = some b := by rw [getElem?_single, if_pos rfl]
  refine ⟨mem_single.mpr rfl, (pprev_of_get hself).trans hp, ?_, ?_, ?_, ?_⟩
  · intro x c hc _
    obtain ⟨rfl, rfl⟩ := get_single hc
    exact ⟨rfl, hh⟩
  · intro x c q hc hq
    obtain ⟨rfl, rfl⟩ := get_single hc
    rw [hp] at hq
    cases hq
  · intro x c hc
    obtain ⟨rfl, rfl⟩ := get_single hc
    omega
  · intro x c r hc hr
    obtain ⟨rfl, rfl⟩ := get_single hc
    rw [hs r hr, nHeight_of_get hself, hh]
    exact ⟨.refl, rfl⟩

theorem HeaderTree.single {getHash : CBlockHeader → Uint256} (hp : b.pprev = none) (hh : b.nHeight = 0)
    (hs : ∀ r, b.pskip = some r → r = genesis) (hhash : getHash b.getBlockHeader = genesis)
    (hw : b.nChainWork = getBlockProof b.nBits) (ht : b.nTimeMax = b.getBlockTime) :
    HeaderTree getHash ((∅ : BlockMap).insert genesis b) genesis := by
  refine ⟨.single hp hh hs, ?_, ?_, ?_, ?_, ?_⟩
  · intro x c hc
    obtain ⟨rfl, rfl⟩ := get_single hc
    exact hhash
  · intro x c hc hne
    obtain ⟨rfl, rfl⟩ := get_single hc
    exact absurd hp hne
  · intro x c hc
    obtain ⟨rfl, rfl⟩ := get_single hc
    rw [hw, hp]
    simp
  · intro x c hc
    obtain ⟨rfl, rfl⟩ := get_single hc
    rw [ht, hp]
    rfl
  · intro x c hc
    obtain ⟨rfl, rfl⟩ := get_single hc
    rw [hp]
    simp

end

/-! ## `AddToBlockIndex` -/

theorem newIndex_spec {m m' : BlockMap} {genesis q : BlockPtr} (T : TreeShape m genesis) (hq : q ∈ m)
    (heq : ∀ p ∈ m, m'[p]? = m[p]?) (header : CBlockHeader) (hh : header.hashPrevBlock = q) :
    ∃ b, BlockManager.newIndex m' header (some q) = b ∧ b.pprev = some q ∧ b.nHeight = m.nHeight q + 1 ∧
      b.status = {} ∧ b.getBlockHeader = header ∧ b.nBits = header.nBits ∧
      b.nChainWork = m.nChainWork q + getBlockProof header.nBits ∧
      b.nTimeMax = max (m.nTimeMax q) b.getBlockTime ∧
      ∃ r, b.pskip = some r ∧ Anc m.pprev r q ∧ m.nHeight r = getSkipHeight b.nHeight := by
  have h1 : m'.nHeight q = m.nHeight q := by unfold nHeight; rw [heq q hq]
  have h2 : m'.nChainWork q = m.nChainWork q := by unfold nChainWork; rw [heq q hq]
  have h3 : m'.nTimeMax q = m.nTimeMax q := by unfold nTimeMax; rw [heq q hq]
  have hn := T.nHeight_nonneg q
  have hb := getSkipHeight_bounds (h := m.nHeight q + 1) (by omega)
  obtain ⟨r, hr, hanc, hrh⟩ := T.getAncestor_spec hq hb.1 (by omega)
  rw [← getAncestor_congr T heq hq] at hr
  refine ⟨_, rfl, rfl, by simp [BlockManager.newIndex, buildSkip, h1], rfl, ?_, rfl,
    by simp [BlockManager.newIndex, buildSkip, h2], ?_, r, ?_, hanc, ?_⟩
  · rw [← hh]; rfl
  · simp [BlockManager.newIndex, buildSkip, h3, CBlockIndex.getBlockTime]
  · simp [BlockManager.newIndex, buildSkip, h1, hr]
  · simp [BlockManager.newIndex, buildSkip, h1, hrh]

theorem HeaderTree.insert {getHash : CBlockHeader → Uint256} {m : BlockMap} {genesis p q : BlockPtr}
    {b : CBlockIndex} (T : HeaderTree getHash m genesis) (hp : p ∉ m) (hq : q ∈ m) (h0 : q ≠ 0)
    (hb : b.pprev = some q) (hh : b.nHeight = m.nHeight q + 1) (hhash : getHash b.getBlockHeader = p)
    (hw : b.nChainWork = m.nChainWork q + getBlockProof b.nBits)
    (ht : b.nTimeMax = max (m.nTimeMax q) b.getBlockTime)
    (hs : ∃ r, b.pskip = some r ∧ Anc m.pprev r q ∧ m.nHeight r = getSkipHeight b.nHeight) :
    HeaderTree getHash (m.insert p b) genesis := by
  obtain ⟨r, hr, hs⟩ := hs
  have hkeep : ∀ x ∈ m, (m.insert p b)[x]? = m[x]? := fun x hx =>
    getElem?_insert_ne m b (fun h => hp (h ▸ hx))
  refine ⟨T.toTreeShape.insert hp hq hb hh (fun r' hr' => by rw [hr] at hr'; cases hr'; exact hs), ?_, ?_, ?_, ?_, ?_⟩
  · intro x c hc
    rcases get_insert hc with ⟨rfl, rfl⟩ | ⟨-, hc⟩
    · exact hhash
    · exact T.hash x c hc
  · intro x c hc
    rcases get_insert hc with ⟨rfl, rfl⟩ | ⟨-, hc⟩
    · intro _; rw [hr]; simp
    · exact T.skipSet x c hc
  · intro x c hc
    rcases get_insert hc with ⟨rfl, rfl⟩ | ⟨-, hc⟩
    · rw [hw, hb]
      simp only [Option.elim_some, nChainWork, hkeep q hq]
    · rw [T.work x c hc]
      cases hy : c.pprev with
      | none => rfl
      | some y => simp only [Option.elim_some, nChainWork, hkeep y (T.parent x c y hc hy).1]
  · intro x c hc
    rcases get_insert hc with ⟨rfl, rfl⟩ | ⟨-, hc⟩
    · rw [ht, hb]
      simp only [Option.elim_some, nTimeMax, hkeep q hq]
    · rw [T.timeMax x c hc]
      cases hy : c.pprev with
      | none => rfl
      | some y => simp only [Option.elim_some, nTimeMax, hkeep y (T.parent x c y hc hy).1]
  · intro x c hc
    rcases get_insert hc with ⟨rfl, rfl⟩ | ⟨-, hc⟩
    · rw [hb]
      exact fun e => h0 (Option.some.inj e)
    · exact T.prevNotNull x c hc

theorem addToBlockIndex_spec {getHash : CBlockHeader → Uint256} {s : BlockManager} {genesis : BlockPtr}
    (T : HeaderTree getHash s.blockIndex genesis) (header : CBlockHeader) (hnew : getHash header ∉ s.blockIndex)
    (hprev : header.hashPrevBlock ∈ s.blockIndex) (h0 : header.hashPrevBlock ≠ 0) :
    ∃ b, s.addToBlockIndex getHash header =
        ({ s with blockIndex := s.blockIndex.insert (getHash header) b }, some (getHash header)) ∧
      b.pprev = some header.hashPrevBlock ∧ b.status = {} ∧ b.getBlockHeader = header ∧
      b.nHeight = s.blockIndex.nHeight header.hashPrevBlock + 1 ∧
      b.nChainWork = s.blockIndex.nChainWork header.hashPrevBlock + getBlockProof header.nBits ∧
      HeaderTree getHash (s.blockIndex.insert (getHash header) b) genesis := by
  have heq : ∀ p ∈ s.blockIndex,
      (s.blockIndex.insert (getHash header) (CBlockIndex.ofHeader header))[p]? = s.blockIndex[p]? :=
    fun p hp => getElem?_insert_ne _ _ (fun h => hnew (h ▸ hp))
  obtain ⟨b, hb, hpp, hh, hst, hhdr, hbits, hw, ht, hs⟩ := newIndex_spec T.toTreeShape hprev heq header rfl
  refine ⟨b, ?_, hpp, hst, hhdr, hh, hw,
    T.insert hnew hprev h0 hpp hh (by rw [hhdr]) (by rw [hw, hbits]) ht hs⟩
  unfold BlockManager.addToBlockIndex
  simp only [hnew, if_false]
  rw [if_pos (by rw [Std.ExtTreeMap.mem_insert]; exact .inr hprev), hb]
  congr 2
  apply Std.ExtTreeMap.ext_getElem?
  intro k
  simp only [Std.ExtTreeMap.getElem?_insert]
  split <;> rfl

end UnicityPow
