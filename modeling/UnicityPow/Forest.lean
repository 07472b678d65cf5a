import Mathlib.Tactic

/-!
# Forests given by a parent function

`par a` is the parent of `a`, `none` at a root. A rank that grows by one from a
parent to its child makes the parent relation well founded and its ancestors
linearly ordered.
-/

namespace Forest

variable {α : Type*}

/-- `a` is `b` or one of its ancestors. -/
inductive Anc (par : α → Option α) (a : α) : α → Prop
  | refl : Anc par a a
  | step {b c} : par b = some c → Anc par a c → Anc par a b

/-- `f` is the last ancestor that `a` and `b` have in common. -/
structure IsFork (par : α → Option α) (a b f : α) : Prop where
  left : Anc par f a
  right : Anc par f b
  last : ∀ x, Anc par x a → Anc par x b → Anc par x f

/-- `l` lists the nodes above `f` on the way to `b`, the child of `f` first. -/
inductive Segment (par : α → Option α) (f : α) : List α → α → Prop
  | nil : Segment par f [] f
  | snoc {l b c} : Segment par f l c → par b = some c → Segment par f (l ++ [b]) b

/-- The node that `n` steps towards the root reach. -/
def climb (par : α → Option α) : Nat → α → Option α
  | 0, a => some a
  | n + 1, a => (par a).bind (climb par n)

/-- A rank function: children are one above their parent. -/
def Ranked (par : α → Option α) (rk : α → Nat) : Prop :=
  ∀ b c, par b = some c → rk b = rk c + 1

/-- Every root has rank zero. -/
def Rooted (par : α → Option α) (rk : α → Nat) : Prop := ∀ b, par b = none → rk b = 0

/-- A property that passes from a parent to its children. -/
def Inherited (par : α → Option α) (P : α → Prop) : Prop := ∀ b c, par b = some c → P c → P b

/-! ## Ancestors -/

section
variable {par : α → Option α} {a b c : α}

theorem Anc.trans (h1 : Anc par a b) (h2 : Anc par b c) : Anc par a c := by
  induction h2 with
  | refl => exact h1
  | step hp _ ih => exact .step hp ih

theorem Anc.parent (h : par b = some c) : Anc par c b := .step h .refl

theorem anc_iff : Anc par a b ↔ a = b ∨ ∃ c, par b = some c ∧ Anc par a c := by
  constructor
  · intro h
    cases h with
    | refl => exact .inl rfl
    | step hp h => exact .inr ⟨_, hp, h⟩
  · rintro (rfl | ⟨c, hp, h⟩)
    · exact .refl
    · exact .step hp h

theorem Segment.anc {l : List α} (h : Segment par a l b) : Anc par a b := by
  induction h with
  | nil => exact .refl
  | snoc _ hp ih => exact .step hp ih

theorem Segment.getLast {l : List α} (h : Segment par a l b) : (a :: l).getLast (by simp) = b := by
  cases h with
  | nil => rfl
  | snoc _ _ => simp

theorem anc_root (hb : par b = none) : Anc par a b ↔ a = b := by
  rw [anc_iff, hb]
  simp

theorem anc_child (hb : par b = some c) : Anc par a b ↔ a = b ∨ Anc par a c := by
  rw [anc_iff, hb]
  simp

theorem Anc.linear (ha : Anc par a c) (hb : Anc par b c) : Anc par a b ∨ Anc par b a := by
  induction ha with
  | refl => exact .inr hb
  | step hp _ ih =>
    rcases anc_iff.mp hb with rfl | ⟨d, hd, hb⟩
    · exact .inl (.step hp ‹_›)
    · rw [hp] at hd
      cases hd
      exact ih hb

theorem Anc.inherited {P : α → Prop} (hP : Inherited par P) (h : Anc par a b) (ha : P a) : P b := by
  induction h with
  | refl => exact ha
  | step hp _ ih => exact hP _ _ hp ih

theorem Anc.not_inherited {P : α → Prop} (hP : Inherited par P) (h : Anc par a b) (hb : ¬ P b) :
    ¬ P a := fun ha => hb (h.inherited hP ha)

end

/-! ## Climbing -/

section
variable {par : α → Option α} {a b c : α}

theorem climb_succ (hb : par b = some c) (n : Nat) : climb par (n + 1) b = climb par n c := by
  rw [climb, hb]
  rfl

theorem climb_add (i j : Nat) (b : α) : climb par (i + j) b = (climb par i b).bind (climb par j) := by
  induction i generalizing b with
  | zero => rw [Nat.zero_add]; rfl
  | succ i ih =>
    rw [Nat.succ_add]
    cases hb : par b with
    | none => simp [climb, hb]
    | some c => rw [climb_succ hb, climb_succ hb, ih]

end

/-! ## Ranks -/

section
variable {par : α → Option α} {rk : α → Nat} (hr : Ranked par rk)
include hr

theorem Anc.rank_le {a b : α} (h : Anc par a b) : rk a ≤ rk b := by
  induction h with
  | refl => exact Nat.le_refl _
  | step hp _ ih => have := hr _ _ hp; omega

theorem Anc.climb {a b : α} (h : Anc par a b) : climb par (rk b - rk a) b = some a := by
  induction h with
  | refl => rw [Nat.sub_self]; rfl
  | @step b c hp h ih =>
    have := hr b c hp
    have := h.rank_le hr
    rw [show rk b - rk a = (rk c - rk a) + 1 by omega, climb_succ hp, ih]

theorem Anc.eq_of_rank_le {a b : α} (h : Anc par a b) (hk : rk b ≤ rk a) : a = b := by
  cases h with
  | refl => rfl
  | step hp h =>
    have := hr _ _ hp
    have := h.rank_le hr
    omega

theorem Anc.rank_lt {a b : α} (h : Anc par a b) (hne : a ≠ b) : rk a < rk b := by
  by_contra hk
  exact hne (h.eq_of_rank_le hr (by omega))

theorem Anc.antisymm {a b : α} (h1 : Anc par a b) (h2 : Anc par b a) : a = b :=
  h1.eq_of_rank_le hr (h2.rank_le hr)

theorem par_irrefl {a : α} : par a ≠ some a := fun h => by have := hr _ _ h; omega

theorem Anc.of_rank_le {a b c : α} (ha : Anc par a c) (hb : Anc par b c) (hk : rk a ≤ rk b) :
    Anc par a b := by
  rcases ha.linear hb with h | h
  · exact h
  · rw [h.eq_of_rank_le hr hk]
    exact .refl

theorem Anc.unique {a b c : α} (ha : Anc par a c) (hb : Anc par b c) (hk : rk a = rk b) : a = b :=
  (ha.of_rank_le hr hb (by omega)).eq_of_rank_le hr (by omega)

theorem Anc.exists_rank (hz : Rooted par rk) {b : α} {n : Nat} (hn : n ≤ rk b) :
    ∃ a, Anc par a b ∧ rk a = n := by
  induction hk : rk b - n generalizing b with
  | zero => exact ⟨b, .refl, by omega⟩
  | succ k ih =>
    cases hp : par b with
    | none => have := hz b hp; omega
    | some c =>
      have := hr _ _ hp
      obtain ⟨a, ha, hka⟩ := ih (b := c) (by omega) (by omega)
      exact ⟨a, .step hp ha, hka⟩

theorem IsFork.unique {a b f g : α} (hf : IsFork par a b f) (hg : IsFork par a b g) : f = g :=
  Anc.antisymm hr (hg.last f hf.left hf.right) (hf.last g hg.left hg.right)

end

section
variable {par : α → Option α}

theorem IsFork.symm {a b f : α} (h : IsFork par a b f) : IsFork par b a f :=
  ⟨h.right, h.left, fun x hb ha => h.last x ha hb⟩

theorem IsFork.of_anc {a b : α} (h : Anc par a b) : IsFork par a b a :=
  ⟨.refl, h, fun _ hx _ => hx⟩

/-- Below the fork point the two paths are the same: the fork of two nodes is the fork of
two ancestors of theirs that are not above it. -/
theorem IsFork.of_ancestors {a b a' b' f : α} (ha : Anc par a' a) (hb : Anc par b' b)
    (hf : IsFork par a' b' f) (hl : ∀ x, Anc par x a → Anc par x b → Anc par x a' ∧ Anc par x b') :
    IsFork par a b f :=
  ⟨hf.left.trans ha, hf.right.trans hb, fun x hxa hxb =>
    hf.last x (hl x hxa hxb).1 (hl x hxa hxb).2⟩

end

/-! ## Two forests that agree on a closed part -/

section
variable {par par' : α → Option α} {S : α → Prop} (hS : ∀ b c, S b → par b = some c → S c)
include hS

theorem Anc.mem {a b : α} (h : Anc par a b) (hb : S b) : S a := by
  induction h with
  | refl => exact hb
  | step hp _ ih => exact ih (hS _ _ hb hp)

theorem anc_congr (heq : ∀ b, S b → par' b = par b) {a b : α} (hb : S b) : Anc par' a b ↔ Anc par a b := by
  constructor
  · intro h
    induction h with
    | refl => exact .refl
    | step hp _ ih =>
      rw [heq _ hb] at hp
      exact .step hp (ih (hS _ _ hb hp))
  · intro h
    induction h with
    | refl => exact .refl
    | step hp _ ih => exact .step (by rw [heq _ hb, hp]) (ih (hS _ _ hb hp))

theorem climb_congr (heq : ∀ b, S b → par' b = par b) (n : Nat) {b : α} (hb : S b) :
    climb par' n b = climb par n b := by
  induction n generalizing b with
  | zero => rfl
  | succ n ih =>
    cases hp : par b with
    | none => simp [climb, heq b hb, hp]
    | some c => rw [climb_succ hp, climb_succ (by rw [heq b hb, hp]), ih (hS _ _ hb hp)]

end

end Forest
