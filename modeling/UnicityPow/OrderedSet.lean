import Mathlib.Tactic

/-!
# Sets kept in the order of a comparator

An ordered container is the list of its elements in comparator order. Two elements
neither of which comes before the other are one element of the container.
-/

namespace OrderedSet

variable {α : Type*}

/-- A comparator that tells any two distinct elements apart. -/
structure StrictTotal (lt : α → α → Bool) : Prop where
  irrefl : ∀ a, lt a a = false
  trans : ∀ a b c, lt a b = true → lt b c = true → lt a c = true
  total : ∀ a b, lt a b = false → lt b a = false → a = b

/-- Elements the container cannot tell apart. -/
def equiv (lt : α → α → Bool) (a b : α) : Bool := !lt a b && !lt b a

def insert (lt : α → α → Bool) (a : α) : List α → List α
  | [] => [a]
  | b :: l => if lt a b then a :: b :: l else if lt b a then b :: insert lt a l else b :: l

def erase (lt : α → α → Bool) (a : α) (l : List α) : List α := l.filter (fun b => !equiv lt a b)

def contains (lt : α → α → Bool) (a : α) (l : List α) : Bool := l.any (equiv lt a)

def Sorted (lt : α → α → Bool) (l : List α) : Prop := l.Pairwise (fun a b => lt a b = true)

theorem sorted_nil (lt : α → α → Bool) : Sorted lt [] := List.Pairwise.nil

theorem Sorted.sublist {lt : α → α → Bool} {l l' : List α} (h : Sorted lt l) (hs : l'.Sublist l) :
    Sorted lt l' := List.Pairwise.sublist hs h

/-- Another comparator that orders the elements in the same way keeps the container sorted. -/
theorem Sorted.congr {lt lt' : α → α → Bool} {l : List α} (h : Sorted lt l)
    (heq : ∀ a ∈ l, ∀ b ∈ l, lt' a b = lt a b) : Sorted lt' l :=
  List.Pairwise.imp_of_mem (fun ha hb hab => by rw [heq _ ha _ hb]; exact hab) h

section
variable {lt : α → α → Bool} (hlt : StrictTotal lt)
include hlt

theorem equiv_iff {a b : α} : equiv lt a b = true ↔ a = b := by
  unfold equiv
  constructor
  · intro h
    simp only [Bool.and_eq_true, Bool.not_eq_true'] at h
    exact hlt.total a b h.1 h.2
  · rintro rfl
    simp [hlt.irrefl]

theorem mem_insert {a b : α} {l : List α} : b ∈ insert lt a l ↔ b = a ∨ b ∈ l := by
  induction l with
  | nil => simp [insert]
  | cons c l ih =>
    unfold insert
    split
    · simp
    · split
      · simp only [List.mem_cons, ih]
        tauto
      · have : a = c := hlt.total a c (by simpa using ‹¬ lt a c = true›) (by simpa using ‹¬ lt c a = true›)
        subst this
        simp

theorem mem_erase {a b : α} {l : List α} : b ∈ erase lt a l ↔ b ∈ l ∧ b ≠ a := by
  unfold erase
  have : equiv lt a b = true ↔ a = b := equiv_iff hlt
  by_cases h : a = b
  · subst h; simp [this.mpr rfl]
  · have : equiv lt a b = false := by simpa using mt this.mp h
    simp [this, Ne.symm h]

theorem contains_iff {a : α} {l : List α} : contains lt a l = true ↔ a ∈ l := by
  simp [contains, List.any_eq_true, equiv_iff hlt]

theorem Sorted.insert {a : α} {l : List α} (h : Sorted lt l) : Sorted lt (OrderedSet.insert lt a l) := by
  induction l with
  | nil => exact List.pairwise_singleton _ _
  | cons c l ih =>
    obtain ⟨hc, hl⟩ := List.pairwise_cons.mp h
    unfold OrderedSet.insert
    split
    · refine List.pairwise_cons.mpr ⟨fun b hb => ?_, h⟩
      rcases List.mem_cons.mp hb with rfl | hb
      · assumption
      · exact hlt.trans _ _ _ ‹_› (hc b hb)
    · split
      · refine List.pairwise_cons.mpr ⟨fun b hb => ?_, ih hl⟩
        rcases (mem_insert hlt).mp hb with rfl | hb
        · assumption
        · exact hc b hb
      · exact h

theorem Sorted.nodup {l : List α} (h : Sorted lt l) : l.Nodup :=
  List.Pairwise.imp (fun {a b} hab hne => by subst hne; simp [hlt.irrefl] at hab) h

end

theorem Sorted.erase {lt : α → α → Bool} {a : α} {l : List α} (h : Sorted lt l) :
    Sorted lt (OrderedSet.erase lt a l) := h.sublist List.filter_sublist

/-- The first element that passes a test comes before every other element that does. -/
theorem head_dropWhile {lt : α → α → Bool} {p : α → Bool} {l r : List α} {a b : α} (h : Sorted lt l)
    (hd : l.dropWhile p = a :: r) (hb : b ∈ l) (hp : p b = false) : b = a ∨ lt a b = true := by
  induction l with
  | nil => simp at hb
  | cons c l ih =>
    obtain ⟨hc, hl⟩ := List.pairwise_cons.mp h
    rw [List.dropWhile_cons] at hd
    split at hd
    · rename_i hpc
      rcases List.mem_cons.mp hb with rfl | hb
      · simp [hpc] at hp
      · exact ih hl hd hb
    · cases hd
      rcases List.mem_cons.mp hb with rfl | hb
      · exact .inl rfl
      · exact .inr (hc b hb)

theorem mem_dropWhile_or {p : α → Bool} {l : List α} {b : α} (hb : b ∈ l) (hp : p b = false) :
    b ∈ l.dropWhile p := by
  induction l with
  | nil => simp at hb
  | cons c l ih =>
    rw [List.dropWhile_cons]
    rcases List.mem_cons.mp hb with rfl | hb
    · simp [hp]
    · split
      · exact ih hb
      · exact List.mem_cons_of_mem _ hb

end OrderedSet
