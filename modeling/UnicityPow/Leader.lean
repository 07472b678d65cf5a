import Mathlib.Tactic.Common

/-!
# The leader of a list

A pass that keeps the better of the best so far and the next element. Where any two elements
are comparable and better is transitive, it ends with one that leads all of them, and with an
equally good one whatever the order of the list.
-/

namespace Leader

variable {α : Type*} (leads : α → α → Prop) [DecidableRel leads]

def pick (first : α) (l : List α) : α := l.foldl (fun best x => if leads best x then best else x) first

variable {leads}

theorem pick_cons (first x : α) (l : List α) :
    pick leads first (x :: l) = pick leads (if leads first x then first else x) l := rfl

theorem pick_mem (first : α) (l : List α) : pick leads first l ∈ first :: l := by
  induction l generalizing first with
  | nil => exact List.mem_singleton.mpr rfl
  | cons x l ih =>
    rw [pick_cons]
    split
    · rcases List.mem_cons.mp (ih first) with h | h
      · exact List.mem_cons.mpr (.inl h)
      · exact List.mem_cons_of_mem _ (List.mem_cons_of_mem _ h)
    · exact List.mem_cons_of_mem _ (ih x)

section
variable (hrefl : ∀ a, leads a a) (htrans : ∀ a b d, leads a b → leads b d → leads a d)
  (htotal : ∀ a b, ¬ leads a b → leads b a)
include hrefl htrans htotal

theorem pick_leads (first : α) (l : List α) : ∀ x ∈ first :: l, leads (pick leads first l) x := by
  induction l generalizing first with
  | nil =>
    intro x hx
    rw [List.mem_singleton.mp hx]
    exact hrefl first
  | cons y l ih =>
    intro x hx
    rw [pick_cons]
    split
    · rename_i hlead
      rcases List.mem_cons.mp hx with rfl | hx
      · exact ih x x (by simp)
      · rcases List.mem_cons.mp hx with rfl | hx
        · exact htrans _ _ _ (ih first first (by simp)) hlead
        · exact ih first x (by simp [hx])
    · rename_i hlead
      rcases List.mem_cons.mp hx with rfl | hx
      · exact htrans _ _ _ (ih y y (by simp)) (htotal _ _ hlead)
      · exact ih y x hx

/-- Lists with the same elements have equally good leaders. -/
theorem pick_leads_pick {first first' : α} {l l' : List α} (h : pick leads first' l' ∈ first :: l) :
    leads (pick leads first l) (pick leads first' l') :=
  pick_leads hrefl htrans htotal first l _ h

end

end Leader
