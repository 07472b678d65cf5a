import Mathlib.Tactic

/-!
# Logs of a stack

Edits that push a value onto an expected last element or pop an expected one, and their
replay. Runs of pops and pushes replay to what they spell.
-/

namespace StackLog

variable {α : Type*} [DecidableEq α]

inductive Edit (α : Type*)
  | push (parent a : α)
  | pop (a : α)
deriving DecidableEq

/-- `none` is an edit that does not apply. -/
def apply (l : List α) : Edit α → Option (List α)
  | .push parent a => if l.getLast? = some parent then some (l ++ [a]) else none
  | .pop a => if l.getLast? = some a then some l.dropLast else none

def replay (l : List α) (es : List (Edit α)) : Option (List α) := es.foldlM apply l

/-- Takes the values of `l` off, the last one first. -/
def pops (l : List α) : List (Edit α) := l.reverse.map .pop

/-- Puts the values of `l` on top of `f`. -/
def pushes (f : α) : List α → List (Edit α)
  | [] => []
  | a :: l => .push f a :: pushes a l

theorem replay_append (l : List α) (es es' : List (Edit α)) :
    replay l (es ++ es') = (replay l es).bind (replay · es') := List.foldlM_append

omit [DecidableEq α] in
theorem pops_concat (l : List α) (a : α) : pops (l ++ [a]) = .pop a :: pops l := by
  unfold pops
  simp

omit [DecidableEq α] in
theorem pushes_concat (f : α) (l : List α) (a : α) :
    pushes f (l ++ [a]) = pushes f l ++ [.push ((f :: l).getLast (by simp)) a] := by
  induction l generalizing f with
  | nil => rfl
  | cons b l ih =>
    rw [List.cons_append, pushes, ih, pushes, List.cons_append, List.getLast_cons (List.cons_ne_nil b l)]

theorem replay_pops (v l : List α) : replay (v ++ l) (pops l) = some v := by
  induction l using List.reverseRecOn with
  | nil => simp [replay, pops]
  | append_singleton l a ih =>
    have happ : apply (v ++ (l ++ [a])) (.pop a) = some (v ++ l) := by
      unfold apply
      rw [← List.append_assoc]
      simp
    rw [pops_concat]
    exact (congrArg (Option.bind · (replay · (pops l))) happ).trans ih

theorem replay_pushes {v : List α} {f : α} (hv : v.getLast? = some f) (l : List α) :
    replay v (pushes f l) = some (v ++ l) := by
  induction l generalizing v f with
  | nil => simp [replay, pushes]
  | cons a l ih =>
    have happ : apply v (.push f a) = some (v ++ [a]) := if_pos hv
    have hrest := ih (v := v ++ [a]) (f := a) (by simp)
    rw [List.append_assoc] at hrest
    exact (congrArg (Option.bind · (replay · (pushes a l))) happ).trans hrest

theorem replay_switch {v : List α} {f : α} (hv : v.getLast? = some f) (l l' : List α) :
    replay (v ++ l) (pops l ++ pushes f l') = some (v ++ l') := by
  rw [replay_append, replay_pops]
  exact replay_pushes hv l'

end StackLog
