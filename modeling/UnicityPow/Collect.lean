import Mathlib.Tactic

/-!
# Collecting under a limit

A loop that goes through a source and takes each element whose key is neither barred nor taken
already, until it has enough of them. Several sources may be gone through one after another.
-/

namespace Collect

variable {α κ : Type*} (key : α → κ) (barred : κ → Bool) (limit : Nat)

/-- What the rounds keep. -/
structure Collected (taken : List α) : Prop where
  length_le : taken.length ≤ limit
  nodup : (taken.map key).Nodup
  allowed : ∀ a ∈ taken, barred (key a) = false

theorem Collected.nil : Collected key barred limit [] := ⟨Nat.zero_le _, List.nodup_nil, by simp⟩

variable [DecidableEq κ]

/-- One round, from what has been taken so far. -/
def round (taken : List α) (a : α) : List α :=
  if limit ≤ taken.length then taken
  else if barred (key a) then taken
  else if key a ∈ taken.map key then taken
  else taken ++ [a]

def collect (taken source : List α) : List α := source.foldl (round key barred limit) taken

section
variable {key : α → κ} {barred : κ → Bool} {limit : Nat} {taken source : List α} {a b : α}

theorem Collected.round (h : Collected key barred limit taken) (a : α) :
    Collected key barred limit (round key barred limit taken a) := by
  unfold Collect.round
  split
  · exact h
  rename_i hroom
  split
  · exact h
  rename_i hallowed
  split
  · exact h
  rename_i hnew
  refine ⟨?_, ?_, fun b hb => ?_⟩
  · rw [List.length_append, List.length_singleton]
    omega
  · rw [List.map_append, List.map_singleton, List.nodup_append]
    refine ⟨h.nodup, List.nodup_singleton _, fun x hx y hy hxy => ?_⟩
    rw [List.mem_singleton] at hy
    exact hnew (hy ▸ hxy ▸ hx)
  · rcases List.mem_append.mp hb with hb | hb
    · exact h.allowed b hb
    · rw [List.mem_singleton.mp hb]
      exact Bool.eq_false_of_not_eq_true hallowed

theorem Collected.collect (h : Collected key barred limit taken) (source : List α) :
    Collected key barred limit (collect key barred limit taken source) :=
  List.foldlRecOn source _ h fun _ h a _ => h.round a

theorem mem_round (h : a ∈ round key barred limit taken b) : a ∈ taken ∨ a = b := by
  unfold round at h
  split at h
  · exact .inl h
  split at h
  · exact .inl h
  split at h
  · exact .inl h
  · exact (List.mem_append.mp h).imp_right List.mem_singleton.mp

/-- Nothing is taken that is in no source. -/
theorem mem_collect (h : a ∈ collect key barred limit taken source) : a ∈ taken ∨ a ∈ source := by
  unfold collect at h
  induction source generalizing taken with
  | nil => exact .inl h
  | cons b source ih =>
    rcases ih h with h | h
    · exact (mem_round h).imp_right fun heq => List.mem_cons.mpr (.inl heq)
    · exact .inr (List.mem_cons_of_mem b h)

end

end Collect
