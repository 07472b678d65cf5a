import Mathlib.Tactic

/-!
# Runs of a state machine

The states reached from a start state when each step meets a condition on the state
before it and on the operation.
-/

namespace Run

variable {S A : Type*}

inductive Reaches (step : S → A → S) (ok : S → A → Prop) (s₀ : S) : S → Prop
  | start : Reaches step ok s₀ s₀
  | next {s a} : Reaches step ok s₀ s → ok s a → Reaches step ok s₀ (step s a)

/-- A run with the operations it made, the oldest first. -/
inductive Trace (step : S → A → S) (ok : S → A → Prop) (s₀ : S) : List A → S → Prop
  | nil : Trace step ok s₀ [] s₀
  | snoc {l s a} : Trace step ok s₀ l s → ok s a → Trace step ok s₀ (l ++ [a]) (step s a)

section
variable {step : S → A → S} {ok ok' : S → A → Prop} {s₀ s : S}

theorem Reaches.invariant {P : S → Prop} (h : Reaches step ok s₀ s) (h0 : P s₀)
    (hstep : ∀ s a, P s → ok s a → P (step s a)) : P s := by
  induction h with
  | start => exact h0
  | next _ ha ih => exact hstep _ _ ih ha

theorem Reaches.mono (h : Reaches step ok s₀ s) (hok : ∀ s a, ok s a → ok' s a) : Reaches step ok' s₀ s := by
  induction h with
  | start => exact .start
  | next _ ha ih => exact .next ih (hok _ _ ha)

theorem Trace.mono {l : List A} (h : Trace step ok s₀ l s) (hok : ∀ s a, ok s a → ok' s a) :
    Trace step ok' s₀ l s := by
  induction h with
  | nil => exact .nil
  | snoc _ ha ih => exact .snoc ih (hok _ _ ha)

theorem Trace.eq_of_nil (h : Trace step ok s₀ [] s) : s = s₀ := by
  generalize hl : [] = l at h
  cases h with
  | nil => rfl
  | snoc => exact absurd hl.symm (List.append_ne_nil_of_right_ne_nil _ (List.cons_ne_nil _ _))

theorem Reaches.trace {s' : S} {l : List A} (h : Reaches step ok s₀ s) (ht : Trace step ok s l s') :
    Reaches step ok s₀ s' := by
  induction ht with
  | nil => exact h
  | snoc _ ha ih => exact ih.next ha

theorem Reaches.foldl {l : List A} (h : Reaches step ok s₀ s) (hl : ∀ a ∈ l, ∀ s, ok s a) :
    Reaches step ok s₀ (l.foldl step s) := by
  induction l generalizing s with
  | nil => exact h
  | cons a l ih => exact ih (h.next (hl a List.mem_cons_self s)) fun b hb => hl b (List.mem_cons_of_mem a hb)

theorem Trace.eq_foldl {l : List A} (h : Trace step ok s₀ l s) : s = l.foldl step s₀ := by
  induction h with
  | nil => rfl
  | snoc _ _ ih => rw [List.foldl_append, ← ih]; rfl

theorem trace_concat {l : List A} {a : A} :
    Trace step ok s₀ (l ++ [a]) ((l ++ [a]).foldl step s₀) ↔
      Trace step ok s₀ l (l.foldl step s₀) ∧ ok (l.foldl step s₀) a := by
  constructor
  · intro h
    generalize hl : l ++ [a] = l' at h
    generalize l'.foldl step s₀ = s' at h
    cases h with
    | nil => exact absurd hl (List.append_ne_nil_of_right_ne_nil _ (List.cons_ne_nil _ _))
    | snoc ht hok =>
      obtain ⟨rfl, heq⟩ := List.append_inj' hl rfl
      obtain rfl := List.singleton_inj.mp heq
      obtain rfl := ht.eq_foldl
      exact ⟨ht, hok⟩
  · rintro ⟨ht, hok⟩
    rw [List.foldl_append]
    exact ht.snoc hok

/-- What holds after a step if and only if it held before and the step meets the condition
holds all along a run if and only if all its steps do. -/
theorem always_iff (P I : S → Prop) (hP : P s₀) (hI : I s₀) (hinv : ∀ s a, I s → I (step s a))
    (hstep : ∀ s a, I s → (P (step s a) ↔ P s ∧ ok s a)) (l : List A) :
    (∀ l', l' <+: l → P (l'.foldl step s₀)) ↔ Trace step ok s₀ l (l.foldl step s₀) := by
  have hall : ∀ l : List A, I (l.foldl step s₀) := by
    intro l
    induction l using List.reverseRecOn with
    | nil => exact hI
    | append_singleton l a ih => rw [List.foldl_append]; exact hinv _ a ih
  induction l using List.reverseRecOn with
  | nil =>
    refine ⟨fun _ => .nil, fun _ l' hl => ?_⟩
    rw [List.prefix_nil.mp hl]
    exact hP
  | append_singleton l a ih =>
    have hlast : P ((l ++ [a]).foldl step s₀) ↔ P (l.foldl step s₀) ∧ ok (l.foldl step s₀) a := by
      rw [List.foldl_append]
      exact hstep _ a (hall l)
    rw [trace_concat]
    constructor
    · intro h
      exact ⟨ih.mp fun l' hl => h l' (hl.trans (List.prefix_append l [a])), (hlast.mp (h _ List.prefix_rfl)).2⟩
    · rintro ⟨ht, hok⟩ l' hl
      rcases List.prefix_concat_iff.mp hl with rfl | hl
      · exact hlast.mpr ⟨ih.mpr ht l List.prefix_rfl, hok⟩
      · exact ih.mpr ht l' hl

/-- What an operation keeps if and only if it is of one kind holds all along a run if and only
if all its operations are of that kind. -/
theorem always_iff_forall (P : S → Prop) (kind : A → Prop) (hP : P s₀)
    (hstep : ∀ s a, P s → (P (step s a) ↔ kind a)) (l : List A) :
    (∀ l', l' <+: l → P (l'.foldl step s₀)) ↔ ∀ a ∈ l, kind a := by
  induction l generalizing s₀ with
  | nil =>
    refine ⟨fun _ a ha => absurd ha List.not_mem_nil, fun _ l' hl => ?_⟩
    rw [List.prefix_nil.mp hl]
    exact hP
  | cons a l ih =>
    constructor
    · intro h
      have hone := h [a] (List.prefix_append [a] l)
      rw [List.forall_mem_cons]
      refine ⟨(hstep s₀ a hP).mp hone, (ih hone).mp fun l' hl => ?_⟩
      exact h (a :: l') (List.cons_prefix_cons.mpr ⟨rfl, hl⟩)
    · intro h l' hl
      obtain ⟨ha, hrest⟩ := List.forall_mem_cons.mp h
      cases l' with
      | nil => exact hP
      | cons b l' =>
        obtain ⟨rfl, hrest'⟩ := List.cons_prefix_cons.mp hl
        exact (ih ((hstep s₀ b hP).mpr ha)).mpr hrest l' hrest'

end

end Run
