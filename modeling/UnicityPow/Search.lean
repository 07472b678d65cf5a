import Mathlib.Tactic.Common

/-!
# Binary search

The search of `std::lower_bound` over the positions `0 .. count - 1` of a range: the first
position a predicate does not hold of, if the predicate holds of an initial part only.
-/

namespace Search

variable (below : Nat → Bool)

/-- `first` and `count` are what is left of the range; each round halves it. -/
def lowerBoundWalk : Nat → Nat → Nat → Nat
  | 0, first, _ => first
  | fuel + 1, first, count =>
    if count = 0 then first
    else
      let step := count / 2
      if below (first + step) then lowerBoundWalk fuel (first + step + 1) (count - (step + 1))
      else lowerBoundWalk fuel first step

def lowerBound (count : Nat) : Nat := lowerBoundWalk below count 0 count

variable {below} {n : Nat}

/-- `k` splits the range into the positions `below` holds of and the others. -/
structure Splits (below : Nat → Bool) (n k : Nat) : Prop where
  le : k ≤ n
  before : ∀ i < k, below i = true
  after : ∀ i, k ≤ i → i < n → below i = false

theorem lowerBoundWalk_splits (hmono : ∀ i j, i ≤ j → j < n → below j = true → below i = true) :
    ∀ (fuel first count : Nat), count ≤ fuel → first + count ≤ n → (∀ i < first, below i = true) →
      (∀ i, first + count ≤ i → i < n → below i = false) →
      Splits below n (lowerBoundWalk below fuel first count) := by
  intro fuel
  induction fuel with
  | zero =>
    intro first count hfuel hn hbefore hafter
    obtain rfl : count = 0 := by omega
    unfold lowerBoundWalk
    exact ⟨hn, hbefore, hafter⟩
  | succ fuel ih =>
    intro first count hfuel hn hbefore hafter
    unfold lowerBoundWalk
    split
    · rename_i h0
      subst h0
      exact ⟨by simpa using hn, hbefore, hafter⟩
    · dsimp only
      split
      · rename_i hmid
        refine ih _ _ (by omega) (by omega) (fun i hi => ?_) (fun i hi hin => hafter i (by omega) hin)
        exact hmono i (first + count / 2) (by omega) (by omega) hmid
      · rename_i hmid
        refine ih _ _ (by omega) (by omega) hbefore (fun i hi hin => ?_)
        -- a position past the middle that `below` held of would give it at the middle
        by_contra hb
        exact hmid (hmono _ i hi hin (by simpa using hb))

theorem lowerBound_splits (hmono : ∀ i j, i ≤ j → j < n → below j = true → below i = true) :
    Splits below n (lowerBound below n) :=
  lowerBoundWalk_splits hmono n 0 n (Nat.le_refl _) (by omega) (fun i hi => absurd hi (by omega))
    (fun i hi hin => absurd hin (by omega))

/-- The position found is in the range exactly when `below` fails somewhere, and is then the
first such. -/
theorem Splits.lt_iff {k : Nat} (h : Splits below n k) : k < n ↔ ∃ i < n, below i = false := by
  constructor
  · intro hk
    exact ⟨k, hk, h.after k (Nat.le_refl _) hk⟩
  · rintro ⟨i, hi, hb⟩
    by_contra hk
    have := h.before i (by omega)
    rw [hb] at this
    cases this

theorem Splits.le_of_false {k i : Nat} (h : Splits below n k) (hb : below i = false) : k ≤ i := by
  by_contra hk
  have := h.before i (by omega)
  rw [hb] at this
  cases this

end Search
