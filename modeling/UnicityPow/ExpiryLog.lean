import Mathlib.Order.WithBot
import Mathlib.Tactic

/-!
# Writes that expire

A log of events, newest first. An event affects some keys, and what it leaves at them holds
until an expiry (`⊤` for ever), or not at all. A store refines a log from a time on when the
two agree on what holds at that time and later.
-/

namespace ExpiryLog

/-- Which keys an event affects, and until when what it leaves there holds. -/
structure Reading (ε κ τ : Type*) where
  affects : κ → ε → Bool
  expiry : ε → Option (WithTop τ)

section
variable {ε κ τ : Type*} [LinearOrder τ]

/-- The latest event that affects a key. -/
def latest (R : Reading ε κ τ) (k : κ) (log : List ε) : Option ε := log.find? (R.affects k)

def Holds (R : Reading ε κ τ) (log : List ε) (k : κ) (t : τ) : Prop :=
  ∃ e x, latest R k log = some e ∧ R.expiry e = some x ∧ (t : WithTop τ) ≤ x

/-- A store keeps an expiry at some keys. -/
def Live (s : κ → Option (WithTop τ)) (k : κ) (t : τ) : Prop := ∃ x, s k = some x ∧ (t : WithTop τ) ≤ x

def SameFrom (now : τ) (s s' : κ → Option (WithTop τ)) : Prop := ∀ k t, now ≤ t → (Live s k t ↔ Live s' k t)

def Refines (R : Reading ε κ τ) (now : τ) (s : κ → Option (WithTop τ)) (log : List ε) : Prop :=
  ∀ k t, now ≤ t → (Live s k t ↔ Holds R log k t)

variable {R : Reading ε κ τ} {now now' : τ} {s s' s'' : κ → Option (WithTop τ)} {log : List ε} {e : ε}

omit [LinearOrder τ] in
theorem latest_cons (k : κ) : latest R k (e :: log) = if R.affects k e then some e else latest R k log := by
  unfold latest
  rw [List.find?_cons]
  cases R.affects k e <;> rfl

/-! ## Stores -/

theorem SameFrom.refl (now : τ) (s : κ → Option (WithTop τ)) : SameFrom now s s := fun _ _ _ => Iff.rfl

theorem SameFrom.symm (h : SameFrom now s s') : SameFrom now s' s := fun k t ht => (h k t ht).symm

theorem SameFrom.trans (h : SameFrom now s s') (h' : SameFrom now s' s'') : SameFrom now s s'' :=
  fun k t ht => (h k t ht).trans (h' k t ht)

theorem SameFrom.mono (h : SameFrom now s s') (hle : now ≤ now') : SameFrom now' s s' :=
  fun k t ht => h k t (hle.trans ht)

/-- A store may drop what has expired. -/
theorem SameFrom.sweep (h : ∀ k, s' k = (s k).filter (fun x => decide ((now : WithTop τ) ≤ x))) :
    SameFrom now s' s := by
  intro k t ht
  have hnow : (now : WithTop τ) ≤ t := WithTop.coe_le_coe.mpr ht
  unfold Live
  rw [h]
  constructor
  · rintro ⟨x, hx, hle⟩
    exact ⟨x, (Option.filter_eq_some_iff.mp hx).1, hle⟩
  · rintro ⟨x, hx, hle⟩
    exact ⟨x, Option.filter_eq_some_iff.mpr ⟨hx, decide_eq_true (hnow.trans hle)⟩, hle⟩

/-! ## Stores against a log -/

theorem Refines.mono (h : Refines R now s log) (hle : now ≤ now') : Refines R now' s log :=
  fun k t ht => h k t (hle.trans ht)

theorem Refines.congr (h : Refines R now s log) (hs : SameFrom now s' s) : Refines R now s' log :=
  fun k t ht => (hs k t ht).trans (h k t ht)

theorem Refines.nil (h : ∀ k, s k = none) : Refines R now s [] := by
  intro k t _
  constructor
  · rintro ⟨x, hx, -⟩
    rw [h] at hx
    cases hx
  · rintro ⟨e, x, he, -⟩
    cases he

/-- An event that leaves at its keys what it says and the rest as it was. -/
theorem Refines.write (h : Refines R now s log) (hw : ∀ k, R.affects k e = true → s' k = R.expiry e)
    (hk : ∀ k, R.affects k e = false → s' k = s k) : Refines R now s' (e :: log) := by
  intro k t ht
  unfold Holds Live
  rw [latest_cons]
  cases ha : R.affects k e with
  | true =>
    rw [hw k ha]
    constructor
    · rintro ⟨x, hx, hle⟩
      exact ⟨e, x, rfl, hx, hle⟩
    · rintro ⟨e', x, he, hx, hle⟩
      obtain rfl := Option.some.inj he
      exact ⟨x, hx, hle⟩
  | false =>
    rw [hk k ha]
    exact h k t ht

/-- An event without keys, and a store that it leaves alone. -/
theorem Refines.pass (h : Refines R now s log) (ha : ∀ k, R.affects k e = false) : Refines R now s (e :: log) :=
  h.write (fun k hk => absurd hk (by simp [ha])) (fun _ _ => rfl)

end

end ExpiryLog
