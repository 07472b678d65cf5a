import Mathlib.Tactic

/-!
# Readers and encodings

Readers over a tape whose error stays once it is set. A reader matches an encoding when it
reads every value back from its encoding, and when whatever it reads without an error was
the encoding of what it answers.
-/

namespace Codec

universe u

/-- What is left to read, and whether an error is set. -/
class Tape (σ : Type u) (β : outParam Type*) where
  rest : σ → List β
  failed : σ → Bool

/-- A reader: `none` stands for giving up at once. -/
abbrev Reader (σ α : Type u) := StateT σ Option α

section
variable {σ α γ : Type u} {β : Type*} [Tape σ β]

/-- The reader reads just the values of `D`, each from its encoding. -/
structure Reads (D : α → Prop) (enc : α → List β) (r : Reader σ α) : Prop where
  complete : ∀ a t s, D a → Tape.failed s = false → Tape.rest s = enc a ++ t →
    ∃ s', r s = some (a, s') ∧ Tape.failed s' = false ∧ Tape.rest s' = t
  sound : ∀ s a s', r s = some (a, s') → Tape.failed s' = false →
    Tape.failed s = false ∧ D a ∧ Tape.rest s = enc a ++ Tape.rest s'

/-- Gives up when an error is set. -/
def check : Reader σ PUnit := fun s => if Tape.failed s then none else some (⟨⟩, s)

/-- Gives up on a condition. -/
def giveUpIf (b : Bool) : Reader σ PUnit := fun s => if b then none else some (⟨⟩, s)

/-- Goes on with an answer that needs no reading, or gives up. -/
def lift (o : Option α) : Reader σ α := fun s => o.map (fun a => (a, s))

/-- Reads `n` values and looks for an error after each. -/
def readList (r : Reader σ α) : Nat → Reader σ (List α)
  | 0 => pure []
  | n + 1 => do
    let a ← r
    check
    let l ← readList r n
    return a :: l

/-- The value read from `start`, unless an error is set at the end. -/
def run (start : σ) (r : Reader σ α) : Option α :=
  match r start with
  | none => none
  | some (a, s) => if Tape.failed s then none else some a

/-! ## Composition -/

theorem bind_eq_some {r : Reader σ α} {f : α → Reader σ γ} {s s' : σ} {c : γ} :
    (r >>= f) s = some (c, s') ↔ ∃ a s1, r s = some (a, s1) ∧ f a s1 = some (c, s') := by
  change Option.bind (r s) (fun as => f as.1 as.2) = _ ↔ _
  rw [Option.bind_eq_some_iff]
  constructor
  · rintro ⟨⟨a, s1⟩, h1, h2⟩
    exact ⟨a, s1, h1, h2⟩
  · rintro ⟨a, s1, h1, h2⟩
    exact ⟨(a, s1), h1, h2⟩

theorem Reads.pure {K : α → Prop} {a : α} (hK : ∀ c, K c ↔ c = a) :
    Reads (σ := σ) (β := β) (fun c => K c ∧ True) (fun _ => []) (Pure.pure a) where
  complete c t s hc hs hrest := ⟨s, by rw [(hK c).mp hc.1]; rfl, hs, hrest⟩
  sound s c s' h hs' := by
    obtain ⟨rfl, rfl⟩ := Prod.mk.inj (Option.some.inj h)
    exact ⟨hs', ⟨(hK a).mpr rfl, trivial⟩, rfl⟩

theorem Reads.congr {D D' : α → Prop} {enc enc' : α → List β} {r : Reader σ α} (h : Reads D enc r)
    (hD : ∀ a, D' a ↔ D a) (henc : ∀ a, D a → enc' a = enc a) : Reads D' enc' r where
  complete a t s ha hs hrest := by
    have ha := (hD a).mp ha
    exact h.complete a t s ha hs (henc a ha ▸ hrest)
  sound s a s' hr hs' := by
    obtain ⟨hs, ha, hrest⟩ := h.sound s a s' hr hs'
    exact ⟨hs, (hD a).mpr ha, (henc a ha).symm ▸ hrest⟩

/-- One reader after another: the second reads the rest of a value of which `K` and the
part `p` are known. -/
theorem Reads.bind {D : α → Prop} {K D' : γ → Prop} {enc : α → List β} {enc' : γ → List β} {r : Reader σ α}
    {f : α → Reader σ γ} (p : γ → α) (h : Reads D enc r)
    (hf : ∀ a, Reads (fun c => (K c ∧ p c = a) ∧ D' c) enc' (f a)) :
    Reads (fun c => K c ∧ D (p c) ∧ D' c) (fun c => enc (p c) ++ enc' c) (r >>= f) where
  complete c t s hc hs hrest := by
    obtain ⟨hK, hp, hc⟩ := hc
    obtain ⟨s1, hr, hs1, hrest1⟩ := h.complete (p c) (enc' c ++ t) s hp hs (by rw [hrest, List.append_assoc])
    obtain ⟨s2, hf2, hs2, hrest2⟩ := (hf (p c)).complete c t s1 ⟨⟨hK, rfl⟩, hc⟩ hs1 hrest1
    exact ⟨s2, bind_eq_some.mpr ⟨p c, s1, hr, hf2⟩, hs2, hrest2⟩
  sound s c s' hr hs' := by
    obtain ⟨a, s1, h1, h2⟩ := bind_eq_some.mp hr
    obtain ⟨hs1, ⟨⟨hK, rfl⟩, hc⟩, hrest1⟩ := (hf a).sound s1 c s' h2 hs'
    obtain ⟨hs, hp, hrest⟩ := h.sound s (p c) s1 h1 hs1
    exact ⟨hs, ⟨hK, hp, hc⟩, by rw [hrest, hrest1, List.append_assoc]⟩

theorem Reads.giveUpIf {D : α → Prop} {enc : α → List β} {r : Reader σ α} {b : Bool}
    (h : b = false → Reads D enc r) :
    Reads (fun a => b = false ∧ D a) enc (giveUpIf b >>= fun _ => r) where
  complete a t s ha hs hrest := by
    obtain ⟨s', hr, hs', hrest'⟩ := (h ha.1).complete a t s ha.2 hs hrest
    exact ⟨s', bind_eq_some.mpr ⟨⟨⟩, s, by simp [Codec.giveUpIf, ha.1], hr⟩, hs', hrest'⟩
  sound s a s' hr hs' := by
    obtain ⟨_, s1, h1, hr⟩ := bind_eq_some.mp hr
    unfold Codec.giveUpIf at h1
    split at h1
    · cases h1
    · rename_i hb
      rw [Bool.not_eq_true] at hb
      cases h1
      obtain ⟨hs, ha, hrest⟩ := (h hb).sound s a s' hr hs'
      exact ⟨hs, ⟨hb, ha⟩, hrest⟩

theorem Reads.lift {K : α → Prop} {o : Option α} (hK : ∀ a, K a ↔ o = some a) :
    Reads (σ := σ) (β := β) (fun a => K a ∧ True) (fun _ => []) (lift o) where
  complete a t s ha hs hrest := ⟨s, by rw [(hK a).mp ha.1]; rfl, hs, hrest⟩
  sound s a s' hr hs' := by
    obtain ⟨a', ho, heq⟩ := Option.map_eq_some_iff.mp hr
    cases heq
    exact ⟨hs', ⟨(hK a).mpr ho, trivial⟩, rfl⟩

/-! ## Lists -/

theorem Reads.list {D : α → Prop} {enc : α → List β} {r : Reader σ α} (h : Reads D enc r) (n : Nat) :
    Reads (fun l => l.length = n ∧ ∀ a ∈ l, D a) (fun l => l.flatMap enc) (readList r n) := by
  induction n with
  | zero =>
    refine (Reads.pure (K := (· = [])) (fun _ => Iff.rfl)).congr (fun l => ?_) (fun l hl => ?_)
    · simp +contextual [List.length_eq_zero_iff]
    · rw [hl.1]
      rfl
  | succ n ih =>
    refine ⟨?_, ?_⟩
    · rintro l t s ⟨hlen, hl⟩ hs hrest
      obtain ⟨a, l, rfl⟩ := List.exists_cons_of_length_eq_add_one hlen
      rw [List.flatMap_cons, List.append_assoc] at hrest
      obtain ⟨s1, hr, hs1, hrest1⟩ := h.complete a _ s (hl a (by simp)) hs hrest
      obtain ⟨s2, hr2, hs2, hrest2⟩ := ih.complete l t s1
        ⟨by simpa using hlen, fun b hb => hl b (by simp [hb])⟩ hs1 hrest1
      refine ⟨s2, ?_, hs2, hrest2⟩
      refine bind_eq_some.mpr ⟨a, s1, hr, bind_eq_some.mpr ⟨⟨⟩, s1, ?_, bind_eq_some.mpr ⟨l, s2, hr2, rfl⟩⟩⟩
      simp [check, hs1]
    · intro s l s' hr hs'
      obtain ⟨a, s1, h1, hr⟩ := bind_eq_some.mp hr
      obtain ⟨_, s1', h1', hr⟩ := bind_eq_some.mp hr
      obtain ⟨l', s2, h2, hr⟩ := bind_eq_some.mp hr
      obtain ⟨rfl, rfl⟩ := Prod.mk.inj (Option.some.inj hr)
      -- the check passes the tape on as it is
      have hs1 : s1' = s1 := by
        unfold check at h1'
        split at h1'
        · cases h1'
        · exact (Prod.mk.inj (Option.some.inj h1')).2.symm
      subst hs1
      obtain ⟨hs1, ⟨hlen, hl⟩, hrest1⟩ := ih.sound s1' l' s2 h2 hs'
      obtain ⟨hs, ha, hrest⟩ := h.sound s a s1' h1 hs1
      refine ⟨hs, ⟨by simp [hlen], ?_⟩, ?_⟩
      · simpa using ⟨ha, hl⟩
      · rw [hrest, hrest1, List.flatMap_cons, List.append_assoc]

/-! ## Whole inputs -/

theorem Reads.run_encode {D : α → Prop} {enc : α → List β} {r : Reader σ α} (h : Reads D enc r) {start : σ}
    {a : α} {t : List β} (ha : D a) (hs : Tape.failed start = false) (hrest : Tape.rest start = enc a ++ t) :
    run start r = some a := by
  obtain ⟨s', hr, hs', -⟩ := h.complete a t start ha hs hrest
  unfold run
  simp [hr, hs']

theorem Reads.run_sound {D : α → Prop} {enc : α → List β} {r : Reader σ α} (h : Reads D enc r) {start : σ}
    {a : α} (hrun : run start r = some a) : D a ∧ enc a <+: Tape.rest start := by
  unfold run at hrun
  split at hrun
  · cases hrun
  · rename_i a' s' hr
    split at hrun
    · cases hrun
    · rename_i hs'
      cases hrun
      obtain ⟨-, ha, hrest⟩ := h.sound start a s' hr (by simpa using hs')
      exact ⟨ha, _, hrest.symm⟩

end

end Codec
