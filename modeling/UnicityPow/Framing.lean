import Mathlib.Tactic

/-!
# Framing

Frames read from the start of a growing buffer. A reader that stands by its verdicts reads
the same frames however the stream is cut into chunks.
-/

namespace Framing

/-- What the bytes so far say of the frame they start with. -/
inductive Verdict (ι : Type*)
  | more
  | bad
  | item (x : ι) (size : Nat)

/-- A reader whose verdict on some bytes stands whatever follows. -/
structure Reader (β ι : Type*) where
  read : List β → Verdict ι
  read_nil : read [] = .more
  size_pos : ∀ {l x n}, read l = .item x n → 0 < n
  size_le : ∀ {l x n}, read l = .item x n → n ≤ l.length
  stable : ∀ {l}, read l ≠ .more → ∀ t, read (l ++ t) = read l

/-- A frame that cannot be, or more bytes than the buffer takes. -/
inductive Fault
  | framing | flood
deriving DecidableEq

/-- What is done with items and faults. -/
structure Sink (ι σ : Type*) where
  item : σ → ι → σ
  fault : σ → Fault → σ

/-- The frames at the start of some bytes, what is left after them, and whether that is bad. -/
structure Frames (β ι : Type*) where
  items : List ι
  rest : List β
  bad : Bool

section
variable {β ι σ : Type*}

def Frames.cons (x : ι) (p : Frames β ι) : Frames β ι := { p with items := x :: p.items }

/-- Frame by frame. -/
def frames (R : Reader β ι) (l : List β) : Frames β ι :=
  match _ : R.read l with
  | .more => ⟨[], l, false⟩
  | .bad => ⟨[], l, true⟩
  | .item x n => (frames R (l.drop n)).cons x
termination_by l.length
decreasing_by
  have hpos := R.size_pos ‹_›
  have hle := R.size_le ‹_›
  rw [List.length_drop]
  omega

/-- The frames of the buffer go to the sink. -/
def drain (R : Reader β ι) (K : Sink ι σ) (l : List β) (s : σ) : List β × σ :=
  match _ : R.read l with
  | .more => (l, s)
  | .bad => (l, K.fault s .framing)
  | .item x n => drain R K (l.drop n) (K.item s x)
termination_by l.length
decreasing_by
  have hpos := R.size_pos ‹_›
  have hle := R.size_le ‹_›
  rw [List.length_drop]
  omega

/-- One more chunk, unless the buffer would grow beyond `limit`. -/
def receive (R : Reader β ι) (K : Sink ι σ) (limit : Nat) (b : List β × σ) (chunk : List β) :
    List β × σ :=
  if limit < b.1.length + chunk.length then (b.1, K.fault b.2 .flood) else drain R K (b.1 ++ chunk) b.2

variable {R : Reader β ι} {K : Sink ι σ}

theorem frames_more {l : List β} (h : R.read l = .more) : frames R l = ⟨[], l, false⟩ := by
  rw [frames]
  split <;> simp_all

theorem frames_bad {l : List β} (h : R.read l = .bad) : frames R l = ⟨[], l, true⟩ := by
  rw [frames]
  split <;> simp_all

theorem frames_item {l : List β} {x : ι} {n : Nat} (h : R.read l = .item x n) :
    frames R l = (frames R (l.drop n)).cons x := by
  rw [frames]
  split <;> simp_all

/-- A buffer is read one frame after another. -/
theorem induct (R : Reader β ι) {P : List β → Prop} (more : ∀ l, R.read l = .more → P l)
    (bad : ∀ l, R.read l = .bad → P l) (item : ∀ l x n, R.read l = .item x n → P (l.drop n) → P l)
    (l : List β) : P l := by
  induction hl : l.length using Nat.strong_induction_on generalizing l with
  | _ k ih =>
    cases h : R.read l with
    | more => exact more l h
    | bad => exact bad l h
    | item x n =>
      have hpos := R.size_pos h
      have hle := R.size_le h
      exact item l x n h (ih _ (by rw [List.length_drop]; omega) _ rfl)

theorem read_rest (l : List β) : R.read (frames R l).rest = if (frames R l).bad then .bad else .more := by
  induction l using induct R with
  | more l h => rw [frames_more h]; exact h
  | bad l h => rw [frames_bad h]; exact h
  | item l x n h ih => rw [frames_item h]; exact ih

theorem drain_more {l : List β} (h : R.read l = .more) (s : σ) : drain R K l s = (l, s) := by
  rw [drain]
  split <;> simp_all

theorem drain_bad {l : List β} (h : R.read l = .bad) (s : σ) : drain R K l s = (l, K.fault s .framing) := by
  rw [drain]
  split <;> simp_all

theorem drain_item {l : List β} {x : ι} {n : Nat} (h : R.read l = .item x n) (s : σ) :
    drain R K l s = drain R K (l.drop n) (K.item s x) := by
  rw [drain]
  split <;> simp_all

theorem drain_eq (l : List β) (s : σ) :
    drain R K l s = ((frames R l).rest,
      if (frames R l).bad then K.fault ((frames R l).items.foldl K.item s) .framing
      else (frames R l).items.foldl K.item s) := by
  induction l using induct R generalizing s with
  | more l h => rw [drain_more h, frames_more h]; rfl
  | bad l h => rw [drain_bad h, frames_bad h]; rfl
  | item l x n h ih =>
    rw [drain_item h, frames_item h, ih]
    rfl

/-- Bytes that follow are read after what is left. -/
theorem frames_append (l t : List β) :
    frames R (l ++ t) =
      { frames R ((frames R l).rest ++ t) with
        items := (frames R l).items ++ (frames R ((frames R l).rest ++ t)).items } := by
  induction l using induct R with
  | more l h => rw [frames_more h]; rfl
  | bad l h => rw [frames_bad h]; rfl
  | item l x n h ih =>
    have hlt : R.read (l ++ t) = .item x n := (R.stable (by rw [h]; simp) t).trans h
    rw [frames_item hlt, frames_item h, List.drop_append_of_le_length (R.size_le h), ih]
    rfl

/-- A buffer that starts with a bad frame stays so. -/
theorem frames_append_of_bad {l : List β} (h : R.read l = .bad) (t : List β) :
    frames R (l ++ t) = ⟨[], l ++ t, true⟩ :=
  frames_bad ((R.stable (by rw [h]; simp) t).trans h)

/-! ## Any chunks -/

/-- A buffer with its sink after a stream: the frames of the stream went to the sink, then
faults, the first of which is a bad frame of the stream. -/
def Fed (R : Reader β ι) (K : Sink ι σ) (s : σ) (stream : List β) (b : List β × σ) : Prop :=
  R.read b.1 = (if (frames R stream).bad then .bad else .more) ∧
    ((frames R stream).bad = false → b.1 = (frames R stream).rest) ∧
    ∃ tail : List Fault, b.2 = tail.foldl K.fault ((frames R stream).items.foldl K.item s) ∧
      tail.head? = if (frames R stream).bad then some .framing else none

theorem fed_nil (s : σ) : Fed R K s [] ([], s) := by
  have h : frames R [] = ⟨[], [], false⟩ := frames_more R.read_nil
  exact ⟨by rw [h]; exact R.read_nil, fun _ => by rw [h], [], by rw [h]; rfl, by rw [h]; rfl⟩

theorem Fed.receive {s : σ} {stream : List β} {b : List β × σ} (h : Fed R K s stream b) {limit size most : Nat}
    (hmore : ∀ l, R.read l = .more → l.length < size) (hlimit : size + most ≤ limit + 1) {chunk : List β}
    (hchunk : chunk.length ≤ most) : Fed R K s (stream ++ chunk) (receive R K limit b chunk) := by
  obtain ⟨hread, hrest, tail, hs, hhead⟩ := h
  cases hbad : (frames R stream).bad with
  | false =>
    rw [hbad] at hread hhead
    obtain rfl : tail = [] := by simpa using hhead
    have hlen := hmore b.1 (by simpa using hread)
    have happ : frames R (stream ++ chunk) = _ := frames_append stream chunk
    have hq : R.read (frames R ((frames R stream).rest ++ chunk)).rest = _ := read_rest _
    unfold Framing.receive
    rw [if_neg (by omega), drain_eq, hrest hbad]
    -- what is left is read on together with the chunk
    generalize frames R ((frames R stream).rest ++ chunk) = q at happ hq ⊢
    unfold Fed
    rw [happ, hs]
    refine ⟨hq, fun _ => rfl, ?_⟩
    cases q.bad with
    | false => exact ⟨[], by simp, rfl⟩
    | true => exact ⟨[.framing], by simp, rfl⟩
  | true =>
    rw [hbad] at hread hhead
    have happ : frames R (stream ++ chunk) = _ := frames_append stream chunk
    have hrest' : R.read (frames R stream).rest = .bad := (read_rest stream).trans (by rw [hbad]; rfl)
    rw [frames_append_of_bad hrest' chunk] at happ
    simp only [List.append_nil] at happ
    have hmoreBad : ∀ l, frames R l = ⟨[], l, true⟩ → (drain R K l b.2) = (l, K.fault b.2 .framing) := by
      intro l hl
      rw [drain_eq, hl]
      rfl
    have hne : ∀ f : Fault, (tail ++ [f]).head? = tail.head? := by
      intro f
      cases tail with
      | nil => cases hhead
      | cons _ _ => rfl
    unfold Framing.receive Fed
    rw [happ]
    refine ⟨?_, fun h => absurd h (by simp), ?_⟩
    · split
      · exact hread
      · rw [hmoreBad _ (frames_append_of_bad hread chunk)]
        exact (R.stable (by rw [hread]; simp) chunk).trans hread
    · split
      · exact ⟨tail ++ [.flood], by simp [hs], (hne _).trans hhead⟩
      · rw [hmoreBad _ (frames_append_of_bad hread chunk)]
        exact ⟨tail ++ [.framing], by simp [hs], (hne _).trans hhead⟩

/-- The frames do not depend on the chunks, and the buffer is not full before a bad frame. -/
theorem fed_chunks (s : σ) {limit size most : Nat} (hmore : ∀ l, R.read l = .more → l.length < size)
    (hlimit : size + most ≤ limit + 1) (chunks : List (List β))
    (hchunks : ∀ chunk ∈ chunks, chunk.length ≤ most) :
    Fed R K s chunks.flatten (chunks.foldl (receive R K limit) ([], s)) := by
  induction chunks using List.reverseRecOn with
  | nil => exact fed_nil s
  | append_singleton chunks chunk ih =>
    rw [List.foldl_append, List.flatten_append, List.flatten_singleton]
    exact (ih fun c hc => hchunks c (by simp [hc])).receive hmore hlimit (hchunks chunk (by simp))

end

end Framing
