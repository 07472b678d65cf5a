import UnicityPow.Sha256
import UnicityPow.WireSound

/-!
# The transformations of the hasher

The rounds written out compute the rounds of the standard: at each the names have moved on by one, and
`w0` to `w15` hold the last sixteen words of the schedule.
-/

namespace UnicityPow

open Fips180 (Var State K W)

namespace SHA256

/-! ## Bytes -/

theorem Fips180_ofBytes_eq (l : List UInt8) : Fips180.ofBytes l = ofBytes (l.reverse.map UInt8.toNat) := by
  induction l using List.reverseRecOn with
  | nil => rfl
  | append_singleton l b ih =>
    unfold Fips180.ofBytes ofBytes at ih ⊢
    rw [List.foldl_append, ih, List.reverse_append, List.reverse_singleton, List.singleton_append, List.map_cons,
      Nat.ofDigits_cons, List.foldl_cons, List.foldl_nil, Nat.add_comm]

theorem readBE_eq (w : Nat) (l : List UInt8) : readBE w l = BitVec.ofNat w (Fips180.ofBytes l) :=
  congrArg _ (Fips180_ofBytes_eq l).symm

theorem Fips180_toBytes_succ (n v : Nat) :
    Fips180.toBytes (n + 1) v = Fips180.toBytes n (v / 256) ++ [UInt8.ofNat v] := by
  unfold Fips180.toBytes
  rw [List.range_succ, List.map_append]
  congr 1
  · refine List.map_congr_left fun i hi => ?_
    have hn : n + 1 - 1 - i = n - 1 - i + 1 := by
      have := List.mem_range.mp hi
      omega
    rw [hn, Nat.pow_succ', Nat.div_div_eq_div_mul]
  · simp

theorem Fips180_toBytes_eq (n v : Nat) : Fips180.toBytes n v = ((toBytes n v).map UInt8.ofNat).reverse := by
  induction n generalizing v with
  | zero => rfl
  | succ n ih =>
    rw [Fips180_toBytes_succ, ih, toBytes, List.map_cons, List.reverse_cons]
    congr 2
    exact UInt8.toNat_inj.mp (by simp)

theorem writeBE_eq {w : Nat} (n : Nat) (v : BitVec w) : writeBE n v = Fips180.toBytes n v.toNat :=
  (Fips180_toBytes_eq n v.toNat).symm

/-- Only the bytes that are written count. -/
theorem Fips180_toBytes_mod (n v : Nat) : Fips180.toBytes n (v % 256 ^ n) = Fips180.toBytes n v := by
  rw [Fips180_toBytes_eq, Fips180_toBytes_eq, ← ofBytes_toBytes]
  congr 2
  have hlen := toBytes_ofBytes (toBytes n v) fun b hb => toBytes_lt hb
  rwa [toBytes_length] at hlen

theorem writeState_eq (s : State) : writeState s = Fips180.digest s :=
  List.flatMap_congr fun x _ => writeBE_eq 4 x

/-! ## Functions on words -/

theorem ch_eq (x y z : Word) : ch x y z = Fips180.ch x y z := by
  ext i hi
  cases hx : x[i] <;> cases hy : y[i] <;> simp [ch, Fips180.ch, hx, hy]

theorem maj_eq (x y z : Word) : maj x y z = Fips180.maj x y z := by
  ext i hi
  cases hx : x[i] <;> cases hy : y[i] <;> simp [maj, Fips180.maj, hx, hy]

theorem Sigma0_eq (x : Word) : Sigma0 x = Fips180.bigSigma0 x := by
  simp [Sigma0, Fips180.bigSigma0, Fips180.rotr, BitVec.rotateRight_def]

theorem Sigma1_eq (x : Word) : Sigma1 x = Fips180.bigSigma1 x := by
  simp [Sigma1, Fips180.bigSigma1, Fips180.rotr, BitVec.rotateRight_def]

theorem sigma0_eq (x : Word) : sigma0 x = Fips180.smallSigma0 x := by
  simp [sigma0, Fips180.smallSigma0, Fips180.rotr, Fips180.shr, BitVec.rotateRight_def]

theorem sigma1_eq (x : Word) : sigma1 x = Fips180.smallSigma1 x := by
  simp [sigma1, Fips180.smallSigma1, Fips180.rotr, Fips180.shr, BitVec.rotateRight_def]

theorem initializeState_eq : initializeState = Fips180.initial := rfl

/-! ## Names -/

theorem before_injective : Function.Injective before := by
  intro x y h
  cases x <;> cases y <;> first | rfl | cases h

theorem before_iterate_eq_iff {i : Nat} {x y : Var} : before^[i] x = before^[i] y ↔ x = y :=
  (before_injective.iterate i).eq_iff

theorem before_iterate_64 (x : Var) : before^[64] x = x := by
  cases x <;> rfl

/-- A round under the names of its turn is a round of the standard. -/
theorem round_eq {i : Nat} {k : Arg} {l : Locals} {v : State} (hk : (k l).1.reg = l.reg)
    (h : ∀ x, l.reg (before^[i] x) = v.get x) (x : Var) :
    (round (before^[i] .a) (before^[i] .b) (before^[i] .c) (before^[i] .d) (before^[i] .e) (before^[i] .f)
      (before^[i] .g) (before^[i] .h) k l).reg (before^[i + 1] x) = (Fips180.step (k l).2 v).get x := by
  simp only [round, hk, h, Function.update_apply, Function.iterate_succ_apply, before_iterate_eq_iff,
    ch_eq, maj_eq, Sigma0_eq, Sigma1_eq]
  cases x <;> simp [before, Fips180.step, State.get]

/-! ## Running the rounds -/

/-- A line adds the right sum when the slots are as they should be at its turn, and leaves them so for
the next. -/
structure Meets (P : Nat → (Nat → Word) → Prop) (kw : Nat → Word) (t : Nat) (k : Arg) : Prop where
  reg : ∀ l, (k l).1.reg = l.reg
  value : ∀ l, P t l.w → (k l).2 = kw t
  next : ∀ l, P t l.w → P (t + 1) (k l).1.w

def AllMeet (P : Nat → (Nat → Word) → Prop) (kw : Nat → Word) : Nat → List Arg → Prop
  | _, [] => True
  | t, k :: ks => Meets P kw t k ∧ AllMeet P kw (t + 1) ks

section
variable {P : Nat → (Nat → Word) → Prop} {kw : Nat → Word}

theorem AllMeet.append {t : Nat} {ks ks' : List Arg} (h : AllMeet P kw t ks)
    (h' : AllMeet P kw (t + ks.length) ks') :
    AllMeet P kw t (ks ++ ks') := by
  induction ks generalizing t with
  | nil => exact h'
  | cons k ks ih =>
    refine ⟨h.1, ih h.2 ?_⟩
    rwa [List.length_cons, Nat.add_comm ks.length, ← Nat.add_assoc] at h'

theorem AllMeet.map {f : Nat → Arg} {t n : Nat} (h : ∀ s, t ≤ s → s < t + n → Meets P kw s (f s)) :
    AllMeet P kw t ((List.range' t n).map f) := by
  induction n generalizing t with
  | zero => trivial
  | succ n ih => exact ⟨h t le_rfl (by omega), ih fun s hs hlt => h s (by omega) (by omega)⟩

theorem rounds_eq {ks : List Arg} {t : Nat} {l : Locals} {v : State} (hks : AllMeet P kw t ks) (hP : P t l.w)
    (h : ∀ x, l.reg (before^[t] x) = (Fips180.rounds kw v t).get x) :
    (∀ x, (rounds t ks l).reg (before^[t + ks.length] x) = (Fips180.rounds kw v (t + ks.length)).get x) := by
  induction ks generalizing t l with
  | nil => exact h
  | cons k ks ih =>
    obtain ⟨hk, hks⟩ := hks
    have hround := round_eq (hk.reg l) h
    rw [hk.value l hP] at hround
    have hrest := ih (l := round _ _ _ _ _ _ _ _ k l) hks (hk.next l hP) hround
    rwa [Nat.add_assoc, Nat.add_comm 1] at hrest

/-- 64 rounds come back to the names they began with. -/
theorem rounds_64 {ks : List Arg} {l : Locals} (v : State) (hks : AllMeet P kw 0 ks) (hlen : ks.length = 64)
    (hP : P 0 l.w) (h : ∀ x, l.reg x = v.get x) (x : Var) :
    (rounds 0 ks l).reg x = (Fips180.rounds kw v 64).get x := by
  have hrun := rounds_eq hks hP h x
  rwa [Nat.zero_add, hlen, before_iterate_64] at hrun

end

/-! ## The slots -/

/-- Which words of the schedule are in the slots at turn `t`: of the first `m` and of those from `n` on, the
last sixteen. The last two lines store nothing. -/
def Live (m n t s : Nat) : Prop := (s < m ∨ n ≤ s ∧ s < min t 62) ∧ min t 62 ≤ s + 16

def Slots (M : Nat → Word) (m n t : Nat) (w : Nat → Word) : Prop := ∀ s, Live m n t s → w (s % 16) = W M s

/-- The sums that the rounds are to add. -/
def sums (M : Nat → Word) (t : Nat) : Word := K t + W M t

section
variable {M : Nat → Word} {m n t : Nat}

theorem meets_assign (hm : m ≤ n) (hn : n ≤ t) (ht : t < 62) {x : Locals → Word}
    (hx : ∀ l, Slots M m n t l.w → x l = W M t) : Meets (Slots M m n) (sums M) t (assign (K t) (t % 16) x) where
  reg _ := rfl
  value l h := congrArg (K t + ·) (hx l h)
  next l h s hs := by
    obtain rfl | hst := eq_or_ne s t
    · exact (Function.update_self ..).trans (hx l h)
    · have hslot : s % 16 ≠ t % 16 := by
        unfold Live at hs
        omega
      refine (Function.update_of_ne hslot ..).trans (h s ?_)
      unfold Live at hs ⊢
      omega

theorem meets_plus (ht : t < n ∨ 62 ≤ t) {x : Locals → Word} (hx : ∀ l, Slots M m n t l.w → x l = W M t) :
    Meets (Slots M m n) (sums M) t (plus (K t) x) where
  reg _ := rfl
  value l h := congrArg (K t + ·) (hx l h)
  next l h s hs := h s (by unfold Live at hs ⊢; omega)

theorem meets_const (ht : t < n ∨ 62 ≤ t) : Meets (Slots M m n) (sums M) t (const (sums M t)) where
  reg _ := rfl
  value _ _ := rfl
  next l h s hs := h s (by unfold Live at hs ⊢; omega)

/-- What most lines add: the next word of the schedule. -/
theorem W_eq_slots (hn : n + 16 ≤ t) (ht : t < 64) {w : Nat → Word} (h : Slots M m n t w) :
    W M t = w (t % 16) + (sigma1 (w ((t - 2) % 16)) + w ((t - 7) % 16) + sigma0 (w ((t - 15) % 16))) := by
  have hword : ∀ d, t - 16 ≤ t - d → 0 < d → (62 < t → 1 < d) → w ((t - d) % 16) = W M (t - d) := by
    intro d hd hpos hlast
    refine h _ ?_
    unfold Live
    omega
  have h16 : w (t % 16) = W M (t - 16) := by
    rw [← hword 16 (by omega) (by omega) (by omega)]
    congr 1
    omega
  rw [Fips180.W_of_le M (by omega), h16, hword 2 (by omega) (by omega) (by omega),
    hword 7 (by omega) (by omega) (by omega), hword 15 (by omega) (by omega) (by omega), sigma0_eq, sigma1_eq,
    BitVec.add_comm]

end

/-! ## The lines -/

def line (t : Nat) : Arg := addTo (K t) (t % 16) (mix ((t - 2) % 16) ((t - 7) % 16) ((t - 15) % 16))

theorem rounds0_eq (chunk : List UInt8) :
    rounds0 chunk = (List.range' 0 16).map fun t => load chunk (K t) (t % 16) (4 * t) := rfl

theorem rounds16_eq : rounds16 = (List.range' 16 16).map line := rfl

theorem rounds32_eq : rounds32 = (List.range' 32 16).map line := rfl

theorem rounds48_eq : rounds48 = (List.range' 48 14).map line ++
    [plus (K 62) fun l => l.w 14 + sigma1 (l.w 12) + l.w 7 + sigma0 (l.w 15),
      plus (K 63) fun l => l.w 15 + sigma1 (l.w 13) + l.w 8 + sigma0 (l.w 0)] := rfl

section
variable {M : Nat → Word} {m n : Nat}

theorem meets_line (hm : m ≤ n) {t : Nat} (hn : n + 16 ≤ t) (ht : t < 62) :
    Meets (Slots M m n) (sums M) t (line t) :=
  meets_assign hm (by omega) ht fun _ h => (W_eq_slots hn (by omega) h).symm

theorem allMeet_lines (hm : m ≤ n) {t k : Nat} (hn : n + 16 ≤ t) (hk : t + k ≤ 62) :
    AllMeet (Slots M m n) (sums M) t ((List.range' t k).map line) :=
  AllMeet.map fun _ _ _ => meets_line hm (by omega) (by omega)

theorem allMeet_rounds48 (hm : m ≤ n) (hn : n ≤ 32) : AllMeet (Slots M m n) (sums M) 48 rounds48 := by
  have h62 : Meets (Slots M m n) (sums M) 62
      (plus (K 62) fun l => l.w 14 + sigma1 (l.w 12) + l.w 7 + sigma0 (l.w 15)) := by
    refine meets_plus (by omega) fun l h => ?_
    calc
      _ = l.w 14 + (sigma1 (l.w 12) + l.w 7 + sigma0 (l.w 15)) := by ac_rfl
      _ = W M 62 := (W_eq_slots (by omega) (by omega) h).symm
  have h63 : Meets (Slots M m n) (sums M) 63
      (plus (K 63) fun l => l.w 15 + sigma1 (l.w 13) + l.w 8 + sigma0 (l.w 0)) := by
    refine meets_plus (by omega) fun l h => ?_
    calc
      _ = l.w 15 + (sigma1 (l.w 13) + l.w 8 + sigma0 (l.w 0)) := by ac_rfl
      _ = W M 63 := (W_eq_slots (by omega) (by omega) h).symm
  rw [rounds48_eq]
  exact (allMeet_lines hm (by omega) (by omega)).append ⟨h62, h63, trivial⟩

/-- The rounds from the 32nd on are those of every transformation. -/
theorem allMeet_last (hm : m ≤ n) (hn : n ≤ 16) : AllMeet (Slots M m n) (sums M) 32 (rounds32 ++ rounds48) := by
  rw [rounds32_eq]
  exact (allMeet_lines hm (by omega) (by omega)).append (allMeet_rounds48 hm (by omega))

end

theorem word_eq {chunk : List UInt8} {t : Nat} (ht : t < 16) :
    readBE32 (chunk.drop (4 * t)) = Fips180.word (chunk.take 64) t := by
  rw [readBE32, readBE_eq, Fips180.word, List.drop_take, List.take_take, Nat.min_eq_left (by omega)]

theorem allMeet_allRounds (chunk : List UInt8) : AllMeet (Slots (Fips180.word (chunk.take 64)) 0 0)
    (sums (Fips180.word (chunk.take 64))) 0 (allRounds chunk) := by
  generalize hM : Fips180.word (chunk.take 64) = M
  have h0 : AllMeet (Slots M 0 0) (sums M) 0 (rounds0 chunk) := by
    rw [rounds0_eq]
    refine AllMeet.map fun t _ ht => meets_assign le_rfl (by omega) (by omega) fun l _ => ?_
    rw [word_eq (by omega), hM, Fips180.W_of_lt _ (by omega)]
  have h16 : AllMeet (Slots M 0 0) (sums M) 16 rounds16 := by
    rw [rounds16_eq]
    exact allMeet_lines le_rfl (by omega) (by omega)
  unfold allRounds
  rw [List.append_assoc (_ ++ _), List.append_assoc]
  exact h0.append (h16.append (allMeet_last le_rfl (by decide)))

theorem rounds_allRounds (s : State) (chunk : List UInt8) (w : Nat → Word) (x : Var) :
    (rounds 0 (allRounds chunk) { reg := s.get, w := w }).reg x =
      (Fips180.rounds (sums (Fips180.word (chunk.take 64))) s 64).get x :=
  rounds_64 s (allMeet_allRounds chunk) rfl (fun _ hs => absurd hs (by unfold Live; omega)) (fun _ => rfl) x

theorem compress_eq (s : State) (block : List UInt8) :
    Fips180.compress s block = s.map fun x y => y + (Fips180.rounds (sums (Fips180.word block)) s 64).get x :=
  Fips180.compressWords_eq s _

theorem transform_succ (s : State) (chunk : List UInt8) (blocks : Nat) :
    transform s chunk (blocks + 1) = transform (Fips180.compress s (chunk.take 64)) (chunk.drop 64) blocks := by
  simp only [transform, rounds_allRounds, compress_eq]

/-! ## The transformation of two hashes -/

/-- The words of the padding after a message of 64 bytes. -/
def padding64 : Nat → Word := Fips180.word (Fips180.padding 64)

theorem secondRounds_eq : secondRounds = (List.range' 0 64).map fun t => const (sums padding64 t) := by
  have hconst : secondRounds = ((List.range' 0 64).map (sums padding64)).map const :=
    congrArg (List.map const) (by decide +kernel)
  rw [hconst, List.map_map]
  rfl

theorem rounds_secondRounds (l : Locals) (v : State) (h : ∀ x, l.reg x = v.get x) (x : Var) :
    (rounds 0 secondRounds l).reg x = (Fips180.rounds (sums padding64) v 64).get x := by
  have hmeet : AllMeet (Slots padding64 0 64) (sums padding64) 0 secondRounds := by
    rw [secondRounds_eq]
    exact AllMeet.map fun t _ ht => meets_const (by omega)
  exact rounds_64 v hmeet rfl (fun _ hs => absurd hs (by unfold Live; omega)) h x

/-- The last words of the block of a hash and its padding. -/
def padding32 (s : Nat) : Word := if s = 8 then 0x80000000 else if s = 15 then 0x100 else 0

def IsPadded (M : Nat → Word) : Prop := ∀ s, 8 ≤ s → s < 16 → M s = padding32 s

/-- The word `s` of the schedule while `w8` to `w15` are not in use. -/
def kept (w : Nat → Word) (s : Nat) : Word := if 8 ≤ s ∧ s < 16 then padding32 s else w (s % 16)

section
variable {M : Nat → Word} (hM : IsPadded M) {t : Nat}
include hM

theorem IsPadded.W_eq {s : Nat} (h8 : 8 ≤ s) (h16 : s < 16) : W M s = padding32 s := by
  rw [Fips180.W_of_lt M h16, hM s h8 h16]

theorem IsPadded.W_eq_kept {s : Nat} {w : Nat → Word} (h : Slots M 8 16 t w)
    (hs : Live 8 16 t s ∨ 8 ≤ s ∧ s < 16) :
    W M s = kept w s := by
  unfold kept
  by_cases hin : 8 ≤ s ∧ s < 16
  · rw [if_pos hin, hM.W_eq hin.1 hin.2]
  · rw [if_neg hin, h s (hs.resolve_right hin)]

theorem IsPadded.meets_assign (h16 : 16 ≤ t) (ht : t < 32) {x : Locals → Word}
    (hx : ∀ l, x l =
      sigma1 (kept l.w (t - 2)) + kept l.w (t - 7) + sigma0 (kept l.w (t - 15)) + kept l.w (t - 16)) :
    Meets (Slots M 8 16) (sums M) t (assign (K t) (t % 16) x) :=
  SHA256.meets_assign (by decide) h16 (by omega) fun l h => by
    have hword : ∀ d, 1 < d → d ≤ 16 → W M (t - d) = kept l.w (t - d) := fun d hd hd' =>
      hM.W_eq_kept h (by unfold Live; omega)
    rw [Fips180.W_of_le M h16, hx, hword 2 (by decide) (by decide), hword 7 (by decide) (by decide),
      hword 15 (by decide) (by decide), hword 16 (by decide) (by decide), sigma0_eq, sigma1_eq]

theorem IsPadded.meets_const {k : Word} (h8 : 8 ≤ t) (ht : t < 16) (hk : k = K t + padding32 t) :
    Meets (Slots M 8 16) (sums M) t (const k) := by
  have hsum : k = sums M t := by
    rw [hk, sums, hM.W_eq h8 ht]
  rw [hsum]
  exact SHA256.meets_const (Or.inl ht)

theorem IsPadded.allMeet_thirdRounds : AllMeet (Slots M 8 16) (sums M) 0 thirdRounds := by
  have hplus : ∀ t < 8, Meets (Slots M 8 16) (sums M) t (plus (K t) fun l => l.w t) := fun t ht =>
    meets_plus (by omega) fun l h => by
      rw [← h t (by unfold Live; omega), Nat.mod_eq_of_lt (by omega)]
  -- the words of the padding and what they are mixed to are constants of the lines
  have hmix : sigma0 0#32 = 0#32 ∧ sigma0 0x100#32 = 0x400022 ∧ sigma0 0x80000000#32 = 0x11002000 ∧
      sigma1 0#32 = 0#32 ∧ sigma1 0x100#32 = 0xa00000 := by decide
  refine ⟨hplus 0 (by decide), hplus 1 (by decide), hplus 2 (by decide), hplus 3 (by decide), hplus 4 (by decide),
    hplus 5 (by decide), hplus 6 (by decide), hplus 7 (by decide),
    hM.meets_const (by decide) (by decide) (by decide), hM.meets_const (by decide) (by decide) (by decide),
    hM.meets_const (by decide) (by decide) (by decide), hM.meets_const (by decide) (by decide) (by decide),
    hM.meets_const (by decide) (by decide) (by decide), hM.meets_const (by decide) (by decide) (by decide),
    hM.meets_const (by decide) (by decide) (by decide), hM.meets_const (by decide) (by decide) (by decide),
    ?_, ?_, ?_, ?_, ?_, ?_, ?_, ?_, ?_, ?_, ?_, ?_, ?_, ?_, ?_, ?_, trivial⟩
  all_goals
    refine hM.meets_assign (by decide) (by decide) fun l => ?_
    simp [kept, padding32, hmix]
  all_goals ac_rfl

end

theorem word_toBytes (x : Word) (r : List UInt8) : Fips180.word (Fips180.toBytes 4 x.toNat ++ r) 0 = x := by
  rw [Fips180.word, Nat.mul_zero, List.drop_zero, List.take_left' (Fips180.length_toBytes ..), ← readBE_eq,
    ← writeBE_eq, readBE_writeBE (by decide)]

theorem word_succ {b : List UInt8} (hb : b.length = 4) (r : List UInt8) (i : Nat) :
    Fips180.word (b ++ r) (i + 1) = Fips180.word r i := by
  rw [Fips180.word, Nat.mul_succ, Nat.add_comm, ← List.drop_drop, List.drop_left' hb, Fips180.word]

/-- Words that are written and read back. -/
theorem word_flatMap (l : List Word) (r : List UInt8) (i : Nat) :
    Fips180.word (l.flatMap (fun x => Fips180.toBytes 4 x.toNat) ++ r) i =
      l.getD i (Fips180.word r (i - l.length)) := by
  induction l generalizing i with
  | nil => rfl
  | cons x l ih =>
    rw [List.flatMap_cons, List.append_assoc]
    cases i with
    | zero => exact word_toBytes x _
    | succ i =>
      rw [word_succ (Fips180.length_toBytes ..), ih, List.length_cons, Nat.add_sub_add_right]
      rfl

theorem isPadded_digest (H : State) : IsPadded (Fips180.word (Fips180.digest H ++ Fips180.padding 32)) := by
  have hlast : ∀ s < 16, 8 ≤ s → Fips180.word (Fips180.padding 32) (s - 8) = padding32 s := by decide +kernel
  intro s h8 h16
  rw [Fips180.digest, word_flatMap, List.getD_eq_default _ _ h8]
  exact hlast s h16 h8

/-- The standard on one block, and on the hash of a block. -/
theorem sha256_block {m : List UInt8} (h : m.length = 64) : Fips180.sha256 m =
    Fips180.digest (Fips180.compress (Fips180.compress Fips180.initial m) (Fips180.padding 64)) := by
  rw [Fips180.sha256, h, Blockwise.consume_block _ (by decide) h,
    Blockwise.consume_full _ (by decide) (by decide)]

theorem sha256_digest (H : State) : Fips180.sha256 (Fips180.digest H) =
    Fips180.digest (Fips180.compress Fips180.initial (Fips180.digest H ++ Fips180.padding 32)) := by
  have hlen : (Fips180.digest H ++ Fips180.padding 32).length = 64 := by
    rw [List.length_append, Fips180.length_digest]
    decide
  rw [Fips180.sha256, Fips180.length_digest, Blockwise.consume_full _ (by decide) hlen]

theorem transformD64_eq {chunk : List UInt8} (h : 64 ≤ chunk.length) :
    transformD64 chunk = Fips180.sha256 (Fips180.sha256 (chunk.take 64)) := by
  rw [sha256_block (List.length_take_of_le h), sha256_digest]
  obtain ⟨t, ht⟩ : ∃ t, t = Fips180.compress Fips180.initial (chunk.take 64) := ⟨_, rfl⟩
  have hfirst : (initializeState.map fun x y => (rounds 0 (allRounds chunk)
      { reg := initializeState.get, w := fun _ => 0 }).reg x + y) = t := by
    simp only [ht, compress_eq, rounds_allRounds, BitVec.add_comm, initializeState_eq]
  unfold transformD64
  dsimp only
  rw [hfirst, ← ht, writeState_eq, compress_eq Fips180.initial]
  have hsecond : ∀ w x, (rounds 0 secondRounds { reg := t.get, w := w }).reg x =
      (Fips180.rounds (sums padding64) t 64).get x := fun w => rounds_secondRounds _ t fun _ => rfl
  simp only [hsecond]
  congr 2
  funext x y
  rw [BitVec.add_comm]
  congr 1
  refine rounds_64 Fips180.initial
    ((isPadded_digest _).allMeet_thirdRounds.append (allMeet_last (by decide) (by decide))) rfl ?_ (fun _ => rfl) x
  -- the first slots are the words of the first hash
  intro s hs
  have h8 : s < 8 := by
    unfold Live at hs
    omega
  rw [Fips180.W_of_lt _ (by omega), Fips180.digest, word_flatMap, compress_eq]
  interval_cases s <;> rfl

theorem transform_one (s : State) (chunk : List UInt8) :
    transform s chunk 1 = Fips180.compress s (chunk.take 64) :=
  transform_succ s chunk 0

theorem transformD64Wrapper_eq {tr : State → List UInt8 → Nat → State}
    (htr : ∀ s block, tr s block 1 = Fips180.compress s (block.take 64))
    {chunk : List UInt8} (h : 64 ≤ chunk.length) :
    transformD64Wrapper tr chunk = Fips180.sha256 (Fips180.sha256 (chunk.take 64)) := by
  have h64 : (0x80 : UInt8) :: List.replicate 61 0 ++ [2, 0] = Fips180.padding 64 := by decide +kernel
  have h32 : (0x80 : UInt8) :: List.replicate 29 0 ++ [1, 0] = Fips180.padding 32 := by decide +kernel
  have hpad : (Fips180.padding 64).take 64 = Fips180.padding 64 := List.take_of_length_le (by decide)
  have hhash : ∀ H, (Fips180.digest H ++ Fips180.padding 32).take 64 =
      Fips180.digest H ++ Fips180.padding 32 := by
    refine fun H => List.take_of_length_le ?_
    rw [List.length_append, Fips180.length_digest]
    decide
  rw [sha256_block (List.length_take_of_le h), sha256_digest]
  unfold transformD64Wrapper
  dsimp only
  rw [List.append_assoc, h64, h32, htr, htr, htr, writeState_eq, writeState_eq, initializeState_eq, hpad, hhash]

theorem d64_eq {blocks : Nat} {chunk : List UInt8} (h : 64 * blocks ≤ chunk.length) :
    d64 blocks chunk =
      (List.range blocks).flatMap fun i => Fips180.sha256 (Fips180.sha256 ((chunk.drop (64 * i)).take 64)) := by
  induction blocks generalizing chunk with
  | zero => rfl
  | succ blocks ih =>
    rw [d64, transformD64_eq (by omega), ih (by rw [List.length_drop]; omega), List.range_succ_eq_map,
      List.flatMap_cons, List.flatMap_map]
    simp only [List.drop_drop, Nat.mul_zero, List.drop_zero, Nat.mul_succ, Nat.add_comm]

end SHA256

end UnicityPow
