import Mathlib.Data.List.GetD
import UnicityPow.Blockwise

/-!
# SHA-256

The hash function of FIPS 180-4: its functions on words, the schedule of a block, the compression of a
state with a block, and the padding of a message.
-/

namespace Fips180

abbrev Word := BitVec 32

/-! ## Functions and constants -/

def rotr (n : Nat) (x : Word) : Word := x.rotateRight n

def shr (n : Nat) (x : Word) : Word := x >>> n

def ch (x y z : Word) : Word := (x &&& y) ^^^ (~~~x &&& z)

def maj (x y z : Word) : Word := (x &&& y) ^^^ (x &&& z) ^^^ (y &&& z)

def bigSigma0 (x : Word) : Word := rotr 2 x ^^^ rotr 13 x ^^^ rotr 22 x

def bigSigma1 (x : Word) : Word := rotr 6 x ^^^ rotr 11 x ^^^ rotr 25 x

def smallSigma0 (x : Word) : Word := rotr 7 x ^^^ rotr 18 x ^^^ shr 3 x

def smallSigma1 (x : Word) : Word := rotr 17 x ^^^ rotr 19 x ^^^ shr 10 x

/-- The first bits of the fractional parts of the cube roots of the first 64 primes. -/
def constants : List Word :=
  [0x428a2f98, 0x71374491, 0xb5c0fbcf, 0xe9b5dba5, 0x3956c25b, 0x59f111f1, 0x923f82a4, 0xab1c5ed5,
   0xd807aa98, 0x12835b01, 0x243185be, 0x550c7dc3, 0x72be5d74, 0x80deb1fe, 0x9bdc06a7, 0xc19bf174,
   0xe49b69c1, 0xefbe4786, 0x0fc19dc6, 0x240ca1cc, 0x2de92c6f, 0x4a7484aa, 0x5cb0a9dc, 0x76f988da,
   0x983e5152, 0xa831c66d, 0xb00327c8, 0xbf597fc7, 0xc6e00bf3, 0xd5a79147, 0x06ca6351, 0x14292967,
   0x27b70a85, 0x2e1b2138, 0x4d2c6dfc, 0x53380d13, 0x650a7354, 0x766a0abb, 0x81c2c92e, 0x92722c85,
   0xa2bfe8a1, 0xa81a664b, 0xc24b8b70, 0xc76c51a3, 0xd192e819, 0xd6990624, 0xf40e3585, 0x106aa070,
   0x19a4c116, 0x1e376c08, 0x2748774c, 0x34b0bcb5, 0x391c0cb3, 0x4ed8aa4a, 0x5b9cca4f, 0x682e6ff3,
   0x748f82ee, 0x78a5636f, 0x84c87814, 0x8cc70208, 0x90befffa, 0xa4506ceb, 0xbef9a3f7, 0xc67178f2]

def K (t : Nat) : Word := constants.getD t 0

/-- The first primes: every composite number below `18 ^ 2` has a factor below 18. -/
def primes : List Nat := (List.range 312).filter fun n =>
  1 < n && (List.range 18).all fun d => d ≤ 1 || d = n || n % d ≠ 0

/-- Each constant is the fraction of a cube root: with its integer part `r` it is the root of the prime
scaled by `2 ^ 32`, rounded down. -/
theorem constants_are_roots : ∀ x ∈ primes.zip constants, ∃ r < 7,
    (2 ^ 32 * r + x.2.toNat) ^ 3 ≤ x.1 * 2 ^ 96 ∧ x.1 * 2 ^ 96 < (2 ^ 32 * r + x.2.toNat + 1) ^ 3 := by
  decide +kernel

/-! ## One block -/

/-- The working variables. -/
inductive Var
  | a | b | c | d | e | f | g | h
deriving DecidableEq

/-- A value for each working variable: a state. -/
@[ext]
structure State where
  a : Word
  b : Word
  c : Word
  d : Word
  e : Word
  f : Word
  g : Word
  h : Word
deriving DecidableEq

namespace State

def get (v : State) : Var → Word
  | .a => v.a
  | .b => v.b
  | .c => v.c
  | .d => v.d
  | .e => v.e
  | .f => v.f
  | .g => v.g
  | .h => v.h

def toList (v : State) : List Word := [v.a, v.b, v.c, v.d, v.e, v.f, v.g, v.h]

/-- What each variable is changed to. -/
def map (v : State) (f : Var → Word → Word) : State where
  a := f .a v.a
  b := f .b v.b
  c := f .c v.c
  d := f .d v.d
  e := f .e v.e
  f := f .f v.f
  g := f .g v.g
  h := f .h v.h

@[simp] theorem get_map (v : State) (f : Var → Word → Word) (x : Var) : (v.map f).get x = f x (v.get x) := by
  cases x <;> rfl

end State

/-- The first bits of the fractional parts of the square roots of the first eight primes. -/
def initial : State where
  a := 0x6a09e667
  b := 0xbb67ae85
  c := 0x3c6ef372
  d := 0xa54ff53a
  e := 0x510e527f
  f := 0x9b05688c
  g := 0x1f83d9ab
  h := 0x5be0cd19

theorem initial_are_roots : ∀ x ∈ primes.zip initial.toList, ∃ r < 5,
    (2 ^ 32 * r + x.2.toNat) ^ 2 ≤ x.1 * 2 ^ 64 ∧ x.1 * 2 ^ 64 < (2 ^ 32 * r + x.2.toNat + 1) ^ 2 := by
  decide +kernel

/-- The first words of the message schedule of a block with the words `M`. -/
def schedule (M : Nat → Word) : Nat → List Word
  | 0 => []
  | t + 1 =>
    let l := schedule M t
    let W := fun i => l.getD i 0
    l ++ [if t < 16 then M t else smallSigma1 (W (t - 2)) + W (t - 7) + smallSigma0 (W (t - 15)) + W (t - 16)]

def W (M : Nat → Word) (t : Nat) : Word := (schedule M (t + 1)).getD t 0

section
variable (M : Nat → Word)

@[simp] theorem length_schedule (t : Nat) : (schedule M t).length = t := by
  induction t with
  | zero => rfl
  | succ t ih => simp [schedule, ih]

/-- A word of the schedule stays as it is. -/
theorem getD_schedule {t n : Nat} (h : t < n) : (schedule M n).getD t 0 = W M t := by
  induction n, Nat.succ_le_of_lt h using Nat.le_induction with
  | base => rfl
  | succ n hn ih =>
    have ht : t < (schedule M n).length := by rwa [length_schedule]
    rw [← ih hn, schedule, List.getD_append _ _ _ _ ht]

theorem W_of_lt {t : Nat} (h : t < 16) : W M t = M t := by
  simp [W, schedule, h]

theorem W_of_le {t : Nat} (h : 16 ≤ t) :
    W M t = smallSigma1 (W M (t - 2)) + W M (t - 7) + smallSigma0 (W M (t - 15)) + W M (t - 16) := by
  rw [← getD_schedule M (show t - 2 < t by omega), ← getD_schedule M (show t - 7 < t by omega),
    ← getD_schedule M (show t - 15 < t by omega), ← getD_schedule M (show t - 16 < t by omega)]
  simp [W, schedule, Nat.not_lt.mpr h]

end

/-- One round, with its constant and its word of the schedule in one sum. -/
def step (kw : Word) (v : State) : State :=
  let T1 := v.h + bigSigma1 v.e + ch v.e v.f v.g + kw
  let T2 := bigSigma0 v.a + maj v.a v.b v.c
  { a := T1 + T2, b := v.a, c := v.b, d := v.c, e := v.d + T1, f := v.e, g := v.f, h := v.g }

/-- The rounds with the given sums. -/
def rounds (kw : Nat → Word) (v : State) : Nat → State
  | 0 => v
  | t + 1 => step (kw t) (rounds kw v t)

theorem rounds_congr {kw kw' : Nat → Word} {n : Nat} (h : ∀ t < n, kw t = kw' t) (v : State) :
    rounds kw v n = rounds kw' v n := by
  induction n with
  | zero => rfl
  | succ n ih =>
    rw [rounds, rounds, ih fun t ht => h t (by omega), h n (by omega)]

/-- The next state from the words of a block. -/
def compressWords (H : State) (M : Nat → Word) : State :=
  let l := schedule M 64
  let v := rounds (fun t => K t + l.getD t 0) H 64
  H.map fun x y => y + v.get x

theorem compressWords_eq (H : State) (M : Nat → Word) :
    compressWords H M = H.map fun x y => y + (rounds (fun t => K t + W M t) H 64).get x := by
  unfold compressWords
  dsimp only
  rw [rounds_congr fun t ht => congrArg (K t + ·) (getD_schedule M ht)]

/-! ## Bytes, most significant first -/

def ofBytes (l : List UInt8) : Nat := l.foldl (fun n b => 256 * n + b.toNat) 0

def toBytes (n v : Nat) : List UInt8 := (List.range n).map fun i => UInt8.ofNat (v / 256 ^ (n - 1 - i))

def word (block : List UInt8) (i : Nat) : Word := BitVec.ofNat 32 (ofBytes ((block.drop (4 * i)).take 4))

def compress (H : State) (block : List UInt8) : State := compressWords H (word block)

/-! ## Messages -/

/-- The zero bytes that fill up the last block. -/
def fill (length : Nat) : Nat := (64 - (length + 9) % 64) % 64

/-- A one bit, zeros and the length in bits; the length of a message is taken modulo `2 ^ 64`. -/
def padding (length : Nat) : List UInt8 := 0x80 :: List.replicate (fill length) 0 ++ toBytes 8 (8 * length)

def digest (H : State) : List UInt8 := H.toList.flatMap fun x => toBytes 4 x.toNat

def sha256 (m : List UInt8) : List UInt8 :=
  digest (Blockwise.consume 64 compress initial (m ++ padding m.length)).1

example : sha256 [0x61, 0x62, 0x63] =
    [0xba, 0x78, 0x16, 0xbf, 0x8f, 0x01, 0xcf, 0xea, 0x41, 0x41, 0x40, 0xde, 0x5d, 0xae, 0x22, 0x23,
     0xb0, 0x03, 0x61, 0xa3, 0x96, 0x17, 0x7a, 0x9c, 0xb4, 0x10, 0xff, 0x61, 0xf2, 0x00, 0x15, 0xad] := by
  decide +kernel

@[simp] theorem length_toBytes (n v : Nat) : (toBytes n v).length = n := by simp [toBytes]

@[simp] theorem length_digest (H : State) : (digest H).length = 32 := by simp [digest, State.toList]

theorem length_padding (length : Nat) : (padding length).length = fill length + 9 := by
  simp [padding]

/-- Padding fills whole blocks. -/
theorem length_padded (m : List UInt8) : (m ++ padding m.length).length % 64 = 0 := by
  rw [List.length_append, length_padding, fill]
  omega

/-- It does so with the fewest zeros. -/
theorem fill_le {length k : Nat} (h : (length + 9 + k) % 64 = 0) : fill length ≤ k := by
  unfold fill
  omega

end Fips180
