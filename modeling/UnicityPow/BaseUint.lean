import UnicityPow.Uint

/-!
# Wide integers as arrays of digits

`base_uint<BITS>` holds `WIDTH` digits of 32 bits, least significant first, and computes in loops
over them.
-/

namespace UnicityPow

structure BaseUint (WIDTH : Nat) where
  pn : Vector (BitVec 32) WIDTH
deriving DecidableEq

namespace BaseUint

variable {WIDTH : Nat}

/-- `pn[i]`. -/
def digit (x : BaseUint WIDTH) (i : Nat) : BitVec 32 := x.pn[i]?.getD 0

/-- `pn[i] = v`. -/
def set (x : BaseUint WIDTH) (i : Nat) (v : BitVec 32) : BaseUint WIDTH := ⟨x.pn.setIfInBounds i v⟩

/-- `pn[i] |= v`. -/
def orDigit (x : BaseUint WIDTH) (i : Nat) (v : BitVec 32) : BaseUint WIDTH := x.set i (x.digit i ||| v)

def zero : BaseUint WIDTH := ⟨Vector.replicate WIDTH 0⟩

/-- The constructor from `uint64_t`. -/
def ofUint64 (b : BitVec 64) : BaseUint WIDTH := (zero.set 0 (b.setWidth 32)).set 1 ((b >>> 32).setWidth 32)

/-! ## Sums and products -/

def complement (x : BaseUint WIDTH) : BaseUint WIDTH := ⟨x.pn.map (~~~ ·)⟩

/-- `while (i < WIDTH && ++pn[i] == 0) i++`. -/
def incFrom : Nat → Nat → BaseUint WIDTH → BaseUint WIDTH
  | 0, _, x => x
  | fuel + 1, i, x =>
    if i < WIDTH then
      let x := x.set i (x.digit i + 1)
      if x.digit i = 0 then incFrom fuel (i + 1) x else x
    else x

def inc (x : BaseUint WIDTH) : BaseUint WIDTH := incFrom WIDTH 0 x

/-- `while (i < WIDTH && --pn[i] == max) i++`. -/
def decFrom : Nat → Nat → BaseUint WIDTH → BaseUint WIDTH
  | 0, _, x => x
  | fuel + 1, i, x =>
    if i < WIDTH then
      let x := x.set i (x.digit i - 1)
      if x.digit i = 0xffffffff#32 then decFrom fuel (i + 1) x else x
    else x

def dec (x : BaseUint WIDTH) : BaseUint WIDTH := decFrom WIDTH 0 x

def neg (x : BaseUint WIDTH) : BaseUint WIDTH := x.complement.inc

/-- The first `k` rounds of a loop that computes `n = carry + g(i, pn[i])` in 64 bits, keeps the low
half of `n` as `pn[i]` and carries the high half on. -/
def carryRounds (g : Nat → BitVec 32 → BitVec 64) (x : BaseUint WIDTH) (k : Nat) : BaseUint WIDTH × BitVec 64 :=
  k.fold (fun i _ s =>
    let n := s.2 + g i (s.1.digit i)
    (s.1.set i (n.setWidth 32), n >>> 32)) (x, 0)

/-- `operator+=`. -/
def add (x b : BaseUint WIDTH) : BaseUint WIDTH :=
  (carryRounds (fun i d => d.setWidth 64 + (b.digit i).setWidth 64) x WIDTH).1

/-- `operator-=`. -/
def sub (x b : BaseUint WIDTH) : BaseUint WIDTH := x.add b.neg

/-- `operator+=` with a `uint64_t`. -/
def addUint64 (x : BaseUint WIDTH) (b64 : BitVec 64) : BaseUint WIDTH := x.add (ofUint64 b64)

/-- `operator-=` with a `uint64_t`. -/
def subUint64 (x : BaseUint WIDTH) (b64 : BitVec 64) : BaseUint WIDTH := x.add (ofUint64 b64).neg

/-- `operator*=` by a `uint32_t`. -/
def mulUint32 (x : BaseUint WIDTH) (b32 : BitVec 32) : BaseUint WIDTH :=
  (carryRounds (fun _ d => b32.setWidth 64 * d.setWidth 64) x WIDTH).1

/-- The first `k` rounds of the inner loop of `operator*=`: `pn[j]` times the digits of `b`, added to `a`
from `j` on. -/
def mulRow (x b : BaseUint WIDTH) (j : Nat) (a : BaseUint WIDTH) (k : Nat) : BaseUint WIDTH × BitVec 64 :=
  k.fold (fun i _ s =>
    let n := s.2 + (s.1.digit (i + j)).setWidth 64 + (x.digit j).setWidth 64 * (b.digit i).setWidth 64
    (s.1.set (i + j) (n.setWidth 32), n >>> 32)) (a, 0)

/-- The first `k` rounds of the outer loop. -/
def mulRows (x b : BaseUint WIDTH) (k : Nat) : BaseUint WIDTH :=
  k.fold (fun j _ a => (mulRow x b j a (WIDTH - j)).1) zero

/-- `operator*=`. -/
def mul (x b : BaseUint WIDTH) : BaseUint WIDTH := mulRows x b WIDTH

/-! ## Shifts -/

/-- `operator<<=`. -/
def shiftLeft (a : BaseUint WIDTH) (shift : Nat) : BaseUint WIDTH :=
  let k := shift / 32
  let shift := shift % 32
  WIDTH.fold (fun i _ x =>
    let x := if i + k + 1 < WIDTH ∧ shift ≠ 0 then x.orDigit (i + k + 1) (a.digit i >>> (32 - shift)) else x
    if i + k < WIDTH then x.orDigit (i + k) (a.digit i <<< shift) else x) zero

/-- `operator>>=`. -/
def shiftRight (a : BaseUint WIDTH) (shift : Nat) : BaseUint WIDTH :=
  let k := shift / 32
  let shift := shift % 32
  WIDTH.fold (fun i _ x =>
    let x := if k + 1 ≤ i ∧ shift ≠ 0 then x.orDigit (i - k - 1) (a.digit i <<< (32 - shift)) else x
    if k ≤ i then x.orDigit (i - k) (a.digit i >>> shift) else x) zero

/-! ## Comparisons and lengths -/

/-- The loop of `CompareTo` over the digits below `n`, from the top. -/
def compareBelow (a b : BaseUint WIDTH) : Nat → Int
  | 0 => 0
  | i + 1 =>
    if a.digit i < b.digit i then -1
    else if a.digit i > b.digit i then 1
    else compareBelow a b i

def compareTo (a b : BaseUint WIDTH) : Int := compareBelow a b WIDTH

/-- `EqualTo`, the comparison with a `uint64_t`. -/
def equalTo (a : BaseUint WIDTH) (b : BitVec 64) : Bool :=
  (List.range WIDTH).all (fun i => decide (i < 2) || a.digit i == 0) &&
    (a.digit 1).setWidth 64 == b >>> 32 && (a.digit 0).setWidth 64 == b &&& 0xffffffff#64

/-- The loop over `nbits`. -/
def topBit (v : BitVec 32) : Nat → Nat
  | 0 => 1
  | nbits + 1 => if v &&& 1#32 <<< (nbits + 1) ≠ 0 then nbits + 1 + 1 else topBit v nbits

/-- The loop of `bits` over the digits below `n`, from the top. -/
def bitsBelow (x : BaseUint WIDTH) : Nat → Nat
  | 0 => 0
  | pos + 1 => if x.digit pos ≠ 0 then 32 * pos + topBit (x.digit pos) 31 else bitsBelow x pos

def bits (x : BaseUint WIDTH) : Nat := bitsBelow x WIDTH

def getLow64 (x : BaseUint WIDTH) : BitVec 64 := (x.digit 0).setWidth 64 ||| (x.digit 1).setWidth 64 <<< 32

/-! ## Division -/

/-- `while (shift >= 0)`, with `shift + 1` rounds to go: the remainder and the quotient. -/
def divLoop : Nat → BaseUint WIDTH → BaseUint WIDTH → BaseUint WIDTH → BaseUint WIDTH × BaseUint WIDTH
  | 0, num, _, quotient => (num, quotient)
  | shift + 1, num, div, quotient =>
    if 0 ≤ num.compareTo div then
      divLoop shift (num.sub div) (div.shiftRight 1) (quotient.orDigit (shift / 32) (1#32 <<< (shift % 32)))
    else divLoop shift num (div.shiftRight 1) quotient

/-- `operator/=`; division by zero throws. -/
def div (x b : BaseUint WIDTH) : Option (BaseUint WIDTH) :=
  let numBits := x.bits
  let divBits := b.bits
  if divBits = 0 then none
  else if numBits < divBits then some zero
  else
    let shift := numBits - divBits
    some (divLoop (shift + 1) x (b.shiftLeft shift) zero).2

/-! ## Hexadecimal form -/

/-- The bytes of a blob that `WriteLE32` fills digit by digit. -/
def blobBytes (x : BaseUint WIDTH) : List Nat := (List.range WIDTH).flatMap fun i => toBytes 4 (x.digit i).toNat

/-- `GetHex`, through a blob. -/
def getHex (x : BaseUint WIDTH) : String := String.ofList (getHexChars (4 * WIDTH) (ofBytes x.blobBytes.reverse))

/-- `SetHex`, through a blob: each digit is four of its bytes, read by `ReadLE32`. -/
def setHex (WIDTH : Nat) (s : String) : BaseUint WIDTH :=
  let b := (toBytes (4 * WIDTH) (setHexChars (4 * WIDTH) s.toList)).reverse
  ⟨Vector.ofFn fun i => BitVec.ofNat 32 (ofBytes ((b.drop (i * 4)).take 4))⟩

end BaseUint

end UnicityPow
