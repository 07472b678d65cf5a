import Mathlib

/-!
# Blobs, wide integers and their hexadecimal form

`uint256` and `uint160` are byte strings compared by `memcmp`, so a blob is the
number its bytes spell, first byte most significant. `arith_uint256` is the
number its bytes spell last byte most significant.
-/

namespace UnicityPow

abbrev Uint256 := BitVec 256
abbrev Uint160 := BitVec 160
abbrev ArithUint256 := BitVec 256

/-- The orders and the equality of the keys of the maps, by name. -/
instance transOrd : Std.TransOrd Uint256 := inferInstance
instance lawfulEqOrd : Std.LawfulEqOrd Uint256 := inferInstance
instance lawfulBEq : LawfulBEq Uint256 := inferInstance
instance intTransOrd : Std.TransOrd Int := inferInstance

/-! ## Byte strings -/

/-- The `w` low bytes of `n`, least significant first. -/
def toBytes : Nat → Nat → List Nat
  | 0, _ => []
  | w + 1, n => n % 256 :: toBytes w (n / 256)

def ofBytes (l : List Nat) : Nat := Nat.ofDigits 256 l

@[simp] theorem toBytes_length (w n : Nat) : (toBytes w n).length = w := by
  induction w generalizing n with
  | zero => rfl
  | succ w ih => simp [toBytes, ih]

theorem toBytes_lt {w n b : Nat} (h : b ∈ toBytes w n) : b < 256 := by
  induction w generalizing n with
  | zero => simp [toBytes] at h
  | succ w ih =>
    simp only [toBytes, List.mem_cons] at h
    rcases h with rfl | h
    · exact Nat.mod_lt _ (by decide)
    · exact ih h

theorem ofBytes_toBytes (w n : Nat) : ofBytes (toBytes w n) = n % 256 ^ w := by
  unfold ofBytes
  induction w generalizing n with
  | zero => simp [toBytes, Nat.mod_one]
  | succ w ih =>
    rw [toBytes, Nat.ofDigits_cons, ih, Nat.pow_succ', Nat.mod_mul]

theorem ofBytes_lt (l : List Nat) (h : ∀ b ∈ l, b < 256) : ofBytes l < 256 ^ l.length :=
  Nat.ofDigits_lt_base_pow_length (by decide) h

theorem toBytes_ofBytes (l : List Nat) (h : ∀ b ∈ l, b < 256) :
    toBytes l.length (ofBytes l) = l := by
  unfold ofBytes
  induction l with
  | nil => rfl
  | cons b l ih =>
    have hb : b < 256 := h b (by simp)
    have := ih (fun c hc => h c (by simp [hc]))
    simp only [List.length_cons, toBytes, Nat.ofDigits_cons]
    rw [show (b + 256 * Nat.ofDigits 256 l) % 256 = b by omega,
      show (b + 256 * Nat.ofDigits 256 l) / 256 = Nat.ofDigits 256 l by omega, this]

/-! ## Hexadecimal digits -/

/-- `HexDigit`: `none` is the source's -1. -/
def hexDigit (c : Char) : Option Nat :=
  if '0' ≤ c ∧ c ≤ '9' then some (c.toNat - '0'.toNat)
  else if 'a' ≤ c ∧ c ≤ 'f' then some (c.toNat - 'a'.toNat + 10)
  else if 'A' ≤ c ∧ c ≤ 'F' then some (c.toNat - 'A'.toNat + 10)
  else none

/-- The digit a stream in `std::hex` mode prints. -/
def hexChar (n : Nat) : Char :=
  if n < 10 then Char.ofNat ('0'.toNat + n) else Char.ofNat ('a'.toNat + (n - 10))

theorem hexDigit_hexChar {n : Nat} (h : n < 16) : hexDigit (hexChar n) = some n := by
  have : ∀ k : Fin 16, hexDigit (hexChar k) = some k.val := by decide
  exact this ⟨n, h⟩

theorem hexChar_ne_x {n : Nat} (h : n < 16) : hexChar n ≠ 'x' ∧ hexChar n ≠ 'X' := by
  have : ∀ k : Fin 16, hexChar k ≠ 'x' ∧ hexChar k ≠ 'X' := by decide
  exact this ⟨n, h⟩

def hexByte (b : Nat) : List Char := [hexChar (b / 16), hexChar (b % 16)]

/-- `base_blob::GetHex` on a blob of `w` bytes: the bytes are shown last one first. -/
def getHexChars (w n : Nat) : List Char := (toBytes w n).flatMap hexByte

def skip0x : List Char → List Char
  | '0' :: 'x' :: cs => cs
  | '0' :: 'X' :: cs => cs
  | cs => cs

/-- The leading run of hexadecimal digits. -/
def hexRun : List Char → List Nat
  | [] => []
  | c :: cs => match hexDigit c with
    | some d => d :: hexRun cs
    | none => []

/-- Bytes from digits read from the end of the string: low digit first, a last odd
digit alone. -/
def pairDigits : List Nat → List Nat
  | lo :: hi :: ds => (lo + 16 * hi) :: pairDigits ds
  | [lo] => [lo]
  | [] => []

/-- `base_blob::SetHex`: the last two digits are byte 0, digits beyond the width are
dropped and missing bytes are zero. -/
def setHexChars (w : Nat) (cs : List Char) : Nat :=
  let bytes := (pairDigits (hexRun (skip0x cs)).reverse).take w
  ofBytes (bytes ++ List.replicate (w - bytes.length) 0).reverse

theorem skip0x_getHexChars (w n : Nat) : skip0x (getHexChars w n) = getHexChars w n := by
  unfold getHexChars
  cases w with
  | zero => rfl
  | succ w =>
    simp only [toBytes, List.flatMap_cons, hexByte, List.cons_append, List.nil_append]
    have h := hexChar_ne_x (n := n % 256 % 16) (Nat.mod_lt _ (by decide))
    unfold skip0x
    split
    · rename_i he; simp only [List.cons.injEq] at he; exact absurd he.2.1 h.1
    · rename_i he; simp only [List.cons.injEq] at he; exact absurd he.2.1 h.2
    · rfl

theorem hexRun_hexBytes (l : List Nat) (h : ∀ b ∈ l, b < 256) :
    hexRun (l.flatMap hexByte) = l.flatMap (fun b => [b / 16, b % 16]) := by
  induction l with
  | nil => rfl
  | cons b l ih =>
    have hb : b < 256 := h b (by simp)
    have hl := ih (fun c hc => h c (by simp [hc]))
    simp only [List.flatMap_cons, hexByte, List.cons_append, List.nil_append, hexRun,
      hexDigit_hexChar (show b / 16 < 16 by omega), hexDigit_hexChar (Nat.mod_lt b (by decide : 0 < 16))]
    rw [hl]

theorem pairDigits_append_pair (l : List Nat) (lo hi : Nat) (hl : Even l.length) :
    pairDigits (l ++ [lo, hi]) = pairDigits l ++ [lo + 16 * hi] := by
  induction l using pairDigits.induct with
  | case1 a b ds ih =>
    have : Even ds.length := by
      simp only [List.length_cons] at hl
      rcases hl with ⟨k, hk⟩
      exact ⟨k - 1, by omega⟩
    simp [pairDigits, ih this]
  | case2 a => simp at hl
  | case3 => rfl

theorem pairDigits_bytes (l : List Nat) :
    pairDigits (l.flatMap (fun b => [b / 16, b % 16])).reverse = l.reverse := by
  induction l with
  | nil => rfl
  | cons b l ih =>
    have he : Even (l.flatMap (fun b => [b / 16, b % 16])).reverse.length := by
      simp only [List.length_reverse, List.length_flatMap, List.length_cons, List.length_nil]
      simp
    simp only [List.flatMap_cons, List.reverse_cons, List.nil_append, List.cons_append,
      List.append_assoc]
    rw [pairDigits_append_pair _ _ _ he, ih, show b % 16 + 16 * (b / 16) = b by omega]

theorem setHexChars_getHexChars (w n : Nat) : setHexChars w (getHexChars w n) = n % 256 ^ w := by
  have hp : pairDigits (hexRun (getHexChars w n)).reverse = (toBytes w n).reverse := by
    unfold getHexChars
    rw [hexRun_hexBytes _ (fun b hb => toBytes_lt hb), pairDigits_bytes]
  unfold setHexChars
  rw [skip0x_getHexChars, hp]
  have ht : (toBytes w n).reverse.take w = (toBytes w n).reverse :=
    List.take_of_length_le (by simp)
  simp only [ht, List.length_reverse, toBytes_length, Nat.sub_self, List.replicate_zero,
    List.append_nil, List.reverse_reverse, ofBytes_toBytes]

/-! ## The three blob types -/

def Uint256.getHex (v : Uint256) : String := String.ofList (getHexChars 32 v.toNat)

def Uint256.setHex (s : String) : Uint256 := BitVec.ofNat 256 (setHexChars 32 s.toList)

def Uint160.getHex (v : Uint160) : String := String.ofList (getHexChars 20 v.toNat)

def Uint160.setHex (s : String) : Uint160 := BitVec.ofNat 160 (setHexChars 20 s.toList)

/-- `ArithToUint256` and `UintToArith256`: the same 32 bytes read in the other order. -/
def byteReverse (v : BitVec 256) : BitVec 256 := BitVec.ofNat 256 (ofBytes (toBytes 32 v.toNat).reverse)

def arithToUint256 (a : ArithUint256) : Uint256 := byteReverse a

def uintToArith256 (a : Uint256) : ArithUint256 := byteReverse a

def ArithUint256.getHex (a : ArithUint256) : String := Uint256.getHex (arithToUint256 a)

def ArithUint256.setHex (s : String) : ArithUint256 := uintToArith256 (Uint256.setHex s)

@[simp] theorem Uint256.setHex_getHex (v : Uint256) : Uint256.setHex (Uint256.getHex v) = v := by
  unfold Uint256.setHex Uint256.getHex
  rw [String.toList_ofList, setHexChars_getHexChars]
  apply BitVec.eq_of_toNat_eq
  have := v.isLt
  rw [BitVec.toNat_ofNat]
  omega

@[simp] theorem Uint160.setHex_getHex (v : Uint160) : Uint160.setHex (Uint160.getHex v) = v := by
  unfold Uint160.setHex Uint160.getHex
  rw [String.toList_ofList, setHexChars_getHexChars]
  apply BitVec.eq_of_toNat_eq
  have := v.isLt
  rw [BitVec.toNat_ofNat]
  omega

theorem byteReverse_byteReverse (v : BitVec 256) : byteReverse (byteReverse v) = v := by
  have hb : ∀ b ∈ (toBytes 32 v.toNat).reverse, b < 256 :=
    fun b hb => toBytes_lt (List.mem_reverse.mp hb)
  have hlt : ofBytes (toBytes 32 v.toNat).reverse < 2 ^ 256 := by
    have := ofBytes_lt _ hb
    simpa using this
  have hl : toBytes 32 (ofBytes (toBytes 32 v.toNat).reverse) = (toBytes 32 v.toNat).reverse := by
    have := toBytes_ofBytes _ hb
    simpa using this
  unfold byteReverse
  apply BitVec.eq_of_toNat_eq
  rw [BitVec.toNat_ofNat, BitVec.toNat_ofNat, Nat.mod_eq_of_lt hlt, hl, List.reverse_reverse,
    ofBytes_toBytes]
  have := v.isLt
  omega

@[simp] theorem ArithUint256.setHex_getHex (a : ArithUint256) :
    ArithUint256.setHex (ArithUint256.getHex a) = a := by
  unfold ArithUint256.setHex ArithUint256.getHex
  rw [Uint256.setHex_getHex]
  exact byteReverse_byteReverse a

theorem Uint256.getHex_ne_empty (v : Uint256) : Uint256.getHex v ≠ "" := by
  intro h
  have := congrArg String.toList h
  simp [Uint256.getHex, getHexChars, toBytes, hexByte] at this

/-! ## Compact targets and work -/

/-- What `arith_uint256::SetCompact` computes: the value and its two flags. -/
structure Compact where
  value : ArithUint256
  negative : Bool
  overflow : Bool
deriving DecidableEq

def setCompact (nCompact : BitVec 32) : Compact :=
  let nSize := (nCompact >>> 24).toNat
  let nWord := nCompact &&& 0x007fffff#32
  let nWord := if nSize ≤ 3 then nWord >>> (8 * (3 - nSize)) else nWord
  { value := if nSize ≤ 3 then nWord.setWidth 256 else nWord.setWidth 256 <<< (8 * (nSize - 3))
    negative := nWord ≠ 0 && nCompact &&& 0x00800000#32 ≠ 0
    overflow := nWord ≠ 0 && (nSize > 34 || (nWord > 0xff#32 && nSize > 33) ||
      (nWord > 0xffff#32 && nSize > 32)) }

/-- `GetBlockProof` of a block with these `nBits`. -/
def getBlockProof (nBits : BitVec 32) : ArithUint256 :=
  let bnTarget := setCompact nBits
  if bnTarget.negative || bnTarget.overflow || bnTarget.value == 0 then 0
  else if bnTarget.value == ~~~(0 : ArithUint256) then 1
  else ~~~bnTarget.value / (bnTarget.value + 1) + 1

example : getBlockProof 0x207fffff#32 = 2 := by decide +kernel

end UnicityPow
