import UnicityPow.StringLiteral
import UnicityPow.Uint

/-!
# Parsing and escaping strings

Hexadecimal strings and the escaping of JSON strings in `string_parsing.cpp`. A C++ string is a list
of bytes.
-/

namespace UnicityPow

open StringLiteral

/-- The bytes of a string literal of the source. -/
def bytesOf (s : String) : List UInt8 := utf8 s.toList

/-- The characters of a string, one a byte. -/
def charsOf (str : List UInt8) : List Char := str.map (fun c => Char.ofNat c.toNat)

/-! ## Hexadecimal strings -/

/-- `base_blob<BITS>::GetHex`. -/
def BaseBlob.getHex {BITS : Nat} (b : BitVec BITS) : String := String.ofList (getHexChars (BITS / 8) b.toNat)

/-- `base_blob<BITS>::SetHex`. -/
def BaseBlob.setHex (BITS : Nat) (s : String) : BitVec BITS := BitVec.ofNat BITS (setHexChars (BITS / 8) s.toList)

/-- `std::isxdigit`. -/
def isxdigit (c : UInt8) : Bool :=
  (48 ≤ c.toNat && c.toNat ≤ 57) || (65 ≤ c.toNat && c.toNat ≤ 70) || (97 ≤ c.toNat && c.toNat ≤ 102)

def isValidHex (str : List UInt8) : Bool := !str.isEmpty && str.all isxdigit

def safeParseHash (str : List UInt8) : Option Uint256 :=
  if str.length ≠ 64 then none
  else if !isValidHex str then none
  else some (Uint256.setHex (String.ofList (charsOf str)))

/-! ## JSON strings -/

/-- One round of the loop of `EscapeJSONString`. `char` is signed: a byte from 0x80 on is negative. -/
def escapeChar (c : UInt8) : List UInt8 :=
  if c = 34 then bytesOf "\\\""
  else if c = 92 then bytesOf "\\\\"
  else if c = 8 then bytesOf "\\b"
  else if c = 12 then bytesOf "\\f"
  else if c = 10 then bytesOf "\\n"
  else if c = 13 then bytesOf "\\r"
  else if c = 9 then bytesOf "\\t"
  else if c.toBitVec.toInt < 0x20 then bytesOf "\\u" ++ utf8 ((Nat.toDigits 16 c.toNat).leftpad 4 '0')
  else [c]

def escapeJSONString (str : List UInt8) : List UInt8 := str.flatMap escapeChar

def jsonError (message : List UInt8) : List UInt8 :=
  bytesOf "\x7b\"error\":\"" ++ escapeJSONString message ++ bytesOf "\"\x7d\n"

def jsonSuccess (result : List UInt8) : List UInt8 :=
  bytesOf "\x7b\"result\":\"" ++ escapeJSONString result ++ bytesOf "\"\x7d\n"

end UnicityPow
