import Mathlib.Tactic

/-!
# JSON string literals

The grammar of RFC 8259 for a string, over the characters of the text, and the value it denotes.
A text travels as UTF-8.
-/

namespace StringLiteral

def utf8 (cs : List Char) : List UInt8 := cs.flatMap String.utf8EncodeChar

/-- `unescaped`: any character but the quotation mark, the reverse solidus and the control characters. -/
def unescaped (c : Char) : Bool := c != '"' && c != '\\' && decide (0x20 ≤ c.toNat)

/-- The character that a two-character escape stands for. -/
def shortEscape : Char → Option Char
  | '"' => some '"'
  | '\\' => some '\\'
  | '/' => some '/'
  | 'b' => some (Char.ofNat 8)
  | 'f' => some (Char.ofNat 12)
  | 'n' => some (Char.ofNat 10)
  | 'r' => some (Char.ofNat 13)
  | 't' => some (Char.ofNat 9)
  | _ => none

def hexValue (c : Char) : Option Nat :=
  if '0' ≤ c ∧ c ≤ '9' then some (c.toNat - 48)
  else if 'a' ≤ c ∧ c ≤ 'f' then some (c.toNat - 87)
  else if 'A' ≤ c ∧ c ≤ 'F' then some (c.toNat - 55)
  else none

/-- The code unit that the four digits of a `\u` escape spell. -/
def codeUnit (a b c d : Char) : Option Nat := do
  return 4096 * (← hexValue a) + 256 * (← hexValue b) + 16 * (← hexValue c) + (← hexValue d)

/-- What follows the opening quotation mark; `high` is a leading surrogate that waits for its other half. -/
def body : Option Nat → List Char → Option (List Char)
  | high, '\\' :: 'u' :: a :: b :: c :: d :: cs =>
    match high, codeUnit a b c d with
    | none, some u =>
      if 0xd800 ≤ u ∧ u < 0xdc00 then body (some u) cs
      else if 0xdc00 ≤ u ∧ u < 0xe000 then none
      else (body none cs).map (Char.ofNat u :: ·)
    | some h, some u =>
      if 0xdc00 ≤ u ∧ u < 0xe000 then
        (body none cs).map (Char.ofNat (0x10000 + 0x400 * (h - 0xd800) + (u - 0xdc00)) :: ·)
      else none
    | _, none => none
  | none, '\\' :: e :: cs =>
    match shortEscape e, body none cs with
    | some v, some vs => some (v :: vs)
    | _, _ => none
  | none, ['"'] => some []
  | none, c :: cs => if unescaped c then (body none cs).map (c :: ·) else none
  | _, _ => none

example : body none ['"'] = some [] := body.eq_5

/-- The value of a literal, `none` for a text that is not one. -/
def value : List Char → Option (List Char)
  | '"' :: cs => body none cs
  | _ => none

/-- The bytes are the UTF-8 of a literal, and this is its value. -/
def Denotes (bytes : List UInt8) (s : String) : Prop :=
  ∃ text : List Char, utf8 text = bytes ∧ value text = some s.toList

example : value "\"a\\n\\u00e9\\ud83d\\ude00\"".toList = some "a\né😀".toList := by decide +kernel

end StringLiteral
