/-
# Theory.JsString -- text as JavaScript has it

A JavaScript string is any sequence of UTF-16 code units; a surrogate may stand
alone in it.  This module gives the operations of the language that the services
apply to text, as the language defines them on code units.
-/
import Mathlib.Tactic.Common

namespace SdcoreNest.Theory

set_option autoImplicit false

/-- A sequence of UTF-16 code units. -/
abbrev JsString := List UInt16

namespace JsString

/-- The code units of one code point. -/
def unitsOf (c : Char) : JsString :=
  let n := c.toNat
  if n < 0x10000 then [.ofNat n]
  else [.ofNat (0xD800 + (n - 0x10000) / 0x400), .ofNat (0xDC00 + (n - 0x10000) % 0x400)]

/-- A literal of the source. -/
def js (literal : String) : JsString := literal.toList.flatMap unitsOf

/-- White space and line terminators, which `trim` removes. -/
def isSpace (u : UInt16) : Bool :=
  let n := u.toNat
  (9 ≤ n && n ≤ 13) || n == 0x20 || n == 0xA0 || n == 0x1680 ||
    (0x2000 ≤ n && n ≤ 0x200A) || n == 0x2028 || n == 0x2029 || n == 0x202F ||
    n == 0x205F || n == 0x3000 || n == 0xFEFF

def trimStart (s : JsString) : JsString := s.dropWhile isSpace

def trim (s : JsString) : JsString := (trimStart (trimStart s).reverse).reverse

/-- `split` at a separator of one code unit. -/
def splitOn (separator : UInt16) : JsString → List JsString
  | [] => [[]]
  | u :: rest =>
      if u = separator then [] :: splitOn separator rest
      else
        match splitOn separator rest with
        | part :: parts => (u :: part) :: parts
        | [] => [[u]]

/-- The text before the first separator, as `split(separator, 1)[0]`. -/
def before (separator : UInt16) (s : JsString) : JsString := s.takeWhile (· ≠ separator)

def hexDigit (n : Nat) : UInt16 := .ofNat (if n < 10 then 0x30 + n else 0x57 + n)

def isDigit (u : UInt16) : Bool := 0x30 ≤ u.toNat && u.toNat ≤ 0x39

/-- `A` to `Z` and `a` to `z`. -/
def isLetter (u : UInt16) : Bool :=
  (0x41 ≤ u.toNat && u.toNat ≤ 0x5A) || (0x61 ≤ u.toNat && u.toNat ≤ 0x7A)

/-- The lower-case form of a letter `A` to `Z`. -/
def lowerAscii (u : UInt16) : UInt16 :=
  if 0x41 ≤ u.toNat ∧ u.toNat ≤ 0x5A then .ofNat (u.toNat + 0x20) else u

/-- The value of a hexadecimal digit of either case. -/
def hexValue (u : UInt16) : Option Nat :=
  let n := u.toNat
  if 0x30 ≤ n ∧ n ≤ 0x39 then some (n - 0x30)
  else if 0x61 ≤ n ∧ n ≤ 0x66 then some (n - 0x57)
  else if 0x41 ≤ n ∧ n ≤ 0x46 then some (n - 0x37)
  else none

/-- `parseInt` in a base up to 16, of a text that has only digits of that base. -/
def digitsValue (base : Nat) (s : JsString) : Nat :=
  s.foldl (fun value u => value * base + (hexValue u).getD 0) 0

/-- `toString(16)` of a number below `16 ^ 4`. -/
def hexText (n : Nat) : JsString :=
  if n < 0x10 then [hexDigit n]
  else if n < 0x100 then [hexDigit (n / 0x10), hexDigit (n % 0x10)]
  else if n < 0x1000 then [hexDigit (n / 0x100), hexDigit (n / 0x10 % 0x10), hexDigit (n % 0x10)]
  else [hexDigit (n / 0x1000), hexDigit (n / 0x100 % 0x10), hexDigit (n / 0x10 % 0x10),
    hexDigit (n % 0x10)]

/-- The decimal digits of a number below `1000`. -/
def decimalText (n : Nat) : JsString :=
  if n < 10 then [hexDigit n]
  else if n < 100 then [hexDigit (n / 10), hexDigit (n % 10)]
  else [hexDigit (n / 100), hexDigit (n / 10 % 10), hexDigit (n % 10)]

/-! ## `JSON.stringify` of a string -/

def isLeading (u : UInt16) : Bool := 0xD800 ≤ u.toNat && u.toNat ≤ 0xDBFF

def isTrailing (u : UInt16) : Bool := 0xDC00 ≤ u.toNat && u.toNat ≤ 0xDFFF

/-- The escape of a code unit by its number, in lower case. -/
def unicodeEscape (u : UInt16) : JsString :=
  let n := u.toNat
  [0x5C, 0x75, hexDigit (n / 0x1000), hexDigit (n / 0x100 % 0x10), hexDigit (n / 0x10 % 0x10),
    hexDigit (n % 0x10)]

/-- The text of a code unit that is no half of a surrogate pair. -/
def escapeUnit (u : UInt16) : JsString :=
  if u = 0x08 then [0x5C, 0x62]
  else if u = 0x09 then [0x5C, 0x74]
  else if u = 0x0A then [0x5C, 0x6E]
  else if u = 0x0C then [0x5C, 0x66]
  else if u = 0x0D then [0x5C, 0x72]
  else if u = 0x22 then [0x5C, 0x22]
  else if u = 0x5C then [0x5C, 0x5C]
  else if u.toNat < 0x20 ∨ isLeading u ∨ isTrailing u then unicodeEscape u
  else [u]

/-- The inside of a quoted string: surrogate pairs stay, a lone surrogate is escaped. -/
def escape : JsString → JsString
  | [] => []
  | [u] => escapeUnit u
  | u :: v :: rest =>
      if isLeading u && isTrailing v then u :: v :: escape rest
      else escapeUnit u ++ escape (v :: rest)

def quote (s : JsString) : JsString := 0x22 :: escape s ++ [0x22]

/-! ## `encodeURIComponent` -/

/-- The code points of a text, unless a surrogate stands alone in it. -/
def codePoints? : JsString → Option (List Nat)
  | [] => some []
  | [u] => if isLeading u || isTrailing u then none else some [u.toNat]
  | u :: v :: rest =>
      if isLeading u && isTrailing v then
        (codePoints? rest).map
          ((0x10000 + (u.toNat - 0xD800) * 0x400 + (v.toNat - 0xDC00)) :: ·)
      else if isLeading u || isTrailing u then none
      else (codePoints? (v :: rest)).map (u.toNat :: ·)

/-- The UTF-8 bytes of a code point. -/
def utf8 (n : Nat) : List Nat :=
  if n < 0x80 then [n]
  else if n < 0x800 then [0xC0 + n / 0x40, 0x80 + n % 0x40]
  else if n < 0x10000 then [0xE0 + n / 0x1000, 0x80 + n / 0x40 % 0x40, 0x80 + n % 0x40]
  else [0xF0 + n / 0x40000, 0x80 + n / 0x1000 % 0x40, 0x80 + n / 0x40 % 0x40, 0x80 + n % 0x40]

/-- Letters, digits and `- _ . ! ~ * ' ( )`. -/
def isUnreserved (n : Nat) : Bool :=
  (0x30 ≤ n && n ≤ 0x39) || (0x41 ≤ n && n ≤ 0x5A) || (0x61 ≤ n && n ≤ 0x7A) ||
    [0x2D, 0x5F, 0x2E, 0x21, 0x7E, 0x2A, 0x27, 0x28, 0x29].contains n

def upperHexDigit (n : Nat) : UInt16 := .ofNat (if n < 10 then 0x30 + n else 0x37 + n)

def encodeByte (n : Nat) : JsString :=
  if isUnreserved n then [.ofNat n]
  else [0x25, upperHexDigit (n / 0x10), upperHexDigit (n % 0x10)]

def encodeURIComponent (s : JsString) : Option JsString :=
  (codePoints? s).map fun points => (points.flatMap utf8).flatMap encodeByte

/-- `join` with a separator. -/
def joinWith (separator : JsString) (parts : List JsString) : JsString :=
  (parts.intersperse separator).flatten

end JsString

end SdcoreNest.Theory
