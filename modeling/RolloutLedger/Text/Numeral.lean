import RolloutLedger.Number
import RolloutLedger.Text.Encoding
/-! # Reading numerals

Free-form numerals as they appear in settings and in loosely typed documents: blanks around
them, an optional sign, decimal digits of any script, and single underscores between digits.
Fractional numerals also take a point, an exponent, and the words for infinity and for what is
not a number.  The digits of an integer are limited in number.
-/

namespace RolloutLedger.Text

/-! ## Blanks and decimal digits of Unicode

The characters that a numeral may be surrounded by, and the characters that count as its
digits.  Digits come in blocks of ten consecutive code points, one block per script.
-/

/-- A character that may surround a numeral: the ASCII blanks U+0009 to U+000D and the space,
and every Unicode space beyond ASCII. -/
def isBlank (c : Char) : Bool :=
  let n := c.toNat
  (0x09 ≤ n && n ≤ 0x0d) || n == 0x20 || n == 0x85 || n == 0xa0 || n == 0x1680 ||
    (0x2000 ≤ n && n ≤ 0x200a) || n == 0x2028 || n == 0x2029 || n == 0x202f || n == 0x205f ||
    n == 0x3000

/-- The zeros of the decimal digits of Unicode 14; each starts a block of ten. -/
def digitZeros : List Nat := [
  0x30, 0x660, 0x6f0, 0x7c0, 0x966, 0x9e6, 0xa66, 0xae6, 0xb66, 0xbe6, 0xc66, 0xce6, 0xd66,
  0xde6, 0xe50, 0xed0, 0xf20, 0x1040, 0x1090, 0x17e0, 0x1810, 0x1946, 0x19d0, 0x1a80, 0x1a90,
  0x1b50, 0x1bb0, 0x1c40, 0x1c50, 0xa620, 0xa8d0, 0xa900, 0xa9d0, 0xa9f0, 0xaa50, 0xabf0,
  0xff10, 0x104a0, 0x10d30, 0x11066, 0x110f0, 0x11136, 0x111d0, 0x112f0, 0x11450, 0x114d0,
  0x11650, 0x116c0, 0x11730, 0x118e0, 0x11950, 0x11c50, 0x11d50, 0x11da0, 0x16a60, 0x16ac0,
  0x16b50, 0x1d7ce, 0x1d7d8, 0x1d7e2, 0x1d7ec, 0x1d7f6, 0x1e140, 0x1e2f0, 0x1e950, 0x1fbf0]

def digitValue? (c : Char) : Option Nat :=
  (digitZeros.find? fun first => first ≤ c.toNat && c.toNat < first + 10).map (c.toNat - ·)

/-! ## Numerals -/

def trim (cs : List Char) : List Char :=
  ((cs.dropWhile isBlank).reverse.dropWhile isBlank).reverse

def asciiDigits (cs : List Char) : List Char :=
  cs.map fun c => match digitValue? c with
    | some d => Decimal.digitChar d
    | none => c

def splitSign : List Char → Bool × List Char
  | '-' :: r => (true, r)
  | '+' :: r => (false, r)
  | r => (false, r)

/-- A text with its underscores removed, if each of them stands between two digits.
`afterDigit` says whether the character before was a digit. -/
def dropUnderscores : Bool → List Char → Option (List Char)
  | _, [] => some []
  | afterDigit, '_' :: r =>
    match r with
    | d :: _ => if afterDigit && Decimal.isDigit d then dropUnderscores false r else none
    | [] => none
  | _, c :: r => (dropUnderscores (Decimal.isDigit c) r).map (c :: ·)

/-- The integer a numeral stands for, unless the numeral is too long. -/
def integer? (s : String) : Option Int := do
  let (negative, body) := splitSign (trim (asciiDigits s.toList))
  let ds ← dropUnderscores false body
  if ds.isEmpty || !ds.all Decimal.isDigit || Decimal.maxDigits < ds.length then none
  else
    let n : Int := Decimal.value ds
    some (if negative then -n else n)

/-- The integer a numeral in ASCII bytes stands for; other bytes belong to no numeral. -/
def integerOfBytes? (bs : Bytes) : Option Int :=
  if bs.all (·.toNat < 0x80) then
    integer? (String.ofList (bs.map fun b => Char.ofNat b.toNat))
  else none

def lowerAscii (c : Char) : Char :=
  if 65 ≤ c.toNat && c.toNat ≤ 90 then Char.ofNat (c.toNat + 32) else c

/-- The exponent at the end of a numeral: nothing, or an `e`, a sign and digits. -/
def exponent? : List Char → Option Int
  | [] => some 0
  | c :: r =>
    if c = 'e' || c = 'E' then
      let (negative, ds) := splitSign r
      if ds.isEmpty || !ds.all Decimal.isDigit then none
      else
        let n : Int := Decimal.value ds
        some (if negative then -n else n)
    else none

/-- The double nearest to an unsigned decimal with at least one digit. -/
def decimal? (negative : Bool) (cs : List Char) : Option Binary64 :=
  let whole := cs.takeWhile Decimal.isDigit
  let afterWhole := cs.dropWhile Decimal.isDigit
  let (fraction, rest) := match afterWhole with
    | '.' :: r => (r.takeWhile Decimal.isDigit, r.dropWhile Decimal.isDigit)
    | r => ([], r)
  if whole.isEmpty && fraction.isEmpty then none
  else (exponent? rest).map fun e =>
    Binary64.ofDecimal negative (Decimal.value (whole ++ fraction)) (e - fraction.length)

def binary64? (s : String) : Option Binary64 := do
  let body ← dropUnderscores false (trim (asciiDigits s.toList))
  let (negative, cs) := splitSign body
  let word := String.ofList (cs.map lowerAscii)
  if word = "inf" || word = "infinity" then some (.infinity negative)
  else if word = "nan" then some .nan
  else decimal? negative cs

end RolloutLedger.Text
