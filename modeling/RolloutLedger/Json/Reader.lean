import RolloutLedger.Value.Basic
/-! # Reading JSON

JSON text as values: strict texts without raw control characters, integers up to a number of
digits, doubles rounded to nearest, and the names `NaN`, `Infinity` and `-Infinity`.  A key that
occurs twice keeps its first place and its last value.

A text that is not JSON is told apart from an integer with too many digits and from too much
nesting; the first of these that the reader comes to is the failure.

The parser takes its fuel from the length of the text: each level of nesting consumes a bracket
and costs two steps, and each further item a comma and one.
-/

namespace RolloutLedger.Json

def isSpace (c : Char) : Bool := c = ' ' || c = '\t' || c = '\n' || c = '\r'

def skip (cs : List Char) : List Char := cs.dropWhile isSpace

/-! ## Texts -/

def hexValue? (c : Char) : Option Nat :=
  let n := c.toNat
  if 48 ≤ n && n ≤ 57 then some (n - 48)
  else if 97 ≤ n && n ≤ 102 then some (n - 87)
  else if 65 ≤ n && n ≤ 70 then some (n - 55)
  else none

def hex4? (a b c d : Char) : Option Nat := do
  let a ← hexValue? a
  let b ← hexValue? b
  let c ← hexValue? c
  let d ← hexValue? d
  return ((a * 16 + b) * 16 + c) * 16 + d

def push (c : Char) : Option (List Char × List Char) → Option (List Char × List Char) :=
  Option.map fun (cs, rest) => (c :: cs, rest)

def textBody? : List Char → Option (List Char × List Char)
  | [] => none
  | '"' :: r => some ([], r)
  | '\\' :: '"' :: r => push '"' (textBody? r)
  | '\\' :: '\\' :: r => push '\\' (textBody? r)
  | '\\' :: '/' :: r => push '/' (textBody? r)
  | '\\' :: 'b' :: r => push '\x08' (textBody? r)
  | '\\' :: 'f' :: r => push '\x0c' (textBody? r)
  | '\\' :: 'n' :: r => push '\n' (textBody? r)
  | '\\' :: 'r' :: r => push '\r' (textBody? r)
  | '\\' :: 't' :: r => push '\t' (textBody? r)
  | '\\' :: 'u' :: a :: b :: c :: d :: r =>
    match hex4? a b c d with
    | none => none
    | some n =>
      if 0xd800 ≤ n && n < 0xdc00 then
        match r with
        | '\\' :: 'u' :: a' :: b' :: c' :: d' :: r' =>
          match hex4? a' b' c' d' with
          | none => none
          | some m =>
            if 0xdc00 ≤ m && m < 0xe000 then
              push (Char.ofNat (Text.Encoding.ofSurrogates n m)) (textBody? r')
            else none
        | _ => none
      else if 0xdc00 ≤ n && n < 0xe000 then none
      else push (Char.ofNat n) (textBody? r)
  | '\\' :: _ => none
  | c :: r => if c.toNat < 0x20 then none else push c (textBody? r)

/-! ## Numbers -/

def fraction : List Char → List Char × List Char
  | '.' :: r =>
    let ds := r.takeWhile Decimal.isDigit
    if ds.isEmpty then ([], '.' :: r) else (ds, r.dropWhile Decimal.isDigit)
  | r => ([], r)

def signedDigits : List Char → Option (Int × List Char)
  | c :: r =>
    let (negative, r) :=
      if c = '-' then (true, r) else if c = '+' then (false, r) else (false, c :: r)
    let ds := r.takeWhile Decimal.isDigit
    if ds.isEmpty then none
    else
      let n : Int := Decimal.value ds
      some (if negative then -n else n, r.dropWhile Decimal.isDigit)
  | [] => none

def exponent : List Char → Option Int × List Char
  | c :: r =>
    if c = 'e' || c = 'E' then
      match signedDigits r with
      | some (n, rest) => (some n, rest)
      | none => (none, c :: r)
    else (none, c :: r)
  | [] => (none, [])

/-- The digits in front of the point, without a superfluous leading zero, and what follows. -/
def whole : List Char → List Char × List Char
  | '0' :: r => (['0'], r)
  | r => (r.takeWhile Decimal.isDigit, r.dropWhile Decimal.isDigit)

/-- A number without its sign.  It is an integer unless it has a fraction or an exponent, and an
integer may not have too many digits. -/
def unsigned (negative : Bool) (cs : List Char) : Except Error (Value × List Char) :=
  let (digits, r) := whole cs
  let (fractional, r) := fraction r
  let (power, r) := exponent r
  if digits.isEmpty then .error .notJson
  else if fractional.isEmpty && power.isNone then
    let n : Int := Decimal.value digits
    if Decimal.maxDigits < digits.length then .error .unreadable
    else .ok (.int (if negative then -n else n), r)
  else
    .ok (.float (.ofDecimal negative (Decimal.value (digits ++ fractional))
      (power.getD 0 - fractional.length)), r)

def number : List Char → Except Error (Value × List Char)
  | '-' :: 'I' :: 'n' :: 'f' :: 'i' :: 'n' :: 'i' :: 't' :: 'y' :: r =>
    .ok (.float (.infinity true), r)
  | '-' :: r => unsigned true r
  | r => unsigned false r

/-! ## Documents -/

/-- The runtime's allowance: how many levels of lists and objects its stack leaves room for when
hardly anything else is on it.  Within further calls it is less, so `readWithin` and `decodeWithin`
take the allowance as a parameter, and only `read` and `decode` use this one.  Writing a document
and applying or stripping a patch go down level by level as well; they are taken without an
allowance. -/
def maxDepth : Nat := 990

def textBody (cs : List Char) : Except Error (String × List Char) :=
  match textBody? cs with
  | some (s, r) => .ok (String.ofList s, r)
  | none => .error .notJson

mutual

/-- A value at the front of a text, and what follows it; `room` says how many levels of nesting
are left. -/
def value : Nat → Nat → List Char → Except Error (Value × List Char)
  | 0, _, _ => .error .notJson
  | fuel + 1, room, cs =>
    match cs with
    | '"' :: r => (textBody r).map fun (s, r) => (.text s, r)
    | '[' :: r =>
      if room = 0 then .error .tooDeep
      else match skip r with
        | ']' :: r => .ok (.list [], r)
        | r => (items fuel (room - 1) r).map fun (vs, r) => (.list vs, r)
    | '\x7b' :: r =>
      if room = 0 then .error .tooDeep
      else match skip r with
        | '\x7d' :: r => .ok (.object [], r)
        | r => (members fuel (room - 1) r).map fun (ms, r) => (.object (Entries.ofPairs ms), r)
    | 'n' :: 'u' :: 'l' :: 'l' :: r => .ok (.null, r)
    | 't' :: 'r' :: 'u' :: 'e' :: r => .ok (.bool true, r)
    | 'f' :: 'a' :: 'l' :: 's' :: 'e' :: r => .ok (.bool false, r)
    | 'N' :: 'a' :: 'N' :: r => .ok (.float .nan, r)
    | 'I' :: 'n' :: 'f' :: 'i' :: 'n' :: 'i' :: 't' :: 'y' :: r =>
      .ok (.float (.infinity false), r)
    | r => number r

def items : Nat → Nat → List Char → Except Error (List Value × List Char)
  | 0, _, _ => .error .notJson
  | fuel + 1, room, cs => do
    let (v, r) ← value fuel room cs
    match skip r with
    | ',' :: r => (items fuel room (skip r)).map fun (vs, r) => (v :: vs, r)
    | ']' :: r => .ok ([v], r)
    | _ => .error .notJson

def members : Nat → Nat → List Char → Except Error (List (Key × Value) × List Char)
  | 0, _, _ => .error .notJson
  | fuel + 1, room, cs =>
    match cs with
    | '"' :: r => do
      let (k, r) ← textBody r
      match skip r with
      | ':' :: r => do
        let (v, r) ← value fuel room (skip r)
        let here := (Key.text k, v)
        match skip r with
        | ',' :: r => (members fuel room (skip r)).map fun (ms, r) => (here :: ms, r)
        | '\x7d' :: r => .ok ([here], r)
        | _ => .error .notJson
      | _ => .error .notJson
    | _ => .error .notJson

end

/-- A whole text as a document, with room for so many levels of nesting. -/
def readWithin (room : Nat) (cs : List Char) : Except Error Value := do
  let (v, r) ← value (2 * cs.length + 2) room (skip cs)
  if (skip r).isEmpty then .ok v else .error .notJson

/-- A whole text as a document, with the runtime's allowance for nesting. -/
def read (cs : List Char) : Except Error Value := readWithin maxDepth cs

/-- A failure to read the text of stored data.  Text that is not JSON shows that the data is
not an encoded document; the other failures stay what they are. -/
def dataError : Error → Error
  | .notJson => .undecodable
  | e => e

/-- The document that bytes stand for, in whatever encoding they show, with room for so many levels
of nesting. -/
def decodeWithin (room : Nat) (raw : Bytes) : Except Error Value :=
  match Text.Encoding.decodeAny? raw with
  | some cs => (readWithin room cs).mapError dataError
  | none => .error .undecodable

/-- The document that bytes stand for, with the runtime's allowance for nesting. -/
def decode (raw : Bytes) : Except Error Value := decodeWithin maxDepth raw

end RolloutLedger.Json
