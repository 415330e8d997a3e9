/-! # Texts as bytes

JSON texts are stored in UTF-8 and may be read from any of five encodings.
-/

namespace RolloutLedger

/-! ## UTF-8

Texts as byte strings and back.  A byte string is scanned into pieces, each a character or an
ill-formed stretch that ends where the next byte cannot continue it.  Strict decoding refuses
ill-formed stretches and lossy decoding puts one replacement character for each.
-/

abbrev Bytes := List UInt8

namespace Utf8

def encodeChar (c : Char) : Bytes :=
  let n := c.toNat
  if n < 0x80 then [UInt8.ofNat n]
  else if n < 0x800 then [UInt8.ofNat (0xc0 + n / 64), UInt8.ofNat (0x80 + n % 64)]
  else if n < 0x10000 then
    [UInt8.ofNat (0xe0 + n / 4096), UInt8.ofNat (0x80 + n / 64 % 64), UInt8.ofNat (0x80 + n % 64)]
  else
    [UInt8.ofNat (0xf0 + n / 262144), UInt8.ofNat (0x80 + n / 4096 % 64),
      UInt8.ofNat (0x80 + n / 64 % 64), UInt8.ofNat (0x80 + n % 64)]

def encode (cs : List Char) : Bytes := cs.flatMap encodeChar

def isContinuation (b : UInt8) : Bool := 0x80 ≤ b.toNat && b.toNat < 0xc0

/-- A byte that may follow the first byte of a three-byte character: no overlong forms and no
surrogates. -/
def isSecondOfThree (first second : UInt8) : Bool :=
  isContinuation second &&
    (first.toNat != 0xe0 || 0xa0 ≤ second.toNat) && (first.toNat != 0xed || second.toNat < 0xa0)

/-- A byte that may follow the first byte of a four-byte character: no overlong forms and
nothing beyond U+10FFFF. -/
def isSecondOfFour (first second : UInt8) : Bool :=
  isContinuation second &&
    (first.toNat != 0xf0 || 0x90 ≤ second.toNat) && (first.toNat != 0xf4 || second.toNat < 0x90)

/-- The six bits a continuation byte carries. -/
def payload (b : UInt8) : Nat := b.toNat % 64

/-- The pieces of a byte string: characters, and `none` for each ill-formed stretch. -/
def scan : Bytes → List (Option Char)
  | [] => []
  | a :: r =>
    let n := a.toNat
    if n < 0x80 then some (Char.ofNat n) :: scan r
    else if 0xc2 ≤ n && n < 0xe0 then
      match r with
      | [] => [none]
      | b :: r₁ =>
        if isContinuation b then some (Char.ofNat (n % 32 * 64 + payload b)) :: scan r₁
        else none :: scan (b :: r₁)
    else if 0xe0 ≤ n && n < 0xf0 then
      match r with
      | [] => [none]
      | b :: r₁ =>
        if isSecondOfThree a b then
          match r₁ with
          | [] => [none]
          | c :: r₂ =>
            if isContinuation c then
              some (Char.ofNat (n % 16 * 4096 + payload b * 64 + payload c)) :: scan r₂
            else none :: scan (c :: r₂)
        else none :: scan (b :: r₁)
    else if 0xf0 ≤ n && n < 0xf5 then
      match r with
      | [] => [none]
      | b :: r₁ =>
        if isSecondOfFour a b then
          match r₁ with
          | [] => [none]
          | c :: r₂ =>
            if isContinuation c then
              match r₂ with
              | [] => [none]
              | d :: r₃ =>
                if isContinuation d then
                  some (Char.ofNat (n % 8 * 262144 + payload b * 4096 + payload c * 64 + payload d))
                    :: scan r₃
                else none :: scan (d :: r₃)
            else none :: scan (c :: r₂)
        else none :: scan (b :: r₁)
    else none :: scan r

def decode? (bs : Bytes) : Option (List Char) := (scan bs).mapM id

/-- The text of any byte string, ill-formed stretches replaced by U+FFFD. -/
def decodeLossy (bs : Bytes) : List Char := (scan bs).map (·.getD '\ufffd')

end Utf8

end RolloutLedger

namespace RolloutLedger.Text

/-! ## Telling the encoding of a JSON text

A JSON text begins with an ASCII character, so its encoding shows in a byte-order mark or in
which of its first bytes are zero.  UTF-16 and UTF-32 are read in either byte order; everything
else is UTF-8, whose byte-order mark is dropped.
-/

inductive Encoding where
  | utf8
  | utf16 (bigEndian : Bool)
  | utf32 (bigEndian : Bool)
  deriving DecidableEq

namespace Encoding

/-- The encoding a byte-order mark announces, and the bytes after the mark. -/
def ofMark? : Bytes → Option (Encoding × Bytes)
  | 0x00 :: 0x00 :: 0xfe :: 0xff :: r => some (.utf32 true, r)
  | 0xff :: 0xfe :: 0x00 :: 0x00 :: r => some (.utf32 false, r)
  | 0xfe :: 0xff :: r => some (.utf16 true, r)
  | 0xff :: 0xfe :: r => some (.utf16 false, r)
  | 0xef :: 0xbb :: 0xbf :: r => some (.utf8, r)
  | _ => none

/-- The encoding that the zeros among the first bytes suggest. -/
def ofZeros : Bytes → Encoding
  | a :: b :: c :: d :: _ =>
    if a = 0 then (if b = 0 then .utf32 true else .utf16 true)
    else if b = 0 then (if c = 0 && d = 0 then .utf32 false else .utf16 false)
    else .utf8
  | [a, b] => if a = 0 then .utf16 true else if b = 0 then .utf16 false else .utf8
  | _ => .utf8

/-- A character from its code point; surrogates and numbers beyond U+10FFFF are none. -/
def scalar? (n : Nat) : Option Char :=
  if n.isValidChar then some (Char.ofNat n) else none

def unit16 (bigEndian : Bool) (a b : UInt8) : Nat :=
  if bigEndian then a.toNat * 256 + b.toNat else b.toNat * 256 + a.toNat

def ofSurrogates (high low : Nat) : Nat := 0x10000 + (high - 0xd800) * 0x400 + (low - 0xdc00)

def decode16? (bigEndian : Bool) : Bytes → Option (List Char)
  | [] => some []
  | [_] => none
  | a :: b :: r =>
    let n := unit16 bigEndian a b
    if 0xd800 ≤ n && n < 0xdc00 then
      match r with
      | c :: d :: r' =>
        let m := unit16 bigEndian c d
        if 0xdc00 ≤ m && m < 0xe000 then do
          let x ← scalar? (ofSurrogates n m)
          let xs ← decode16? bigEndian r'
          return x :: xs
        else none
      | _ => none
    else do
      let x ← scalar? n
      let xs ← decode16? bigEndian r
      return x :: xs

def decode32? (bigEndian : Bool) : Bytes → Option (List Char)
  | [] => some []
  | a :: b :: c :: d :: r => do
    let n := if bigEndian then unit16 true a b * 65536 + unit16 true c d
      else unit16 false c d * 65536 + unit16 false a b
    let x ← scalar? n
    let xs ← decode32? bigEndian r
    return x :: xs
  | _ => none

def decode? (e : Encoding) (bs : Bytes) : Option (List Char) :=
  match e with
  | .utf8 => Utf8.decode? bs
  | .utf16 bigEndian => decode16? bigEndian bs
  | .utf32 bigEndian => decode32? bigEndian bs

def decodeAny? (bs : Bytes) : Option (List Char) :=
  match ofMark? bs with
  | some (e, r) => e.decode? r
  | none => (ofZeros bs).decode? bs

end Encoding

end RolloutLedger.Text
