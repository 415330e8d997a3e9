/-! # Numbers

Numerals, doubles and integers: what documents hold where they hold numbers.
-/

namespace RolloutLedger.Decimal

/-! ## Decimal numerals

Natural numbers and integers as runs of ASCII digits, and back.  Where numerals are exchanged
their length is limited: an integer with more digits than the limit is neither read nor written.
-/

def digitChar (d : Nat) : Char := Char.ofNat (48 + d)

def isDigit (c : Char) : Bool := 48 ≤ c.toNat && c.toNat ≤ 57

def digitValue (c : Char) : Nat := c.toNat - 48

/-- The digits of `n`, most significant first; `fuel` bounds their number. -/
def digitsUpTo : Nat → Nat → List Char
  | 0, _ => []
  | fuel + 1, n =>
    if n < 10 then [digitChar n] else digitsUpTo fuel (n / 10) ++ [digitChar (n % 10)]

def digits (n : Nat) : List Char := digitsUpTo (n + 1) n

/-- The numeral of an integer, with a minus sign in front of a negative one. -/
def integer : Int → List Char
  | .ofNat n => digits n
  | .negSucc n => '-' :: digits (n + 1)

def value (cs : List Char) : Nat := cs.foldl (fun n c => 10 * n + digitValue c) 0

def padded (width n : Nat) : List Char :=
  let ds := digits n
  List.replicate (width - ds.length) '0' ++ ds

def tenTo (k : Nat) : Nat := Nat.pow 10 k

/-- The most digits with which the runtime writes or reads an integer. -/
def maxDigits : Nat := 4300

/-- An integer whose numeral is not too long to be exchanged. -/
def isExchangeable (i : Int) : Bool := i.natAbs < tenTo maxDigits

def text (i : Int) : String := String.ofList (integer i)

end RolloutLedger.Decimal

namespace RolloutLedger

/-! ## Double-precision numbers, exactly

A finite double is an integer multiple of the smallest positive one, `2⁻¹⁰⁷⁴`.  Its magnitude is
kept as that multiple, so order, equality, truncation and reading from decimals are exact
arithmetic on natural numbers, and no machine operation is involved.

Reading rounds to nearest with ties to even.  Writing uses the fewest significant digits that
read back, and of those the decimal nearest to the number.
-/

/-- A double: not a number, an infinity, or a sign and a multiple of `2⁻¹⁰⁷⁴`. -/
inductive Binary64 where
  | nan
  | infinity (negative : Bool)
  | finite (negative : Bool) (units : Nat)
  deriving DecidableEq, Inhabited

namespace Binary64

/-- One is this many units. -/
def unitsPerOne : Nat := Nat.pow 2 1074

/-- The first magnitude too large for a finite double, `2¹⁰²⁴`. -/
def overflow : Nat := Nat.pow 2 2098

/-- A significand has at most this many bits. -/
def precision : Nat := 53

/-! ### Reading -/

/-- `n / d` rounded to the nearest integer, a half to the even neighbour. -/
def roundHalfEven (n d : Nat) : Nat :=
  let q := n / d
  let r := n % d
  if 2 * r < d then q
  else if d < 2 * r then q + 1
  else if q % 2 = 0 then q else q + 1

def spacing (u : Nat) : Nat := Nat.pow 2 (Nat.log2 u + 1 - precision)

/-- The double nearest to `n / d` units. -/
def ofUnitRatio (negative : Bool) (n d : Nat) : Binary64 :=
  let step := spacing (n / d)
  let units := roundHalfEven n (d * step) * step
  if units < overflow then .finite negative units else .infinity negative

/-- The double nearest to `mantissa * 10 ^ exponent`.  Decimals far outside the range are
settled by their number of digits alone. -/
def ofDecimal (negative : Bool) (mantissa : Nat) (exponent : Int) : Binary64 :=
  let places := (Decimal.digits mantissa).length + exponent
  if mantissa = 0 then .finite negative 0
  else if places > 400 then .infinity negative
  else if places < -400 then .finite negative 0
  else
    match exponent with
    | .ofNat e => ofUnitRatio negative (mantissa * Decimal.tenTo e * unitsPerOne) 1
    | .negSucc e => ofUnitRatio negative (mantissa * unitsPerOne) (Decimal.tenTo (e + 1))

/-! ### Comparing -/

def isZero : Binary64 → Bool
  | .finite _ units => units == 0
  | _ => false

/-- The integer left when the fraction is dropped. -/
def truncate? : Binary64 → Option Int
  | .finite negative units =>
    let whole : Int := (units / unitsPerOne : Nat)
    some (if negative then -whole else whole)
  | _ => none

/-! ### Writing -/

/-- A decimal `0.d₁d₂… * 10 ^ point`, given by the number `d₁d₂…`. -/
structure Digits where
  number : Nat
  point : Int

/-- The place of the decimal point of a positive magnitude: the number lies in
`[10 ^ (point - 1), 10 ^ point)`. -/
def pointOf (units : Nat) : Int :=
  ((Decimal.digits (units * Decimal.tenTo 324 / unitsPerOne)).length : Int) - 324

/-- The decimals `n * 10 ^ p` on a grid, as a ratio of counts of a quarter unit. -/
def gridRatio (p : Int) : Nat × Nat :=
  match p with
  | .ofNat e => (4 * unitsPerOne * Decimal.tenTo e, 1)
  | .negSucc e => (4 * unitsPerOne, Decimal.tenTo (e + 1))

/-- The multiple of `10 ^ (point - places)` that reads back as `units`, if there is one: of the
two neighbours of the number on that grid the nearer, in a tie the even one. -/
def onGrid? (units : Nat) (point : Int) (places : Nat) : Option Nat :=
  let step := spacing units
  let significand := units / step
  let below := if significand = Nat.pow 2 (precision - 1) && 1 < step then step else 2 * step
  let (num, den) := gridRatio (point - places)
  let here := 4 * units * den
  let low := (4 * units - below) * den
  let high := (4 * units + 2 * step) * den
  let readsBack (c : Nat) : Bool :=
    if significand % 2 = 0 then low ≤ c * num && c * num ≤ high
    else low < c * num && c * num < high
  let lower := here / num
  let upper := lower + 1
  match readsBack lower, readsBack upper with
  | true, true =>
    let down := here - lower * num
    let up := upper * num - here
    if down < up then some lower
    else if up < down then some upper
    else if lower % 2 = 0 then some lower else some upper
  | true, false => some lower
  | false, true => some upper
  | false, false => none

/-- The shortest decimal that reads back as a positive magnitude, tried from `places` digits on;
seventeen always suffice. -/
def shortestFrom (units : Nat) (point : Int) : Nat → Nat → Digits
  | 0, places => ⟨(onGrid? units point places).getD 0, point - places⟩
  | tries + 1, places =>
    match onGrid? units point places with
    | some c => ⟨c, point - places⟩
    | none => shortestFrom units point tries (places + 1)

/-- The digits of a positive magnitude without trailing zeros, and where its point stands. -/
def shortest (units : Nat) : List Char × Int :=
  let found := shortestFrom units (pointOf units) 16 1
  let ds := Decimal.digits found.number
  (((ds.reverse.dropWhile (· == '0')).reverse), found.point + ds.length)

/-- Exponents are written with a sign and at least two digits. -/
def exponentText (e : Int) : List Char :=
  (if e < 0 then ['-'] else ['+']) ++ Decimal.padded 2 e.natAbs

/-- A magnitude is written positionally when its leading digit stands for `10 ^ k` with
`-4 ≤ k < 16`, and with an exponent otherwise. -/
def magnitudeText (units : Nat) : List Char :=
  if units = 0 then ['0', '.', '0']
  else
    let (ds, point) := shortest units
    if -4 < point && point ≤ 16 then
      if point ≤ 0 then '0' :: '.' :: (List.replicate point.natAbs '0' ++ ds)
      else
        let whole := ds.take point.toNat
        let rest := ds.drop point.toNat
        whole ++ List.replicate (point.toNat - ds.length) '0' ++
          '.' :: (if rest.isEmpty then ['0'] else rest)
    else
      let mantissa := match ds with
        | [] => []
        | [d] => [d]
        | d :: rest => d :: '.' :: rest
      mantissa ++ 'e' :: exponentText (point - 1)

structure Spelling where
  nan : String
  infinity : String

/-- The text of a double under a spelling of the special numbers. -/
def render (s : Spelling) : Binary64 → List Char
  | .nan => s.nan.toList
  | .infinity negative => (if negative then ['-'] else []) ++ s.infinity.toList
  | .finite negative units => (if negative then ['-'] else []) ++ magnitudeText units

/-- In plain text the special numbers are `nan` and `inf`. -/
def text (x : Binary64) : String := String.ofList (render ⟨"nan", "inf"⟩ x)

end Binary64

/-! ## Integers and doubles on one line

Documents hold integers of any size beside doubles.  Both are compared by their exact values,
whatever their types, so `1` and `1.0` agree; what is not a number agrees with nothing.
-/

inductive Scalar where
  | int (i : Int)
  | float (x : Binary64)
  deriving DecidableEq

namespace Scalar

/-- A place on the line of numbers and its two ends; what is not a number has none. -/
inductive Place where
  | bottom
  | at (units : Int)
  | top
  deriving DecidableEq

/-- Where a number lies, counted in multiples of `2⁻¹⁰⁷⁴`. -/
def place? : Scalar → Option Place
  | .int i => some (.at (i * Binary64.unitsPerOne))
  | .float .nan => none
  | .float (.infinity negative) => some (if negative then .bottom else .top)
  | .float (.finite negative units) => some (.at (if negative then -(units : Int) else units))

/-- Whether a place comes before another or is the same. -/
def Place.le : Place → Place → Bool
  | .bottom, _ => true
  | _, .top => true
  | .at m, .at n => m ≤ n
  | _, _ => false

def same : Scalar → Scalar → Bool
  | .int i, .int j => i == j
  | a, b => match a.place?, b.place? with
    | some p, some q => p == q
    | _, _ => false

def le : Scalar → Scalar → Bool
  | .int i, .int j => i ≤ j
  | a, b => match a.place?, b.place? with
    | some p, some q => p.le q
    | _, _ => false

def lt (a b : Scalar) : Bool := a.le b && !b.le a

def toBinary64 : Scalar → Binary64
  | .int i => .ofDecimal (i < 0) i.natAbs 0
  | .float x => x

/-- Whether a number is an integer too large for a finite double. -/
def exceedsDoubles : Scalar → Bool
  | .int i => match toBinary64 (.int i) with
    | .infinity _ => true
    | _ => false
  | .float _ => false

def text : Scalar → String
  | .int i => Decimal.text i
  | .float x => x.text

end Scalar

end RolloutLedger
