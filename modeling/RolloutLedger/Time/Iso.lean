import RolloutLedger.Time.Timestamp
/-! # Reading dates and times

ISO 8601 texts: a calendar date or a week date, with or without dashes, then one character of
any kind, then a time of day with or without colons, a fraction, and a distance from universal
time.  The date's form shows where it ends.  Fractions are cut to microseconds.

A time of day may be followed by one stray ASCII character when a distance comes next; without a
distance the text has to end.  A NUL counts as the end of the text.
-/

namespace RolloutLedger.Time.Iso

/-- The number given by exactly `count` digits at the front, and what follows them. -/
def number? (count : Nat) (cs : List Char) : Option (Nat × List Char) :=
  let ds := cs.take count
  if ds.length = count && ds.all Decimal.isDigit then some (Decimal.value ds, cs.drop count)
  else none

def dash? (due : Bool) (cs : List Char) : Option (List Char) :=
  if due then (match cs with | '-' :: r => some r | _ => none) else some cs

/-! ## Dates -/

/-- How many characters the date takes, from the form of its first characters. -/
def dateLength? (cs : List Char) : Option Nat :=
  let n := cs.length
  if n < 7 then none
  else if n = 7 then some 7
  else if cs[4]? = some '-' then
    if cs[5]? = some 'W' then
      if cs[8]? = some '-' then
        if n = 9 then none
        else if (cs[10]?).any Decimal.isDigit then some 8
        else some 10
      else some 8
    else some 10
  else if cs[4]? = some 'W' then
    let run := 7 + ((cs.drop 7).takeWhile Decimal.isDigit).length
    if run < 9 then some run else if run % 2 = 0 then some 7 else some 8
  else some 8

/-- The date at the front of a text, when it takes `length` characters. -/
def date? (cs : List Char) (length : Nat) : Option Date := do
  let (year, r) ← number? 4 cs
  let dashed := r.head? == some '-'
  let r := if dashed then r.drop 1 else r
  match r with
  | 'W' :: r => do
    let (week, r) ← number? 2 r
    if (if dashed then 8 else 7) < length then
      let r ← dash? dashed r
      let (day, _) ← number? 1 r
      ofWeek? year week day
    else ofWeek? year week 1
  | r => do
    let (month, r) ← number? 2 r
    let r ← dash? dashed r
    let (day, _) ← number? 2 r
    if length = (if dashed then 10 else 8) then some ⟨year, month, day⟩ else none

/-! ## Times of day -/

/-- Hours, minutes, seconds and microseconds, and whether something stands after them. -/
structure Clock where
  hour : Nat
  minute : Nat
  second : Nat
  micro : Nat
  stray : Bool

/-- Whether a text goes on: it is not empty and does not begin with a NUL. -/
def goesOn : List Char → Bool
  | [] => false
  | c :: _ => c != '\x00'

/-- The fraction at the end of a time of day, cut to microseconds. -/
def fraction? (h m s : Nat) (cs : List Char) : Option Clock :=
  let ds := cs.take 6
  if !ds.isEmpty && ds.all Decimal.isDigit then
    some ⟨h, m, s, Decimal.value ds * Decimal.tenTo (6 - ds.length),
      goesOn ((cs.drop 6).dropWhile Decimal.isDigit)⟩
  else none

/-- What stands between two fields of a time of day. -/
inductive Gap where
  /-- The time of day ends here, perhaps with one stray character. -/
  | done (stray : Bool)
  /-- Another field follows. -/
  | field (rest : List Char)
  /-- A fraction follows. -/
  | fraction (rest : List Char)

/-- Look at what follows a field; `colons` says whether colons separate the fields. -/
def gap? (colons : Bool) : List Char → Option Gap
  | [] => some (.done false)
  | [c] => if c.toNat < 0x80 then some (.done (goesOn [c])) else none
  | c :: r =>
    if colons && c = ':' then some (.field r)
    else if c = '.' || c = ',' then some (.fraction r)
    else if colons then none
    else some (.field (c :: r))

def clock? (cs : List Char) : Option Clock := do
  let (h, r) ← number? 2 cs
  let colons := r.head? == some ':'
  match ← gap? colons r with
  | .done stray => return ⟨h, 0, 0, 0, stray⟩
  | .fraction r => fraction? h 0 0 r
  | .field r => do
    let (m, r) ← number? 2 r
    match ← gap? colons r with
    | .done stray => return ⟨h, m, 0, 0, stray⟩
    | .fraction r => fraction? h m 0 r
    | .field r => do
      let (s, r) ← number? 2 r
      match ← gap? colons r with
      | .done stray => return ⟨h, m, s, 0, stray⟩
      | .fraction r => fraction? h m s r
      | .field r => fraction? h m s r

/-! ## Distances from universal time -/

def startsOffset (c : Char) : Bool := c = '+' || c = '-' || c = 'Z'

/-- The distance in microseconds; a distance of less than a second counts as none, and one of a
day or more is refused. -/
def offset? : List Char → Option Int
  | 'Z' :: r => if goesOn r then none else some 0
  | c :: r => do
    let clock ← clock? r
    if clock.stray then none
    let seconds := (clock.hour * 60 + clock.minute) * 60 + clock.second
    if seconds = 0 then some 0
    else
      let micros := seconds * perSecond + clock.micro
      if micros < perDay then some (if c = '-' then -(micros : Int) else micros) else none
  | [] => none

/-- A time of day with its distance from universal time, if one is given. -/
def time? (cs : List Char) : Option (Clock × Option Int) := do
  let clock ← clock? (cs.takeWhile fun c => !startsOffset c)
  match cs.dropWhile fun c => !startsOffset c with
  | [] => if clock.stray then none else some (clock, none)
  | zone => (offset? zone).map fun o => (clock, some o)

def read? (s : String) : Option (Reading × Option Int) := do
  let cs := s.toList
  let length ← dateLength? cs
  let date ← date? cs length
  let (clock, offset) ← match cs.drop length with
    | [] => some (⟨0, 0, 0, 0, false⟩, none)
    | _ :: r => time? r
  let reading : Reading := ⟨date, clock.hour, clock.minute, clock.second, clock.micro⟩
  if reading.isValid then some (reading, offset) else none

/-- A timestamp; without a distance it is meant in universal time. -/
def timestamp? (s : String) : Option Timestamp :=
  (read? s).map fun (reading, offset) => ⟨reading, offset.getD 0⟩

end RolloutLedger.Time.Iso
