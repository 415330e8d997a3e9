import RolloutLedger.Number
/-! # Points in time

A wall-clock reading is a date and a time of day to the microsecond.  A timestamp is a reading
together with its distance from universal time; two timestamps are the same instant when their
counts of microseconds of universal time agree.  On the wire a timestamp is written in universal
time to the second.
-/

namespace RolloutLedger.Time

/-! ## The calendar

Dates of the proleptic Gregorian calendar, years 1 to 9999, and their day numbers: 1 January of
year 1 is day 1.  The way back splits a day number into cycles of 400, 100, 4 and 1 years; the
last day of a leap cycle belongs to the year before, which is why counts of centuries and of
single years stop at three.
-/

def isLeap (year : Nat) : Bool :=
  year % 4 == 0 && (year % 100 != 0 || year % 400 == 0)

def monthLengths (year : Nat) : List Nat :=
  [31, if isLeap year then 29 else 28, 31, 30, 31, 30, 31, 31, 30, 31, 30, 31]

structure Date where
  year : Nat
  month : Nat
  day : Nat
  deriving DecidableEq

def totalDays : List Nat → Nat
  | [] => 0
  | length :: rest => length + totalDays rest

def daysBeforeYear (year : Nat) : Nat :=
  let y := year - 1
  y * 365 + y / 4 - y / 100 + y / 400

def lastDay : Nat := daysBeforeYear 10000

namespace Date

def isValid (d : Date) : Bool :=
  1 ≤ d.year && d.year ≤ 9999 && 1 ≤ d.month && d.month ≤ 12 && 1 ≤ d.day &&
    d.day ≤ (monthLengths d.year).getD (d.month - 1) 0

def number (d : Date) : Nat :=
  daysBeforeYear d.year + totalDays ((monthLengths d.year).take (d.month - 1)) + d.day

/-- The month and the day in it of the day `n` places after the first of month `month`, given
the lengths of the months from there on. -/
def monthAndDay : List Nat → Nat → Nat → Nat × Nat
  | [], month, n => (month, n + 1)
  | length :: rest, month, n =>
    if n < length then (month, n + 1) else monthAndDay rest (month + 1) (n - length)

def ofNumber (number : Nat) : Date :=
  let n := number - 1
  let inCycle := n % 146097
  let centuries := min (inCycle / 36524) 3
  let inCentury := inCycle - centuries * 36524
  let inFour := inCentury % 1461
  let years := min (inFour / 365) 3
  let year := n / 146097 * 400 + centuries * 100 + inCentury / 1461 * 4 + years + 1
  let (month, day) := monthAndDay (monthLengths year) 1 (inFour - years * 365)
  ⟨year, month, day⟩

end Date

/-! ### Weeks -/

/-- The place of a day in its week; Monday is 0. -/
def weekday (number : Nat) : Nat := (number + 6) % 7

/-- The Monday of the first week of a year, the week that holds its first Thursday. -/
def firstMonday (year : Nat) : Nat :=
  let newYear := daysBeforeYear year + 1
  let w := weekday newYear
  if w > 3 then newYear - w + 7 else newYear - w

/-- Whether a year has a week 53: it starts on a Thursday, or on a Wednesday and is leap. -/
def hasLongWeeks (year : Nat) : Bool :=
  let w := weekday (daysBeforeYear year + 1)
  w == 3 || (w == 2 && isLeap year)

/-- The date of a day, counted from one, in a numbered week of a year. -/
def ofWeek? (year week day : Nat) : Option Date :=
  if year = 0 || week = 0 || week > 53 || (week == 53 && !hasLongWeeks year) then none
  else if day = 0 || day > 7 then none
  else some (Date.ofNumber (firstMonday year + (week - 1) * 7 + (day - 1)))

/-! ## Readings and timestamps -/

structure Reading where
  date : Date
  hour : Nat
  minute : Nat
  second : Nat
  micro : Nat
  deriving DecidableEq

def perSecond : Nat := 1000000

def perDay : Nat := 86400 * perSecond

namespace Reading

def isValid (r : Reading) : Bool :=
  r.date.isValid && r.hour < 24 && r.minute < 60 && r.second < 60 && r.micro < perSecond

def micros (r : Reading) : Nat :=
  r.date.number * perDay + ((r.hour * 60 + r.minute) * 60 + r.second) * perSecond + r.micro

def ofMicros (n : Nat) : Reading :=
  let s := n % perDay / perSecond
  ⟨Date.ofNumber (n / perDay), s / 3600, s / 60 % 60, s % 60, n % perSecond⟩

/-- The date and time of day with dashes and colons, and the fraction if there is one. -/
def isoText (separator : Char) (r : Reading) : List Char :=
  Decimal.padded 4 r.date.year ++ '-' :: Decimal.padded 2 r.date.month ++
    '-' :: Decimal.padded 2 r.date.day ++ separator :: Decimal.padded 2 r.hour ++
    ':' :: Decimal.padded 2 r.minute ++ ':' :: Decimal.padded 2 r.second ++
    (if r.micro = 0 then [] else '.' :: Decimal.padded 6 r.micro)

/-- The wire form of a reading of universal time; the year is written without padding. -/
def wireText (r : Reading) : String :=
  String.ofList <|
    Decimal.digits r.date.year ++ '-' :: Decimal.padded 2 r.date.month ++
    '-' :: Decimal.padded 2 r.date.day ++ 'T' :: Decimal.padded 2 r.hour ++
    ':' :: Decimal.padded 2 r.minute ++ ':' :: Decimal.padded 2 r.second ++ ['Z']

end Reading

/-- A distance from universal time: sign, hours and minutes, and what is smaller if it is not
zero. -/
def offsetText (offset : Int) : List Char :=
  let n := offset.natAbs
  let s := n / perSecond
  let micro := n % perSecond
  (if offset < 0 then '-' else '+') :: Decimal.padded 2 (s / 3600) ++
    ':' :: Decimal.padded 2 (s / 60 % 60) ++
    (if s % 60 = 0 && micro = 0 then [] else ':' :: Decimal.padded 2 (s % 60)) ++
    (if micro = 0 then [] else '.' :: Decimal.padded 6 micro)

/-- A reading and its distance from universal time in microseconds, positive to the east. -/
structure Timestamp where
  reading : Reading
  offset : Int
  deriving DecidableEq

namespace Timestamp

/-- Microseconds of universal time from the start of day 0. -/
def instant (t : Timestamp) : Int := t.reading.micros - t.offset

/-- The reading of universal time, if the calendar has it. -/
def universal? (t : Timestamp) : Option Reading :=
  let n := t.instant
  if (perDay : Int) ≤ n && n < ((lastDay + 1) * perDay : Nat) then
    some (Reading.ofMicros n.toNat)
  else none

def ofUniversal (r : Reading) : Timestamp := ⟨r, 0⟩

def earliest : Timestamp := ofUniversal ⟨⟨1, 1, 1⟩, 0, 0, 0, 0⟩

def isoText (t : Timestamp) : String :=
  String.ofList (t.reading.isoText 'T' ++ offsetText t.offset)

/-- The wire form, if universal time has a reading for the instant. -/
def wireText? (t : Timestamp) : Option String := t.universal?.map Reading.wireText

/-- A number of seconds later; meant for small steps inside the calendar. -/
def addSeconds (t : Timestamp) (seconds : Nat) : Timestamp :=
  ⟨Reading.ofMicros (t.reading.micros + seconds * perSecond), t.offset⟩

end Timestamp

/-! ### Readings whose distance from universal time may be unknown -/

/-- Two clock readings of the same instant, or the same reading if neither is tied to
universal time. -/
def sameTime (a : Reading) (offset : Option Int) (b : Reading) (offset' : Option Int) : Bool :=
  match offset, offset' with
  | some x, some y => (⟨a, x⟩ : Timestamp).instant == (⟨b, y⟩ : Timestamp).instant
  | none, none => a == b
  | _, _ => false

/-- Where a clock reading lies among those whose distance from universal time is known, or
among those whose distance is not. -/
def timeLine (a : Reading) (offset : Option Int) : Int := a.micros - offset.getD 0

/-- A clock reading with its date and time of day apart by a blank, and the distance from
universal time if it is known. -/
def plainText (a : Reading) (offset : Option Int) : String :=
  String.ofList (a.isoText ' ' ++ (offset.map offsetText).getD [])

def isoForm (a : Reading) (offset : Option Int) : List Char :=
  a.isoText 'T' ++ (offset.map offsetText).getD []

end RolloutLedger.Time
