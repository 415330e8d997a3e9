import RolloutLedger.Value.Basic
/-! # Values as text

How a value reads inside a message or where a text was expected: texts between quotes, lists
between brackets, objects and sets between braces, clock readings, options and typed objects by
their kind and their parts, and names for null and the truth values.
-/

namespace RolloutLedger.Value

def commaSeparated (parts : List String) : String := ", ".intercalate parts

def boolLiteral (b : Bool) : String := if b then "True" else "False"

def optionsLiteral (o : HashOptions) : String :=
  "HashOptions(sort_keys=" ++ boolLiteral o.sortKeys ++ ", indent=" ++
    (o.indent.map Decimal.text).getD "None" ++ ")"

/-! ## Clock readings -/

/-- A span of time by its days, seconds and microseconds, those that are zero left out; only the
days are negative in a negative span. -/
def spanLiteral (micros : Int) : String :=
  let days := micros / (Time.perDay : Int)
  let inDay := (micros % (Time.perDay : Int)).toNat
  let part (name : String) (n : Int) := if n = 0 then [] else [name ++ "=" ++ Decimal.text n]
  "datetime.timedelta(" ++ commaSeparated (part "days" days ++
    part "seconds" (inDay / Time.perSecond : Nat) ++
    part "microseconds" (inDay % Time.perSecond : Nat)) ++ ")"

def offsetLiteral (offset : Int) : String :=
  if offset = 0 then "datetime.timezone.utc"
  else "datetime.timezone(" ++ spanLiteral offset ++ ")"

/-- A clock reading as a message shows it: without seconds if they are zero, and with the
distance from universal time if it is known. -/
def readingLiteral (reading : Time.Reading) (offset : Option Int) : String :=
  let seconds :=
    if reading.micro ≠ 0 then [reading.second, reading.micro]
    else if reading.second ≠ 0 then [reading.second] else []
  let numbers := [reading.date.year, reading.date.month, reading.date.day, reading.hour,
    reading.minute] ++ seconds
  "datetime.datetime(" ++ commaSeparated (numbers.map (fun (n : Nat) => Decimal.text n) ++
    (offset.map fun o => "tzinfo=" ++ offsetLiteral o).toList) ++ ")"

/-! ## Keys and values -/

def keyLiteral : Key → String
  | .text s => Text.quoted s
  | .null => "None"
  | .bool b => boolLiteral b
  | .int i => Decimal.text i
  | .float x => x.text
  | .bytes content => Text.quotedBytes content
  | .instant reading offset => readingLiteral reading offset
  | .options o => optionsLiteral o
  | .sealed => "<Opaque>"

mutual

def literal : Value → String
  | null => "None"
  | bool b => boolLiteral b
  | int i => Decimal.text i
  | float x => x.text
  | text s => Text.quoted s
  | list items => "[" ++ commaSeparated (literals items) ++ "]"
  | object entries => "\x7b" ++ commaSeparated (memberLiterals entries) ++ "\x7d"
  | bytes content => Text.quotedBytes content
  | instant reading offset => readingLiteral reading offset
  | set items =>
    if items.isEmpty then "set()" else "\x7b" ++ commaSeparated (literals items) ++ "\x7d"
  | options o => optionsLiteral o
  | record kind parts => kind ++ "(" ++ commaSeparated (partLiterals parts) ++ ")"
  | resource _ _ self => literal self
  | broken _ => "<object>"
  | sealed => "<Opaque>"
termination_by structural v => v

def literals : List Value → List String
  | [] => []
  | v :: rest => literal v :: literals rest
termination_by structural v => v

def memberLiterals : List (Key × Value) → List String
  | [] => []
  | (k, v) :: rest => (keyLiteral k ++ ": " ++ literal v) :: memberLiterals rest
termination_by structural v => v

def partLiterals : List (String × Value) → List String
  | [] => []
  | (n, v) :: rest => (n ++ "=" ++ literal v) :: partLiterals rest
termination_by structural v => v

end

/-- A value where a text is expected: a text stands for itself, and a clock reading is given in
ISO form. -/
def asText : Value → String
  | text s => s
  | instant reading offset => Time.plainText reading offset
  | v => v.literal

end RolloutLedger.Value
