import RolloutLedger.Text.Numeral
import RolloutLedger.Time.Iso
import RolloutLedger.Value.Literal
/-! # Lenient readings of values

Resource documents are loosely typed: a number may stand where a text is expected, a numeral
where a number is, a list of pairs where an object is.  Each reading here says what a value of
any type counts as when one type is wanted, and which failure a value without such a reading
meets.
-/

namespace RolloutLedger.Value

def memberOr (v : Value) (name : String) (default : Value) : Except Error Value :=
  match v with
  | object entries => .ok ((Entries.get? (.text name) entries).getD default)
  | _ => .error .noMembers

def member (v : Value) (name : String) : Except Error Value := v.memberOr name null

def members : Value → Except Error Entries
  | object entries => .ok entries
  | _ => .error .noMembers

def occursIn (part : List Char) : List Char → Bool
  | [] => part.isEmpty
  | c :: r => part.isPrefixOf (c :: r) || occursIn part r

/-- The value that something holds under a key.  Only an object holds values: a key may occur in
a text or be in a list or a set, but then nothing can be looked up by it. -/
def held (v : Value) (key : Key) : Except Error (Option Value) :=
  match v, key with
  | object entries, _ => .ok (Entries.get? key entries)
  | text s, .text part =>
    if occursIn part.toList s.toList then .error .wrongType else .ok none
  | list items, _ | set items, _ =>
    if items.any fun w => w.same (ofKey key) then .error .wrongType else .ok none
  | _, _ => .error .wrongType

def orEmpty (v : Value) : Value := v.orElse (object [])

/-- What a value holds, one after the other: the items of a list or set, the characters of a
text, the keys of an object. -/
def toItems : Value → Except Error (List Value)
  | list items => .ok items
  | set items => .ok items
  | text s => .ok (s.toList.map fun c => text (String.singleton c))
  | object entries => .ok (entries.map fun p => ofKey p.1)
  | bytes content => .ok (content.map fun b => int b.toNat)
  | _ => .error .wrongType

def itemsOrNone (v : Value) : Except Error (List Value) := (v.orElse (list [])).toItems

/-- A value as a key; what can change or has parts cannot be one. -/
def toKey : Value → Except Error Key
  | text s => .ok (.text s)
  | null => .ok .null
  | bool b => .ok (.bool b)
  | int i => .ok (.int i)
  | float x => .ok (.float x)
  | bytes content => .ok (.bytes content)
  | instant reading offset => .ok (.instant reading offset)
  | options o => .ok (.options o)
  | sealed => .ok .sealed
  | _ => .error .wrongType

/-- An item that holds exactly two things, as a member. -/
def toMember (v : Value) : Except Error (Key × Value) := do
  match ← v.toItems with
  | [k, w] => return (← k.toKey, w)
  | _ => throw .unreadable

/-- The members a value stands for: those of an object, or one for each pair it holds. -/
def toEntries : Value → Except Error Entries
  | object entries => .ok entries
  | v => do
    let pairs ← (← v.toItems).mapM toMember
    return Entries.ofPairs pairs

def entriesOrNone (v : Value) : Except Error Entries := v.orEmpty.toEntries

/-- The integer a value stands for: a double loses its fraction, and a text or a byte string is
read as a numeral. -/
def toInteger : Value → Except Error Int
  | int i => .ok i
  | bool b => .ok (if b then 1 else 0)
  | float .nan => .error .unreadable
  | float x => match x.truncate? with
    | some i => .ok i
    | none => .error .outOfRange
  | text s => match Text.integer? s with
    | some i => .ok i
    | none => .error .unreadable
  | bytes content => match Text.integerOfBytes? content with
    | some i => .ok i
    | none => .error .unreadable
  | _ => .error .wrongType

def textOrEmpty (v : Value) : String := (v.orElse (text "")).asText

/-- The timestamp a value stands for; a blank one stands for none. -/
def toTimestamp? (v : Value) : Except Error (Option Time.Timestamp) :=
  if v.isBlank then .ok none
  else match v with
    | text s => match Time.Iso.timestamp? s with
      | some t => .ok (some t)
      | none => .error .unreadable
    | _ => .error .wrongType

def optional {α : Type} (read : Value → Except Error α) : Value → Except Error (Option α)
  | null => .ok none
  | v => (read v).map some

end RolloutLedger.Value
