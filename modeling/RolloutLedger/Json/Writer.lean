import RolloutLedger.Value.Literal
import RolloutLedger.Value.Order
/-! # Writing JSON

Values as JSON text.  A layout says whether the members of objects are sorted by key, whether
the text is broken into indented lines, and whether content that is not JSON is written by a
stand-in: bytes as text, instants in ISO form, sets as sorted lists, typed objects as the objects
of their parts, objects of the cluster as their documents.  Inside a typed object an object of
the cluster is written by its parts as well.

Texts are written without escaping anything but quotes, backslashes and control characters;
doubles by the fewest digits that read back; integers up to a number of digits.  A document may
be nested as deeply as it likes: the stack that writing takes is not part of the model.
-/

namespace RolloutLedger.Json

structure Layout where
  sortKeys : Bool
  /-- Blanks per level of nesting; without a number the text is one line. -/
  indent : Option Int
  /-- Whether content that is not JSON is written by a stand-in. -/
  standIns : Bool

/-- One line with sorted keys and JSON content only: the form in which data is stored. -/
def Layout.stored : Layout := ⟨true, none, false⟩

/-! ## Scalars -/

def escapeChar (c : Char) : List Char :=
  if c = '"' then ['\\', '"']
  else if c = '\\' then ['\\', '\\']
  else if c = '\n' then ['\\', 'n']
  else if c = '\r' then ['\\', 'r']
  else if c = '\t' then ['\\', 't']
  else if c = '\x08' then ['\\', 'b']
  else if c = '\x0c' then ['\\', 'f']
  else if c.toNat < 0x20 then '\\' :: 'u' :: Text.hexPadded 4 c.toNat
  else [c]

def quote (cs : List Char) : List Char := '"' :: (cs.flatMap escapeChar ++ ['"'])

def boolText (b : Bool) : List Char := if b then "true".toList else "false".toList

/-- A double; the special numbers have names of their own. -/
def floatText (x : Binary64) : List Char := x.render ⟨"NaN", "Infinity"⟩

def integerText (i : Int) : Except Error (List Char) :=
  if Decimal.isExchangeable i then .ok (Decimal.integer i) else .error .unencodable

def keyText : Key → Except Error (List Char)
  | .text s => .ok s.toList
  | .null => .ok "null".toList
  | .bool b => .ok (boolText b)
  | .int i => integerText i
  | .float x => .ok (floatText x)
  | .bytes _ | .instant _ _ | .options _ | .sealed => .error .unencodable

/-! ## Lists and objects -/

/-- The start of a line at a level of nesting, if there are lines at all. -/
def lineStart (l : Layout) (level : Nat) : List Char :=
  match l.indent with
  | none => []
  | some n => '\n' :: List.replicate (n.toNat * level) ' '

def bracketed (l : Layout) (level : Nat) (left right : Char) : List (List Char) → List Char
  | [] => [left, right]
  | parts =>
    left :: lineStart l (level + 1) ++ (',' :: lineStart l (level + 1)).intercalate parts ++
      lineStart l level ++ [right]

def memberText (l : Layout) (key value : List Char) : List Char :=
  quote key ++ (if l.indent.isNone then [':'] else [':', ' ']) ++ value

/-- A member whose key may have no text and whose value may have failed. -/
def member (l : Layout) (p : Key × Except Error (List Char)) : Except Error (List Char) := do
  let key ← keyText p.1
  return memberText l key (← p.2)

def arrange {α : Type} (l : Layout) (members : List (Key × α)) :
    Except Error (List (Key × α)) :=
  if l.sortKeys then
    match sortMembers? members with
    | some sorted => .ok sorted
    | none => .error .unencodable
  else .ok members

/-- An object at a level of nesting, given its members with their values already written. -/
def objectText (l : Layout) (level : Nat) (members : List (Key × Except Error (List Char))) :
    Except Error (List Char) := do
  let arranged ← arrange l members
  return bracketed l level '\x7b' '\x7d' (← arranged.mapM (member l))

def optionMembers (o : HashOptions) : List (Key × Except Error (List Char)) :=
  [(.text "sort_keys", .ok (boolText o.sortKeys)),
    (.text "indent", match o.indent with
      | none => .ok "null".toList
      | some n => integerText n)]

mutual

/-- A value at a level of nesting; `inside` says whether it is inside a typed object. -/
def write (l : Layout) (inside : Bool) (level : Nat) : Value → Except Error (List Char)
  | .null => .ok "null".toList
  | .bool b => .ok (boolText b)
  | .int i => integerText i
  | .float x => .ok (floatText x)
  | .text s => .ok (quote s.toList)
  | .list items => (writeItems l inside (level + 1) items).map (bracketed l level '[' ']')
  | .object entries => objectText l level (writeMembers l inside (level + 1) entries)
  | .bytes content =>
    if l.standIns then .ok (quote (Utf8.decodeLossy content)) else .error .unencodable
  | .instant reading offset =>
    if l.standIns then .ok (quote (Time.isoForm reading offset)) else .error .unencodable
  | .set items =>
    if l.standIns then do
      let sorted := sortBy (fun p q => textLe p.1 q.1) (writeElements l (level + 1) items)
      return bracketed l level '[' ']' (← sorted.mapM (·.2))
    else .error .unencodable
  | .options o =>
    if l.standIns then objectText l level (optionMembers o) else .error .unencodable
  | .record _ parts =>
    if l.standIns then objectText l level (writeParts l (level + 1) parts)
    else .error .unencodable
  | .resource _ document self =>
    if !l.standIns then .error .unencodable
    else if inside then write l true level self
    else write l false level document
  | .broken cause => .error (if l.standIns then cause else .unencodable)
  | .sealed => .error .unencodable
termination_by structural v => v

def writeItems (l : Layout) (inside : Bool) (level : Nat) :
    List Value → Except Error (List (List Char))
  | [] => .ok []
  | v :: rest => do
    let text ← write l inside level v
    return text :: (← writeItems l inside level rest)
termination_by structural vs => vs

def writeMembers (l : Layout) (inside : Bool) (level : Nat) :
    List (Key × Value) → List (Key × Except Error (List Char))
  | [] => []
  | (k, v) :: rest => (k, write l inside level v) :: writeMembers l inside level rest
termination_by structural es => es

def writeParts (l : Layout) (level : Nat) :
    List (String × Value) → List (Key × Except Error (List Char))
  | [] => []
  | (n, v) :: rest => (.text n, write l true level v) :: writeParts l level rest
termination_by structural ps => ps

/-- The elements of a set, each with the literal by which they are sorted. -/
def writeElements (l : Layout) (level : Nat) :
    List Value → List (String × Except Error (List Char))
  | [] => []
  | v :: rest => (v.literal, write l false level v) :: writeElements l level rest
termination_by structural vs => vs

end

def encodeWith (l : Layout) (v : Value) : Except Error Bytes :=
  (write l false 0 v).map Utf8.encode

def encode (v : Value) : Except Error Bytes := encodeWith .stored v

end RolloutLedger.Json
