import RolloutLedger.Error
import RolloutLedger.Text.Encoding
import RolloutLedger.Time.Timestamp
/-! # Documents

A value is what a document holds: the data of JSON, with integers of any size apart from
doubles, and the few things that travel with documents inside a program without being JSON.
Objects keep the order in which their members were put; their keys are texts in every document
that was read, and may be other scalars where an object was put together from pairs.

Nothing in the type keeps the keys of an object apart.  Every operation here that adds a member
replaces one whose key agrees, so objects built through `Entries.put` have distinct keys.
-/

namespace RolloutLedger

/-! ## Options of the canonical form

Structured content is brought into a canonical form before it is digested.  The options of the
form are whether the members of objects are sorted and how the text is indented.
-/

/-- How content is brought into canonical form. -/
structure HashOptions where
  sortKeys : Bool
  /-- Blanks per level of nesting; without a number the text is one line. -/
  indent : Option Int
  deriving DecidableEq

namespace HashOptions

def standard : HashOptions := ⟨true, none⟩

instance : Inhabited HashOptions := ⟨standard⟩

end HashOptions

/-! ## Values -/

/-- The key of a member of an object: a value that cannot change. -/
inductive Key where
  | text (s : String)
  | null
  | bool (b : Bool)
  | int (i : Int)
  | float (x : Binary64)
  | bytes (content : Bytes)
  | instant (reading : Time.Reading) (offset : Option Int)
  | options (o : HashOptions)
  /-- Something of the running program, like no other key. -/
  | sealed
  deriving DecidableEq

namespace Key

/-- A key as a number; truth values count as 0 and 1. -/
def scalar? : Key → Option Scalar
  | bool b => some (.int (if b then 1 else 0))
  | int i => some (.int i)
  | float x => some (.float x)
  | _ => none

/-- Two keys that address the same member. -/
def same : Key → Key → Bool
  | text a, text b => a == b
  | null, null => true
  | bytes a, bytes b => a == b
  | instant a x, instant b y => Time.sameTime a x b y
  | options a, options b => a == b
  | a, b => match a.scalar?, b.scalar? with
    | some x, some y => x.same y
    | _, _ => false

def text? : Key → Option String
  | text s => some s
  | _ => none

end Key

inductive Value where
  | null
  | bool (b : Bool)
  | int (i : Int)
  | float (x : Binary64)
  | text (s : String)
  | list (items : List Value)
  | object (entries : List (Key × Value))
  /-- A byte string. -/
  | bytes (content : Bytes)
  /-- A clock reading, with its distance from universal time if that is known. -/
  | instant (reading : Time.Reading) (offset : Option Int)
  /-- Values without an order, no two of them alike. -/
  | set (items : List Value)
  | options (o : HashOptions)
  /-- A typed object by its parts. -/
  | record (kind : String) (parts : List (String × Value))
  /-- An object of the cluster: the reference that names it in log records, its document, and
  the object itself by its parts. -/
  | resource (reference : String) (document self : Value)
  /-- In place of a document that cannot be made, with the failure met in making it. -/
  | broken (cause : Error)
  /-- Something of the running program that has no encoding at all. -/
  | sealed
  deriving Inhabited

abbrev Entries := List (Key × Value)

namespace Entries

def get? (k : Key) : Entries → Option Value
  | [] => none
  | (k', v) :: rest => if k.same k' then some v else get? k rest

def has (k : Key) (es : Entries) : Bool := (es.get? k).isSome

/-- Set a member: in its place if it is there, at the end otherwise. -/
def put (k : Key) (v : Value) : Entries → Entries
  | [] => [(k, v)]
  | (k', w) :: rest => if k.same k' then (k', v) :: rest else (k', w) :: put k v rest

def drop (k : Key) : Entries → Entries
  | [] => []
  | (k', w) :: rest => if k.same k' then rest else (k', w) :: drop k rest

/-- Members put one after the other, so that the last value of a key wins at its first place. -/
def ofPairs (pairs : List (Key × Value)) : Entries :=
  pairs.foldl (fun es p => put p.1 p.2 es) []

/-- The members whose keys are not among the named ones. -/
def without (names : List String) (es : Entries) : Entries :=
  es.filter fun p => !(names.any fun n => (Key.text n).same p.1)

def field (name : String) (v : Value) : Key × Value := (.text name, v)

def fieldIf (present : Bool) (name : String) (v : Value) : Entries :=
  if present then [field name v] else []

end Entries

namespace Value

/-- A number, or a truth value counted as 0 or 1. -/
def scalar? : Value → Option Scalar
  | bool b => some (.int (if b then 1 else 0))
  | int i => some (.int i)
  | float x => some (.float x)
  | _ => none

/-- A value with nothing in it: null, false, zero, or an empty text, list, object or set. -/
def isBlank : Value → Bool
  | null => true
  | bool b => !b
  | int i => i == 0
  | float x => x.isZero
  | text s => s == ""
  | list items => items.isEmpty
  | object entries => entries.isEmpty
  | bytes content => content.isEmpty
  | set items => items.isEmpty
  | _ => false

def orElse (v default : Value) : Value := if v.isBlank then default else v

def present? : Value → Option Value
  | null => none
  | v => some v

def kind : Value → String
  | null => "NoneType"
  | bool _ => "bool"
  | int _ => "int"
  | float _ => "float"
  | text _ => "str"
  | list _ => "list"
  | object _ => "dict"
  | bytes _ => "bytes"
  | instant _ _ => "datetime"
  | set _ => "set"
  | options _ => "HashOptions"
  | record kind _ => kind
  | resource _ _ self => self.kind
  | broken _ => "object"
  | sealed => "Opaque"

def ofKey : Key → Value
  | .text s => text s
  | .null => null
  | .bool b => bool b
  | .int i => int i
  | .float x => float x
  | .bytes content => bytes content
  | .instant reading offset => instant reading offset
  | .options o => options o
  | .sealed => sealed

/-- A document, or in its place the failure met in making it. -/
def ofDocument : Except Error Value → Value
  | .ok document => document
  | .error cause => broken cause

def ofTimestamp? : Option Time.Timestamp → Value
  | none => null
  | some t => instant t.reading (some t.offset)

def ofInt? : Option Int → Value
  | none => null
  | some i => int i

def ofScalar : Scalar → Value
  | .int i => int i
  | .float x => float x

end Value

/-! ## Equality of values

Two values are alike when they hold the same content: numbers by value whatever their type,
truth values as 0 and 1, lists place by place, objects and sets without regard to order, typed
objects part by part.  What is not a number is like nothing, and neither is sealed content,
unless the two values are known to come from the same source.
-/

namespace Value

/-- Two numbers of the same value, or twice what is not a number out of one source. -/
def alikeScalars (oneSource : Bool) (a b : Scalar) : Bool :=
  a.same b || (oneSource && a == .float .nan && b == .float .nan)

/-- Two keys that address the same member, or that have no like but come out of one source. -/
def alikeKeys (oneSource : Bool) (a b : Key) : Bool :=
  a.same b || (oneSource && (a == .float .nan || a == .sealed) && a == b)

mutual

/-- Whether two values hold the same content. -/
def alike (oneSource : Bool) : Value → Value → Bool
  | null, null => true
  | text a, text b => a == b
  | list xs, list ys => alikeItems oneSource xs ys
  | object es, object fs => es.length == fs.length && alikeMembers oneSource es fs
  | bytes a, bytes b => a == b
  | instant a x, instant b y => Time.sameTime a x b y
  | set xs, set ys => xs.length == ys.length && alikeElements oneSource xs ys
  | options a, options b => a == b
  | record kind ps, record kind' qs => kind == kind' && alikeParts oneSource ps qs
  | resource _ _ a, resource _ _ b => alike oneSource a b
  | broken _, broken _ => oneSource
  | sealed, sealed => oneSource
  | a, b => match a.scalar?, b.scalar? with
    | some x, some y => alikeScalars oneSource x y
    | _, _ => false
termination_by structural a => a

def alikeItems (oneSource : Bool) : List Value → List Value → Bool
  | [], [] => true
  | x :: xs, y :: ys => alike oneSource x y && alikeItems oneSource xs ys
  | _, _ => false
termination_by structural a => a

/-- Every member of the first object is in the second with a like value. -/
def alikeMembers (oneSource : Bool) : List (Key × Value) → List (Key × Value) → Bool
  | [], _ => true
  | (k, v) :: rest, fs =>
    fs.any (fun q => alikeKeys oneSource k q.1 && alike oneSource v q.2) &&
      alikeMembers oneSource rest fs
termination_by structural a => a

/-- Typed objects with the same parts, each alike. -/
def alikeParts (oneSource : Bool) : List (String × Value) → List (String × Value) → Bool
  | [], [] => true
  | (n, v) :: ps, (m, w) :: qs => n == m && alike oneSource v w && alikeParts oneSource ps qs
  | _, _ => false
termination_by structural a => a

def alikeElements (oneSource : Bool) : List Value → List Value → Bool
  | [], _ => true
  | x :: xs, ys => ys.any (fun y => alike oneSource x y) && alikeElements oneSource xs ys
termination_by structural a => a

end

/-- Two values from different sources hold the same content. -/
def same (a b : Value) : Bool := alike false a b

end Value

/-- Two objects from different sources with the same members. -/
def Entries.same (es fs : Entries) : Bool := Value.same (.object es) (.object fs)

end RolloutLedger
