import RolloutLedger.Value.Literal
import RolloutLedger.Value.Order
/-! # Label selectors

A selector picks objects by their labels: some labels have to have given values, and further
requirements may ask that a label is or is not among some values, or that it is or is not there
at all.  A selector without any condition picks everything.

Selectors are also rendered as the query text that the cluster understands.
-/

namespace RolloutLedger

inductive Selector.Operator where
  | isIn
  | notIn
  | present
  | absent
  deriving DecidableEq

namespace Selector.Operator

def text : Operator → String
  | isIn => "In"
  | notIn => "NotIn"
  | present => "Exists"
  | absent => "DoesNotExist"

def ofText? : String → Option Operator
  | "In" => some isIn
  | "NotIn" => some notIn
  | "Exists" => some present
  | "DoesNotExist" => some absent
  | _ => none

/-- Whether an operator compares with a list of values. -/
def takesValues : Operator → Bool
  | isIn | notIn => true
  | present | absent => false

end Selector.Operator

structure Selector.Requirement where
  key : String
  operator : Selector.Operator
  values : List String
  /-- There are values exactly if the operator compares with some. -/
  fits : operator.takesValues = !values.isEmpty

namespace Selector.Requirement

/-- The requirement with some parts, if there are values where the operator takes them. -/
def make (key : String) (operator : Operator) (values : List String) :
    Except Error Requirement :=
  if fits : operator.takesValues = !values.isEmpty then .ok ⟨key, operator, values, fits⟩
  else if operator.takesValues then .error (.valuesMissing operator.text key)
  else .error (.valuesUnwanted operator.text key)

/-- Whether a label's value is among the values of a requirement. -/
def lists (r : Requirement) (v : Value) : Bool := r.values.any fun s => v.same (.text s)

def holds (r : Requirement) (labels : Entries) : Bool :=
  match r.operator, Entries.get? (.text r.key) labels with
  | .isIn, some v => r.lists v
  | .isIn, none => false
  | .notIn, some v => !r.lists v
  | .notIn, none => true
  | .present, v => v.isSome
  | .absent, v => v.isNone

/-- The values in order, with commas between them. -/
def valuesText (r : Requirement) : String := ",".intercalate (sortBy textLe r.values)

def query (r : Requirement) : String :=
  match r.operator with
  | .isIn => r.key ++ " in (" ++ r.valuesText ++ ")"
  | .notIn => r.key ++ " notin (" ++ r.valuesText ++ ")"
  | .present => r.key
  | .absent => "!" ++ r.key

end Selector.Requirement

/-- A conjunction of labels with values and further requirements. -/
structure Selector where
  labels : Entries
  requirements : List Selector.Requirement

namespace Selector

def everything : Selector := ⟨[], []⟩

def ofLabels (labels : Entries) : Selector := ⟨labels, []⟩

def isEmpty (s : Selector) : Bool := s.labels.isEmpty && s.requirements.isEmpty

/-- Whether labels have a label with its value; an absent label counts as null. -/
def hasLabel (labels : Entries) (wanted : Key × Value) : Bool :=
  ((Entries.get? wanted.1 labels).getD .null).same wanted.2

def selects (s : Selector) (labels : Entries) : Bool :=
  s.labels.all (hasLabel labels) && s.requirements.all (·.holds labels)

def labelQuery (label : Key × Value) : String :=
  (Value.ofKey label.1).asText ++ "=" ++ label.2.asText

/-- The query text: labels in order of their keys, then the requirements.  Labels whose keys
have no order cannot be put into a query. -/
def query (s : Selector) : Except Error String :=
  match sortMembers? s.labels with
  | some labels =>
    .ok (",".intercalate (labels.map labelQuery ++ s.requirements.map (·.query)))
  | none => .error .wrongType

end Selector

end RolloutLedger
