import RolloutLedger.Text.Numeral
import RolloutLedger.Value.Literal
/-! # Journals

What an operation leaves behind besides its answer: the log records it writes, the counters it
raises, and the calls it makes to the store behind it, all in the order in which they happen.

Log records show an object of the cluster by its reference and not by its content, and whatever
else is not JSON by its literal.
-/

namespace RolloutLedger

/-! ## Log levels

A record is written at a level, and a log takes the records whose level reaches its threshold.
The threshold is chosen by name, in upper or lower case; a name that is not known chooses the
threshold of ordinary information.  The format of records and the table of their styles are kept
among the levels, and their names cannot be used for one.
-/

inductive Level where
  | debug
  | info
  | warning
  | error
  | critical
  deriving DecidableEq

namespace Level

def text : Level → String
  | debug => "debug"
  | info => "info"
  | warning => "warning"
  | error => "error"
  | critical => "critical"

def severity : Level → Nat
  | debug => 10
  | info => 20
  | warning => 30
  | error => 40
  | critical => 50

def namedThreshold? : String → Option Nat
  | "notset" => some 0
  | "debug" => some 10
  | "info" => some 20
  | "warn" | "warning" => some 30
  | "error" => some 40
  | "critical" | "fatal" => some 50
  | _ => none

/-- A letter as it is compared in a level's name: without case, where the dotless i and the
long s count as the letters whose capitals they share, and a ligature as its letters. -/
def foldLetter (c : Char) : List Char :=
  if c = 'ı' then ['i']
  else if c = 'ſ' then ['s']
  else if c = 'ﬅ' || c = 'ﬆ' then ['s', 't']
  else [Text.lowerAscii c]

def foldName (name : String) : String := String.ofList (name.toList.flatMap foldLetter)

def threshold (name : String) : Except Error Nat :=
  match foldName name with
  | "basic_format" => .error .nothingThere
  | "_styles" => .error .wrongType
  | folded => .ok ((namedThreshold? folded).getD info.severity)

def thresholdOf : Value → Except Error Nat
  | .text name => threshold name
  | .bytes _ => .error .wrongType
  | _ => .error .noMembers

def reaches (l : Level) (threshold : Nat) : Bool := threshold ≤ l.severity

end Level

/-! ## Records and calls -/

/-- A log record: its level, what happened, and the fields that tell more. -/
structure LogRecord where
  level : Level
  /-- What happened; null if the record does not say. -/
  event : Value
  /-- The fields, the name of the component that writes the record among them. -/
  fields : Entries

/-- The part of a program that writes log records, with the fields all of its records have. -/
structure Logger where
  fields : Entries

namespace Logger

def ofComponent (name : String) : Logger := ⟨[Entries.field "component" (.text name)]⟩

def bind (l : Logger) (name : String) (v : Value) : Logger :=
  ⟨Entries.put (.text name) v l.fields⟩

/-- A record about an event of any kind, with fields of its own, which hide fields of the
logger. -/
def recordOf (l : Logger) (level : Level) (event : Value) (fields : Entries) : LogRecord :=
  ⟨level, event, Entries.ofPairs (l.fields ++ fields)⟩

def record (l : Logger) (level : Level) (event : String) (fields : Entries) : LogRecord :=
  l.recordOf level (.text event) fields

end Logger

namespace LogRecord

mutual

/-- A value with literals in place of the parts that are not JSON. -/
def plain : Value → Value
  | .list items => .list (plainItems items)
  | .object entries => .object (plainMembers entries)
  | .bytes content => .text (Value.bytes content).literal
  | .instant reading offset => .text (Value.instant reading offset).literal
  | .set items => .text (Value.set items).literal
  | .options o => .text (Value.options o).literal
  | .record kind parts => .text (Value.record kind parts).literal
  | .resource reference document self => .text (Value.resource reference document self).literal
  | .broken cause => .text (Value.broken cause).literal
  | .sealed => .text Value.sealed.literal
  | v => v
termination_by structural v => v

def plainItems : List Value → List Value
  | [] => []
  | v :: rest => plain v :: plainItems rest
termination_by structural vs => vs

def plainMembers : List (Key × Value) → List (Key × Value)
  | [] => []
  | (k, v) :: rest => (k, plain v) :: plainMembers rest
termination_by structural es => es

end

/-- A field of a record: an object of the cluster is shown by its reference. -/
def shown : Value → Value
  | .resource reference _ _ => .text reference
  | v => plain v

/-- The fields that never show: the one under which a log puts the time of a record, and the one
that says whether the stack of calls is wanted. -/
def hiddenFields : List String := ["ts", "stack_info"]

/-- The fields of a record with its event among them, if it has one. -/
def fieldsWithEvent (r : LogRecord) : Entries :=
  match r.event with
  | .null => r.fields
  | event => Entries.put (.text "event") event r.fields

/-- A record as a document, without its time.  Its event and its level hide fields of those
names. -/
def document (r : LogRecord) : Value :=
  let fields := (Entries.without hiddenFields r.fieldsWithEvent).map fun p => (p.1, shown p.2)
  .object (Entries.put (.text "level") (.text r.level.text) fields)

end LogRecord

inductive Operation where
  | list
  | create
  | delete
  deriving DecidableEq

def Operation.text : Operation → String
  | list => "list"
  | create => "create"
  | delete => "delete"

inductive Counter where
  /-- Revisions put together. -/
  | built
  /-- Revisions stored. -/
  | created
  /-- Revisions deleted because the history was too long. -/
  | pruned
  /-- Failed calls to the cluster, by operation. -/
  | storeErrors (operation : Operation)
  /-- Checks that found a difference, by the first field that differs. -/
  | mismatches (field : String)
  deriving DecidableEq

def Counter.text : Counter → String
  | built => "built"
  | created => "created"
  | pruned => "pruned"
  | storeErrors operation => "store_errors/" ++ operation.text
  | mismatches field => "mismatches/" ++ field

inductive Call where
  | list (ns query : String)
  /-- A revision was handed over. -/
  | create (ns name : String)
  /-- A document was handed over. -/
  | submit (ns : String) (body : Value)
  | delete (ns name : String)
  /-- An object of the cluster's client was turned into its document. -/
  | unwrap

inductive Note where
  | logged (record : LogRecord)
  | counted (counter : Counter)
  | called (call : Call)

abbrev Journal := List Note

namespace Journal

def records (threshold : Nat) (j : Journal) : List LogRecord :=
  j.filterMap fun
    | .logged r => if r.level.reaches threshold then some r else none
    | _ => none

/-- The counters raised, once for each time. -/
def counters (j : Journal) : List Counter :=
  j.filterMap fun
    | .counted c => some c
    | _ => none

def calls (j : Journal) : List Call :=
  j.filterMap fun
    | .called c => some c
    | _ => none

def count (c : Counter) (j : Journal) : Nat := j.counters.count c

@[simp] theorem counters_append (i j : Journal) :
    counters (i ++ j) = counters i ++ counters j := by
  simp [counters]

@[simp] theorem calls_append (i j : Journal) : calls (i ++ j) = calls i ++ calls j := by
  simp [calls]

@[simp] theorem count_append (c : Counter) (i j : Journal) :
    count c (i ++ j) = count c i + count c j := by
  simp [count]

/-- Each counter that was raised with the number of times, in the order of the first times. -/
def increments (j : Journal) : List (Counter × Nat) :=
  j.counters.eraseDups.map fun c => (c, j.count c)

end Journal

end RolloutLedger
