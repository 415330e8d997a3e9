import RolloutLedger.Journal.Basic
import RolloutLedger.Value.Lenient
/-! # What a logger is asked by name

A program asks something of a logger by name, hands over an event and adds fields.  Most names
write a record and settle its level; a record below the threshold is not written.  The event and
the logger itself are handed over under names of their own, so a field cannot have one of these
names.

One name leaves the level to be handed over in place of the event, which is then a field.  Other
names put a record off until somebody waits for it, derive a logger with other fields or tell
about the threshold; asked in this way they write nothing, and some cannot be asked so at all.
-/

namespace RolloutLedger

def Level.ofMethod? : String → Option Level
  | "debug" => some debug
  | "info" | "msg" => some info
  | "warn" | "warning" => some warning
  | "error" | "exception" => some error
  | "critical" | "fatal" => some critical
  | _ => none

def Level.ofSeverity? (v : Value) : Option Level :=
  [debug, info, warning, error, critical].find? fun l => v.same (.int l.severity)

namespace Logger

inductive Request where
  /-- Write a record at a level; `failure` says whether it is about a failure. -/
  | write (level : Level) (failure : Bool)
  /-- Write a record at a level that is handed over. -/
  | writeAt
  /-- Write a record once somebody waits for it. -/
  | putOff
  /-- Write a record at a level that is handed over, once somebody waits for it. -/
  | putOffAt
  /-- Derive a logger without a field that it has to have. -/
  | release
  /-- Derive a logger without a field. -/
  | releaseIfBound
  /-- Tell whether records with a rank are written. -/
  | tellReach
  /-- Something that takes no event. -/
  | takesNoEvent

def Request.ofName? (name : String) : Option Request :=
  match Level.ofMethod? name with
  | some level => some (.write level (name == "exception"))
  | none => match name with
    | "log" => some .writeAt
    | "adebug" | "ainfo" | "amsg" | "awarn" | "awarning" | "aerror" | "aexception" | "acritical"
    | "afatal" => some .putOff
    | "alog" => some .putOffAt
    | "unbind" => some .release
    | "try_unbind" => some .releaseIfBound
    | "is_enabled_for" => some .tellReach
    | "bind" | "new" | "get_effective_level" => some .takesNoEvent
    | _ => none

/-- Whether one of some names is that of a field. -/
def namesAny (names : List String) (fields : Entries) : Bool :=
  names.any fun n => Entries.has (.text n) fields

/-- The fields of a record, where one about a failure says so unless it was told otherwise. -/
def fieldsFor (failure : Bool) (fields : Entries) : Entries :=
  if failure && !Entries.has (.text "exc_info") fields then
    fields ++ [Entries.field "exc_info" (.bool true)]
  else fields

/-- A record that passes the threshold, with a field for the name of its level ruled out. -/
def written (l : Logger) (level : Level) (event : Value) (fields : Entries) :
    Except Error (Option LogRecord) :=
  if namesAny ["method_name"] fields then .error .wrongType
  else .ok (some (l.recordOf level event fields))

def write (l : Logger) (threshold : Nat) (level : Level) (failure : Bool) (event : Value)
    (fields : Entries) : Except Error (Option LogRecord) :=
  if namesAny ["self", "event"] fields then .error .wrongType
  else if !level.reaches threshold then .ok none
  else l.written level event (fieldsFor failure fields)

/-- The event of a record whose level is handed over in place of it. -/
def eventAmong (fields : Entries) : Except Error Value :=
  if namesAny ["self", "level"] fields then .error .wrongType
  else match Entries.get? (.text "event") fields with
    | some event => .ok event
    | none => .error .wrongType

/-- Whether records with a rank are below a threshold; the rank has to be a number. -/
def isBelow (rank : Value) (threshold : Nat) : Except Error Bool :=
  match rank.scalar? with
  | some n => .ok (n.lt (.int threshold))
  | none => .error .wrongType

/-- The record at a rank, if it passes the threshold; the rank has to be that of a level. -/
def writeAt (l : Logger) (threshold : Nat) (rank : Value) (fields : Entries) :
    Except Error (Option LogRecord) := do
  let event ← eventAmong fields
  if ← isBelow rank threshold then return none
  match Level.ofSeverity? rank with
  | some level => l.written level event (fields.without ["event"])
  | none => throw .nothingThere

/-- What a logger writes when it is asked something by name with an event and fields. -/
def ask (l : Logger) (threshold : Nat) (name : String) (event : Value) (fields : Entries) :
    Except Error (Option LogRecord) :=
  match Request.ofName? name with
  | none => .error .noMembers
  | some (.write level failure) => l.write threshold level failure event fields
  | some .writeAt => l.writeAt threshold event fields
  | some .putOff =>
    if namesAny ["self", "event"] fields then .error .wrongType else .ok none
  | some .putOffAt => (eventAmong fields).map fun _ => none
  | some .release => do
    let key ← event.toKey
    if !fields.isEmpty then throw .wrongType
    else if Entries.has key l.fields then return none
    else throw .nothingThere
  | some .releaseIfBound => do
    let _ ← event.toKey
    if fields.isEmpty then return none else throw .wrongType
  | some .tellReach => do
    let _ ← isBelow event threshold
    if fields.isEmpty then return none else throw .wrongType
  | some .takesNoEvent => .error .wrongType

end Logger

end RolloutLedger
