import RolloutLedger.Number
import RolloutLedger.Text.Quoted
/-! # What can go wrong

Every failure of the library, by its cause.  Failures of loosely typed input and of the program
that runs the library carry no text; all others have a message, given here in one place.
-/

namespace RolloutLedger

inductive MalformedPatch where
  | undecodable
  | notAnObject
  | noSpec
  | noRoles
  | roleNotAnObject
  | unnamedRole
  | policyNotAnObject
  | unknownDirective (shown : String)
  deriving DecidableEq

namespace MalformedPatch

def message : MalformedPatch → String
  | undecodable => "cannot decode revision data"
  | notAnObject => "revision patch is not a JSON object"
  | noSpec => "spec not found or wrong type"
  | noRoles => "roles not found or wrong type"
  | roleNotAnObject => "invalid role structure"
  | unnamedRole => "role missing name field"
  | policyNotAnObject => "podGroupPolicy has wrong type"
  | unknownDirective shown => "unknown patch directive " ++ shown

end MalformedPatch

inductive PatchFault where
  | notAnObject (kind : String)
  | deletesDocument
  | unknownDirective (shown : String)
  deriving DecidableEq

namespace PatchFault

def message : PatchFault → String
  | notAnObject kind => "patch must be a JSON object, got " ++ kind
  | deletesDocument => "patch cannot delete the whole document"
  | unknownDirective shown => "unknown patch directive " ++ shown

end PatchFault

/-- A call to the revision store that failed; such a call may be tried again. -/
structure StoreFailure where
  operation : String
  detail : String
  timedOut : Bool
  deriving DecidableEq

namespace StoreFailure

def refused (operation detail : String) : StoreFailure := ⟨operation, detail, false⟩

def message (f : StoreFailure) : String :=
  "revision store " ++ f.operation ++ " failed: " ++ f.detail

end StoreFailure

inductive Outage where
  /-- The cluster refused the call. -/
  | refused
  /-- The connection broke. -/
  | disconnected
  /-- The time for the call was over. -/
  | overdue
  /-- The server took too long. -/
  | serverOverdue
  /-- Something that nobody expects. -/
  | unexpected
  deriving DecidableEq

inductive Error where
  /-- An operation met a value of a type it does not take. -/
  | wrongType
  /-- A member was asked of a value that has none. -/
  | noMembers
  /-- A text or number that has no reading of the wanted kind. -/
  | unreadable
  /-- A number or instant too large for its type. -/
  | outOfRange
  /-- The wait for the store is not a positive number of seconds. -/
  | timeoutNotPositive (timeout : Binary64)
  | unknownLogLevel (name : String)
  /-- Nothing is kept under a key. -/
  | nothingThere
  | valuesMissing (operator key : String)
  | valuesUnwanted (operator key : String)
  | limitTooSmall (shown : String)
  /-- A document holds something that has no encoding. -/
  | unencodable
  /-- Content to be hashed holds something that has no canonical form. -/
  | notCanonical (kind : String)
  /-- A text is not JSON. -/
  | notJson
  /-- A text is nested too deeply to be read. -/
  | tooDeep
  /-- Stored data is not an encoded document. -/
  | undecodable
  /-- A revision without data was to be restored. -/
  | noPatchData (revision : String)
  /-- A restored document does not describe a group. -/
  | notAGroup
  | malformed (cause : MalformedPatch)
  | patch (cause : PatchFault)
  | store (failure : StoreFailure)
  /-- A component that the program cannot do without did not start. -/
  | notStarted (component cause : String)
  /-- The running call was given up from outside. -/
  | cancelled
  /-- A call ended without an answer, and nobody turned that into a failure of the store. -/
  | outage (cause : Outage)
  deriving DecidableEq

namespace Error

def message? : Error → Option String
  | wrongType | noMembers | unreadable | outOfRange | nothingThere | notJson | tooDeep
  | cancelled | outage _ => none
  | timeoutNotPositive timeout =>
    some ("Invalid store timeout: " ++ timeout.text ++ ". Must be positive")
  | unknownLogLevel name => some ("Invalid log level: " ++ name)
  | valuesMissing operator key =>
    some ("operator " ++ operator ++ " requires at least one value for key " ++ Text.quoted key)
  | valuesUnwanted operator key =>
    some ("operator " ++ operator ++ " takes no values for key " ++ Text.quoted key)
  | limitTooSmall shown =>
    some ("revision history limit must be at least 1, got " ++ shown)
  | unencodable => some "cannot encode document"
  | notCanonical kind => some ("cannot canonicalize " ++ kind ++ " for hashing")
  | undecodable => some "cannot decode revision data"
  | noPatchData revision => some ("revision " ++ Text.quoted revision ++ " carries no patch data")
  | notAGroup => some "cannot decode restored RoleBasedGroup"
  | malformed cause => some cause.message
  | patch cause => some cause.message
  | store failure => some failure.message
  | notStarted component cause =>
    some ("Component '" ++ component ++ "' failed to start: " ++ cause)

end Error

end RolloutLedger
