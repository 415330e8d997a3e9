import RolloutLedger.Digest
import RolloutLedger.Journal.Basic
import RolloutLedger.Selector
/-! # Revisions

A revision is one entry of a group's history: a numbered snapshot of what the group declared,
kept as encoded data.  The data never changes once the revision exists.  Besides the data a
revision may carry a decoded object; that lives in the running program only and is never
written.
-/

namespace RolloutLedger

open Entries (field)

/-! ## Records -/

/-- Encoded data, and an object that was decoded from it. -/
structure RevisionData where
  raw : Option Bytes
  /-- The decoded object; null if there is none. -/
  object : Value

namespace RevisionData

def none : RevisionData := ⟨.none, .null⟩

/-- The encoded data; absent data is empty. -/
def bytes (d : RevisionData) : Bytes := d.raw.getD []

def toValue (d : RevisionData) : Value :=
  .record "RevisionData" [("raw", (d.raw.map Value.bytes).getD .null), ("object", d.object)]

end RevisionData

structure Revision where
  metadata : Metadata
  number : Int
  data : RevisionData

instance : Inhabited Revision := ⟨⟨.empty, 0, .none⟩⟩

def revisionKind : String := "ControllerRevision"

namespace Revision

def name (r : Revision) : String := r.metadata.name

def ns (r : Revision) : String := r.metadata.ns

def ofDocument (doc : Value) : Except Error Revision := do
  let payload ← doc.member "data"
  let metadata ← Metadata.ofDocument (← doc.member "metadata")
  let number ← ((← doc.member "revision").orElse (.int 0)).toInteger
  let raw ← payload.optional Json.encode
  return ⟨metadata, number, ⟨raw, .null⟩⟩

def document (r : Revision) : Except Error Value := do
  let metadata ← r.metadata.document
  let head := [field "apiVersion" (.text "apps/v1"), field "kind" (.text revisionKind),
    field "metadata" metadata, field "revision" (.int r.number)]
  if r.data.bytes.isEmpty then return .object head
  else return .object (head ++ [field "data" (← Json.decode r.data.bytes)])

def alike (a b : Revision) : Bool :=
  a.metadata.alike b.metadata && a.number == b.number && a.data.raw == b.data.raw &&
    Value.alike true a.data.object b.data.object

/-- Whether two revisions record the same: equal data and like objects. -/
def sameContent (a b : Revision) : Bool :=
  a.data.bytes == b.data.bytes && Value.same a.data.object b.data.object

def sameContent? : Option Revision → Option Revision → Bool
  | .none, .none => true
  | some a, some b => a.sameContent b
  | _, _ => false

/-- A revision as a value: the name by which log records refer to it, its document, its
parts. -/
def toValue (r : Revision) : Value :=
  .resource r.metadata.reference (.ofDocument r.document) <|
    .record revisionKind [("metadata", r.metadata.toValue), ("revision", .int r.number),
      ("data", r.data.toValue)]

end Revision

/-! ## Building revisions

The revision that records what a group declares now: its data is the group's snapshot, its name
ends in the digest of the data and the revision's number, and its labels name the group and
hold the digests of the data and of every role.  The group controls the revision.
-/

namespace Revision

/-- How many characters of a group's name go into the names of its revisions; names of cluster
objects are limited to 253 characters. -/
def stemLength : Nat := 220

/-- The name of a revision.  The number keeps names apart when the same content comes back. -/
def nameFor (stem hash : String) (number : Int) : String :=
  String.ofList (stem.toList.take stemLength) ++ "-" ++ hash ++ "-" ++ Decimal.text number

def labelsFor (group hash : String) (roleHashes : List (String × String)) : Entries :=
  field nameLabel (.text group) :: field hashLabel (.text hash) ::
    roleHashes.map fun h => field (roleHashLabel h.1) (.text h.2)

def assemble (g : Group) (number : Int) (raw : Bytes) (hash : String)
    (roleHashes : List (String × String)) : Revision where
  metadata :=
    { Metadata.empty with
      name := nameFor g.metadata.name hash number
      ns := g.metadata.ns
      labels := labelsFor g.metadata.name hash roleHashes
      owners := [OwnerReference.controlling g.metadata groupVersion groupKind] }
  number := number
  data := ⟨some raw, .null⟩

/-- The revision that records what a group declares.  It fails if the declaration has no
encoding, a role has no name, or the number has too many digits to be part of a name. -/
def build (o : HashOptions) (g : Group) (number : Int) : Except Error Revision := do
  let raw ← Patch.encodeSnapshot g
  let hash ← Digest.contentHash o raw .null
  let roleHashes ← Digest.roleHashes o raw
  if Decimal.isExchangeable number then return assemble g number raw hash roleHashes
  else throw .unreadable

/-- The number of roles a built revision has digests of: all its labels but two are theirs. -/
def digestedRoles (r : Revision) : Nat := r.metadata.labels.length - 2

def builtNotes (r : Revision) : Journal :=
  [.counted .built,
    .logged <| (Logger.ofComponent "revision.builder").record .debug "revision_built"
      [field "name" (.text r.name), field "namespace" (.text r.ns),
        field "revision" (.int r.number), field "roles" (.int r.digestedRoles)]]

end Revision

def Group.revisionSelector (g : Group) : Selector :=
  .ofLabels [field nameLabel (.text g.metadata.name)]

/-! ## Restoring revisions

A group can be taken back to what a revision recorded: the revision's data is applied to the
document of the live group, and the outcome is read as a group.  Roles and policy come from the
revision; whatever its data does not name keeps its live value.
-/

/-- A failure to read a patched document as a group.  What shows that the document has the
wrong shape is reported as one failure; a number that is too large stays what it is. -/
def Error.ofPatched : Error → Error
  | .wrongType | .noMembers | .unreadable => .notAGroup
  | e => e

namespace Revision

/-- The document of a group as it comes back from storage. -/
def storedDocument (live : Group) : Except Error Value := do
  let document ← live.document
  Json.decode (← Json.encode document)

def patch (r : Revision) : Except Error Value :=
  if r.data.bytes.isEmpty then .error (.noPatchData r.name) else Json.decode r.data.bytes

def restore (live : Group) (r : Revision) : Except Error Group := do
  let document ← storedDocument live
  let patch ← r.patch
  let patched ← (Patch.apply document patch).mapError .patch
  (Group.ofDocument patched).mapError .ofPatched

end Revision

end RolloutLedger
