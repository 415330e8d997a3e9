import RolloutLedger.Value.Lenient
/-! # Object metadata

The part of every cluster object that names it, labels it and ties it to its owners.  Reading a
document fills absent members with empty values; writing leaves empty ones out, so what is
written is read back as it was.

Writing fails only for a creation time whose instant lies outside the calendar of universal
time.
-/

namespace RolloutLedger

open Entries (field fieldIf)

structure OwnerReference where
  apiVersion : String
  kind : String
  name : String
  uid : String
  /-- Whether the owner controls the object; null if the reference does not say. -/
  controller : Value
  /-- Whether the owner waits for the object to be deleted; null if it does not say. -/
  blockOwnerDeletion : Value

namespace OwnerReference

def ofDocument (doc : Value) : Except Error OwnerReference := do
  let apiVersion ← doc.memberOr "apiVersion" (.text "")
  let kind ← doc.memberOr "kind" (.text "")
  let name ← doc.memberOr "name" (.text "")
  let uid ← doc.memberOr "uid" (.text "")
  let controller ← doc.member "controller"
  let blockOwnerDeletion ← doc.member "blockOwnerDeletion"
  return ⟨apiVersion.asText, kind.asText, name.asText, uid.asText, controller,
    blockOwnerDeletion⟩

def document (r : OwnerReference) : Value :=
  .object <|
    [field "apiVersion" (.text r.apiVersion), field "kind" (.text r.kind),
      field "name" (.text r.name), field "uid" (.text r.uid)] ++
    fieldIf r.controller.present?.isSome "controller" r.controller ++
    fieldIf r.blockOwnerDeletion.present?.isSome "blockOwnerDeletion" r.blockOwnerDeletion

def toValue (r : OwnerReference) : Value :=
  .record "OwnerReference" [("api_version", .text r.apiVersion), ("kind", .text r.kind),
    ("name", .text r.name), ("uid", .text r.uid), ("controller", r.controller),
    ("block_owner_deletion", r.blockOwnerDeletion)]

def alike (a b : OwnerReference) : Bool :=
  a.apiVersion == b.apiVersion && a.kind == b.kind && a.name == b.name && a.uid == b.uid &&
    Value.alike true a.controller b.controller &&
    Value.alike true a.blockOwnerDeletion b.blockOwnerDeletion

end OwnerReference

structure Metadata where
  name : String
  /-- The namespace the object lives in. -/
  ns : String
  uid : String
  labels : Entries
  annotations : Entries
  owners : List OwnerReference
  created : Option Time.Timestamp
  generation : Int
  resourceVersion : String

namespace Metadata

def empty : Metadata := ⟨"", "", "", [], [], [], none, 0, ""⟩

instance : Inhabited Metadata := ⟨empty⟩

/-- Read metadata from its document; a blank document says nothing. -/
def ofDocument (doc : Value) : Except Error Metadata := do
  let doc := doc.orEmpty
  let name ← doc.memberOr "name" (.text "")
  let ns ← doc.memberOr "namespace" (.text "")
  let uid ← doc.memberOr "uid" (.text "")
  let labels ← (← doc.member "labels").entriesOrNone
  let annotations ← (← doc.member "annotations").entriesOrNone
  let owners ← (← (← doc.member "ownerReferences").itemsOrNone).mapM OwnerReference.ofDocument
  let created ← (← doc.member "creationTimestamp").toTimestamp?
  let generation ← ((← doc.member "generation").orElse (.int 0)).toInteger
  let resourceVersion ← doc.memberOr "resourceVersion" (.text "")
  return ⟨name.asText, ns.asText, uid.asText, labels, annotations, owners, created, generation,
    resourceVersion.asText⟩

def createdText (created : Option Time.Timestamp) : Except Error (Option String) :=
  match created with
  | none => .ok none
  | some t => match t.wireText? with
    | some s => .ok (some s)
    | none => .error .outOfRange

/-- The members of the metadata document, given the wire form of the creation time. -/
def membersWith (m : Metadata) (created : Option String) : Entries :=
  fieldIf (m.name != "") "name" (.text m.name) ++
  fieldIf (m.ns != "") "namespace" (.text m.ns) ++
  fieldIf (m.uid != "") "uid" (.text m.uid) ++
  fieldIf (!m.labels.isEmpty) "labels" (.object m.labels) ++
  fieldIf (!m.annotations.isEmpty) "annotations" (.object m.annotations) ++
  fieldIf (!m.owners.isEmpty) "ownerReferences" (.list (m.owners.map (·.document))) ++
  fieldIf created.isSome "creationTimestamp" (.text (created.getD "")) ++
  fieldIf (m.generation != 0) "generation" (.int m.generation) ++
  fieldIf (m.resourceVersion != "") "resourceVersion" (.text m.resourceVersion)

def document (m : Metadata) : Except Error Value := do
  let created ← createdText m.created
  return .object (m.membersWith created)

def toValue (m : Metadata) : Value :=
  .record "ObjectMeta" [("name", .text m.name), ("namespace", .text m.ns), ("uid", .text m.uid),
    ("labels", .object m.labels), ("annotations", .object m.annotations),
    ("owner_references", .list (m.owners.map (·.toValue))),
    ("creation_timestamp", .ofTimestamp? m.created), ("generation", .int m.generation),
    ("resource_version", .text m.resourceVersion)]

def sameInstant : Option Time.Timestamp → Option Time.Timestamp → Bool
  | none, none => true
  | some s, some t => s.instant == t.instant
  | _, _ => false

def alike (a b : Metadata) : Bool :=
  a.name == b.name && a.ns == b.ns && a.uid == b.uid &&
    Value.alike true (.object a.labels) (.object b.labels) &&
    Value.alike true (.object a.annotations) (.object b.annotations) &&
    (a.owners.length == b.owners.length &&
      (a.owners.zip b.owners).all fun p => p.1.alike p.2) &&
    sameInstant a.created b.created && a.generation == b.generation &&
    a.resourceVersion == b.resourceVersion

/-- How log records name an object: namespace and name, or the name alone. -/
def reference (m : Metadata) : String :=
  if m.ns = "" then m.name else m.ns ++ "/" ++ m.name

/-- The first owner that controls the object. -/
def controller? (m : Metadata) : Option OwnerReference :=
  m.owners.find? fun r => !r.controller.isBlank

end Metadata

/-- A reference to a controlling owner, so that dependents are deleted with it. -/
def OwnerReference.controlling (owner : Metadata) (apiVersion kind : String) : OwnerReference :=
  ⟨apiVersion, kind, owner.name, owner.uid, .bool true, .bool true⟩

end RolloutLedger
