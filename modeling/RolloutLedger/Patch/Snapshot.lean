import RolloutLedger.Group
import RolloutLedger.Json.Reader
import RolloutLedger.Json.Writer
import RolloutLedger.Patch.Merge
/-! # Snapshots of groups

What a revision records is a patch that restores it: the roles of a group and its scheduling
policy, under a directive that overwrites both.  An absent policy is recorded as null, which
removes whatever policy a restored group has.
-/

namespace RolloutLedger.Patch

open Entries (field)

/-- The patch that restores the roles and the policy of a group. -/
def snapshot (g : Group) : Value :=
  .object [field "spec" <| .object [
    (directiveKey, .text Directive.replace.text),
    field "podGroupPolicy" (GangPolicy.documentOrNull g.spec.policy),
    field "roles" (.list g.spec.roleDocuments)]]

def encodeSnapshot (g : Group) : Except Error Bytes := Json.encode (snapshot g)

structure Snapshot where
  /-- The document of each role; every one is an object with a name. -/
  roles : List Entries
  policy : Option Entries
  directive : Option Directive

namespace Snapshot

/-- The name a role document gives; it has to be a text that is not empty. -/
def roleName? (role : Entries) : Option String :=
  match Entries.get? (.text "name") role with
  | some (.text s) => if s = "" then none else some s
  | _ => none

def roleOf : Value → Except MalformedPatch Entries
  | .object es => if (roleName? es).isSome then .ok es else .error .unnamedRole
  | _ => .error .roleNotAnObject

/-- The members of a policy document, if there is a policy. -/
def policyOf : Value → Except MalformedPatch (Option Entries)
  | .null => .ok none
  | .object es => .ok (some es)
  | _ => .error .policyNotAnObject

def ofDocument (doc : Value) : Except MalformedPatch Snapshot := do
  let .object es := doc | throw .notAnObject
  let some (.object spec) := Entries.get? (.text "spec") es | throw .noSpec
  let some (.list roles) := Entries.get? (.text "roles") spec | throw .noRoles
  let roles ← roles.mapM roleOf
  let policy ← policyOf ((Entries.get? (.text "podGroupPolicy") spec).getD .null)
  let directive ← (Directive.ofEntries spec).mapError .unknownDirective
  return ⟨roles, policy, directive⟩

/-- A failure to decode a snapshot.  Data that is not an encoded document is malformed; the
other failures stay what they are. -/
def dataError : Error → Error
  | .undecodable => .malformed .undecodable
  | e => e

def decode (raw : Bytes) : Except Error Snapshot := do
  let doc ← (Json.decode raw).mapError dataError
  (ofDocument doc).mapError .malformed

end Snapshot

end RolloutLedger.Patch
