import RolloutLedger.Metadata
import RolloutLedger.Pod
/-! # Groups

A group owns the workloads of its roles and the revisions of its history.  Its roles and its
scheduling policy are what a revision records; metadata and the length of the history are not.
-/

namespace RolloutLedger

open Entries (field fieldIf)

/-! ## Roles

A role is one named unit of work of a group: how many replicas, which kind of workload carries
it, and what its pods look like.
-/

structure Workload where
  apiVersion : String
  kind : String

namespace Workload

/-- Read a workload from its document; by default a role is carried by a stateful set. -/
def ofDocument (doc : Value) : Except Error Workload := do
  let doc := doc.orEmpty
  let apiVersion ← doc.memberOr "apiVersion" (.text "apps/v1")
  let kind ← doc.memberOr "kind" (.text "StatefulSet")
  return ⟨apiVersion.asText, kind.asText⟩

def document (w : Workload) : Value :=
  .object [field "apiVersion" (.text w.apiVersion), field "kind" (.text w.kind)]

def toValue (w : Workload) : Value :=
  .record "WorkloadSpec" [("api_version", .text w.apiVersion), ("kind", .text w.kind)]

end Workload

/-- One named unit of work within a group. -/
structure Role where
  name : String
  replicas : Int
  workload : Workload
  template : PodTemplate
  dependencies : List Value
  restartPolicy : String
  /-- Settings for a set of leaders and workers; null if there are none. -/
  leaderWorkerSet : Value

namespace Role

/-- Read a role from its document; a role has one replica unless it says otherwise. -/
def ofDocument (doc : Value) : Except Error Role := do
  let replicas ← doc.member "replicas"
  let name ← doc.memberOr "name" (.text "")
  let replicas ← replicas.optional Value.toInteger
  let workload ← Workload.ofDocument (← doc.member "workload")
  let template ← PodTemplate.ofDocument (← doc.member "template")
  let dependencies ← (← doc.member "dependencies").itemsOrNone
  let restartPolicy ← doc.memberOr "restartPolicy" (.text "")
  let leaderWorkerSet ← doc.member "leaderWorkerSet"
  return ⟨name.asText, replicas.getD 1, workload, template, dependencies,
    restartPolicy.textOrEmpty, leaderWorkerSet⟩

def document (r : Role) : Value :=
  .object <|
    [field "name" (.text r.name), field "replicas" (.int r.replicas),
      field "workload" r.workload.document, field "template" r.template.document] ++
    fieldIf (!r.dependencies.isEmpty) "dependencies" (.list r.dependencies) ++
    fieldIf (r.restartPolicy != "") "restartPolicy" (.text r.restartPolicy) ++
    fieldIf r.leaderWorkerSet.present?.isSome "leaderWorkerSet" r.leaderWorkerSet

def toValue (r : Role) : Value :=
  .record "RoleSpec" [("name", .text r.name), ("replicas", .int r.replicas),
    ("workload", r.workload.toValue), ("template", r.template.toValue),
    ("dependencies", .list r.dependencies), ("restart_policy", .text r.restartPolicy),
    ("leader_worker_set", r.leaderWorkerSet)]

def alike (a b : Role) : Bool :=
  a.name == b.name && a.replicas == b.replicas &&
    a.workload.apiVersion == b.workload.apiVersion && a.workload.kind == b.workload.kind &&
    a.template.alike b.template &&
    Value.alike true (.list a.dependencies) (.list b.dependencies) &&
    a.restartPolicy == b.restartPolicy &&
    Value.alike true a.leaderWorkerSet b.leaderWorkerSet

end Role

/-! ## Scheduling policies

A group may ask that its pods be scheduled together, through one of two schedulers.
-/

structure VolcanoScheduling where
  priorityClassName : String
  queue : String
  deriving DecidableEq

structure GangPolicy where
  /-- Seconds to wait for all pods, if the plugin scheduler is asked; null if it is not told. -/
  kubeTimeout : Option Value
  volcano : Option VolcanoScheduling

namespace GangPolicy

def kubeOfDocument (doc : Value) : Except Error Value := doc.member "scheduleTimeoutSeconds"

def volcanoOfDocument (doc : Value) : Except Error VolcanoScheduling := do
  let priorityClassName ← doc.memberOr "priorityClassName" (.text "")
  let queue ← doc.memberOr "queue" (.text "")
  return ⟨priorityClassName.asText, queue.asText⟩

def ofDocument (doc : Value) : Except Error GangPolicy := do
  let kube ← doc.member "kubeScheduling"
  let volcano ← doc.member "volcanoScheduling"
  let kubeTimeout ← kube.optional kubeOfDocument
  let volcano ← volcano.optional volcanoOfDocument
  return ⟨kubeTimeout, volcano⟩

def kubeDocument (timeout : Value) : Value :=
  .object (fieldIf timeout.present?.isSome "scheduleTimeoutSeconds" timeout)

def volcanoDocument (v : VolcanoScheduling) : Value :=
  .object <|
    fieldIf (v.priorityClassName != "") "priorityClassName" (.text v.priorityClassName) ++
    fieldIf (v.queue != "") "queue" (.text v.queue)

def document (p : GangPolicy) : Value :=
  .object <|
    (match p.kubeTimeout with
      | none => []
      | some t => [field "kubeScheduling" (kubeDocument t)]) ++
    (match p.volcano with
      | none => []
      | some v => [field "volcanoScheduling" (volcanoDocument v)])

def documentOrNull (p : Option GangPolicy) : Value :=
  match p with
  | none => .null
  | some p => p.document

/-- The settings for the plugin scheduler by their parts; without them it is null. -/
def kubeValue : Option Value → Value
  | none => .null
  | some timeout => .record "KubeSchedulingPolicy" [("schedule_timeout_seconds", timeout)]

def volcanoValue : Option VolcanoScheduling → Value
  | none => .null
  | some v => .record "VolcanoSchedulingPolicy" [("priority_class_name", .text v.priorityClassName),
      ("queue", .text v.queue)]

def toValue? : Option GangPolicy → Value
  | none => .null
  | some p => .record "PodGroupPolicy" [("kube_scheduling", kubeValue p.kubeTimeout),
      ("volcano_scheduling", volcanoValue p.volcano)]

def alike (a b : GangPolicy) : Bool :=
  (match a.kubeTimeout, b.kubeTimeout with
    | none, none => true
    | some s, some t => Value.alike true s t
    | _, _ => false) && a.volcano == b.volcano

def alike? : Option GangPolicy → Option GangPolicy → Bool
  | none, none => true
  | some a, some b => a.alike b
  | _, _ => false

end GangPolicy

/-! ## The group itself -/

def groupVersion : String := "workloads.x-k8s.io/v1alpha1"

def groupKind : String := "RoleBasedGroup"

def nameLabel : String := "rolebasedgroup.workloads.x-k8s.io/name"

def hashLabel : String := "rolebasedgroup.workloads.x-k8s.io/controller-revision-hash"

def roleHashLabel (role : String) : String :=
  "rolebasedgroup.workloads.x-k8s.io/role-revision-hash-" ++ role

structure GroupSpec where
  roles : List Role
  policy : Option GangPolicy
  /-- How many revisions to keep, if the group says so. -/
  historyLimit : Option Int

namespace GroupSpec

/-- Read a declaration from its document; a blank document declares nothing. -/
def ofDocument (doc : Value) : Except Error GroupSpec := do
  let doc := doc.orEmpty
  let limit ← doc.member "revisionHistoryLimit"
  let roles ← (← (← doc.member "roles").itemsOrNone).mapM Role.ofDocument
  let policy ← (← doc.member "podGroupPolicy").optional GangPolicy.ofDocument
  let limit ← limit.optional Value.toInteger
  return ⟨roles, policy, limit⟩

def roleDocuments (s : GroupSpec) : List Value := s.roles.map (·.document)

def document (s : GroupSpec) : Value :=
  .object <|
    [field "roles" (.list s.roleDocuments)] ++
    (match s.policy with
      | none => []
      | some p => [field "podGroupPolicy" p.document]) ++
    (match s.historyLimit with
      | none => []
      | some n => [field "revisionHistoryLimit" (.int n)])

def toValue (s : GroupSpec) : Value :=
  .record "RoleBasedGroupSpec" [("roles", .list (s.roles.map (·.toValue))),
    ("pod_group_policy", GangPolicy.toValue? s.policy),
    ("revision_history_limit", .ofInt? s.historyLimit)]

def alike (a b : GroupSpec) : Bool :=
  (a.roles.length == b.roles.length && (a.roles.zip b.roles).all fun p => p.1.alike p.2) &&
    GangPolicy.alike? a.policy b.policy && a.historyLimit == b.historyLimit

end GroupSpec

structure Group where
  metadata : Metadata
  spec : GroupSpec

namespace Group

def ofDocument (doc : Value) : Except Error Group := do
  let metadata ← Metadata.ofDocument (← doc.member "metadata")
  let spec ← GroupSpec.ofDocument (← doc.member "spec")
  return ⟨metadata, spec⟩

def documentWith (g : Group) (metadata : Value) : Value :=
  .object [field "apiVersion" (.text groupVersion), field "kind" (.text groupKind),
    field "metadata" metadata, field "spec" g.spec.document]

def document (g : Group) : Except Error Value := g.metadata.document.map g.documentWith

def role? (g : Group) (name : String) : Option Role :=
  g.spec.roles.find? fun r => r.name == name

def alike (a b : Group) : Bool := a.metadata.alike b.metadata && a.spec.alike b.spec

/-- A group as a value: the name by which log records refer to it, its document, its parts. -/
def toValue (g : Group) : Value :=
  .resource g.metadata.reference (.ofDocument g.document) <|
    .record groupKind [("metadata", g.metadata.toValue), ("spec", g.spec.toValue)]

end Group

end RolloutLedger
