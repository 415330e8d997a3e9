import RolloutLedger.Value.Lenient
/-! # Pods

What the pods of a role look like, from the probes of a container up to the template.
-/

namespace RolloutLedger

open Entries (field fieldIf)

/-! ## Container probes

A probe tells whether a container has started, lives, or is ready: a handler and the timing of
its attempts.  Numbers that are zero are unset; the cluster fills four of them with defaults, so
probes are compared with the defaults filled in.
-/

structure Probe where
  exec : Value
  httpGet : Value
  tcpSocket : Value
  grpc : Value
  initialDelaySeconds : Value
  timeoutSeconds : Value
  periodSeconds : Value
  successThreshold : Value
  failureThreshold : Value
  terminationGracePeriodSeconds : Value

namespace Probe

/-- Read a probe from its document.  A text or a list that mentions none of the members is taken
as a probe with nothing set. -/
def ofDocument (doc : Value) : Except Error Probe := do
  let get (name : String) (default : Value) : Except Error Value :=
    return (← doc.held (.text name)).getD default
  let exec ← get "exec" .null
  let httpGet ← get "httpGet" .null
  let tcpSocket ← get "tcpSocket" .null
  let grpc ← get "grpc" .null
  let initialDelaySeconds ← get "initialDelaySeconds" (.int 0)
  let timeoutSeconds ← get "timeoutSeconds" (.int 0)
  let periodSeconds ← get "periodSeconds" (.int 0)
  let successThreshold ← get "successThreshold" (.int 0)
  let failureThreshold ← get "failureThreshold" (.int 0)
  let terminationGracePeriodSeconds ← get "terminationGracePeriodSeconds" .null
  return ⟨exec, httpGet, tcpSocket, grpc, initialDelaySeconds, timeoutSeconds, periodSeconds,
    successThreshold, failureThreshold, terminationGracePeriodSeconds⟩

def values (p : Probe) : List (String × Value) :=
  [("exec", p.exec), ("httpGet", p.httpGet), ("tcpSocket", p.tcpSocket), ("grpc", p.grpc),
    ("initialDelaySeconds", p.initialDelaySeconds), ("timeoutSeconds", p.timeoutSeconds),
    ("periodSeconds", p.periodSeconds), ("successThreshold", p.successThreshold),
    ("failureThreshold", p.failureThreshold),
    ("terminationGracePeriodSeconds", p.terminationGracePeriodSeconds)]

/-- A value that a document leaves out: null, or a zero of any type. -/
def isUnset (v : Value) : Bool := Value.same v .null || Value.same v (.int 0)

def document (p : Probe) : Value :=
  .object ((p.values.filter fun nv => !isUnset nv.2).map fun nv => field nv.1 nv.2)

def toValue (p : Probe) : Value :=
  .record "Probe" [("exec", p.exec), ("http_get", p.httpGet), ("tcp_socket", p.tcpSocket),
    ("grpc", p.grpc), ("initial_delay_seconds", p.initialDelaySeconds),
    ("timeout_seconds", p.timeoutSeconds), ("period_seconds", p.periodSeconds),
    ("success_threshold", p.successThreshold), ("failure_threshold", p.failureThreshold),
    ("termination_grace_period_seconds", p.terminationGracePeriodSeconds)]

/-- A probe by its parts; without one it is null. -/
def toValue? : Option Probe → Value
  | none => .null
  | some p => p.toValue

/-- A probe with the defaults of the cluster in place of unset timings. -/
def withDefaults (p : Probe) : Probe :=
  { p with
    timeoutSeconds := p.timeoutSeconds.orElse (.int 1)
    periodSeconds := p.periodSeconds.orElse (.int 10)
    successThreshold := p.successThreshold.orElse (.int 1)
    failureThreshold := p.failureThreshold.orElse (.int 3) }

def alike (oneSource : Bool) (a b : Probe) : Bool :=
  (a.values.zip b.values).all fun p => Value.alike oneSource p.1.2 p.2.2

/-- Whether two probes act the same once the defaults are filled in. -/
def agrees (a b : Probe) : Bool := alike false a.withDefaults b.withDefaults

/-- Whether two optional probes are both absent, or act the same. -/
def agrees? : Option Probe → Option Probe → Bool
  | none, none => true
  | some a, some b => a.agrees b
  | _, _ => false

end Probe

/-! ## Containers

A container of a pod: the members that decide whether it has to be replaced, and every other
member as it is.  Empty members are left out when a container is written.
-/

/-- An environment variable, by value or by reference to where the value comes from. -/
structure EnvVar where
  name : String
  value : String
  /-- The source of the value; null if there is none. -/
  valueFrom : Value

namespace EnvVar

def ofDocument (doc : Value) : Except Error EnvVar := do
  let name ← doc.memberOr "name" (.text "")
  let value ← doc.memberOr "value" (.text "")
  let valueFrom ← doc.member "valueFrom"
  return ⟨name.asText, value.textOrEmpty, valueFrom⟩

def document (v : EnvVar) : Value :=
  .object <|
    [field "name" (.text v.name)] ++ fieldIf (v.value != "") "value" (.text v.value) ++
    fieldIf v.valueFrom.present?.isSome "valueFrom" v.valueFrom

def toValue (v : EnvVar) : Value :=
  .record "EnvVar" [("name", .text v.name), ("value", .text v.value), ("value_from", v.valueFrom)]

def alike (a b : EnvVar) : Bool :=
  a.name == b.name && a.value == b.value && Value.alike true a.valueFrom b.valueFrom

end EnvVar

structure Container where
  name : String
  image : String
  command : List Value
  args : List Value
  env : List EnvVar
  ports : List Value
  resources : Entries
  volumeMounts : List Value
  imagePullPolicy : String
  startupProbe : Option Probe
  livenessProbe : Option Probe
  readinessProbe : Option Probe
  /-- Every member of the document that is none of the above. -/
  extra : Entries

namespace Container

/-- The members of a container document that have a field of their own. -/
def memberNames : List String :=
  ["name", "image", "command", "args", "env", "ports", "resources", "volumeMounts",
    "imagePullPolicy", "startupProbe", "livenessProbe", "readinessProbe"]

def ofDocument (doc : Value) : Except Error Container := do
  let name ← doc.memberOr "name" (.text "")
  let image ← doc.memberOr "image" (.text "")
  let command ← (← doc.member "command").itemsOrNone
  let args ← (← doc.member "args").itemsOrNone
  let env ← (← (← doc.member "env").itemsOrNone).mapM EnvVar.ofDocument
  let ports ← (← doc.member "ports").itemsOrNone
  let resources ← (← doc.member "resources").entriesOrNone
  let volumeMounts ← (← doc.member "volumeMounts").itemsOrNone
  let imagePullPolicy ← doc.memberOr "imagePullPolicy" (.text "")
  let startupProbe ← (← doc.member "startupProbe").optional Probe.ofDocument
  let livenessProbe ← (← doc.member "livenessProbe").optional Probe.ofDocument
  let readinessProbe ← (← doc.member "readinessProbe").optional Probe.ofDocument
  let extra := (← doc.members).without memberNames
  return ⟨name.asText, image.textOrEmpty, command, args, env, ports, resources, volumeMounts,
    imagePullPolicy.textOrEmpty, startupProbe, livenessProbe, readinessProbe, extra⟩

/-- A probe as a member of a container document, left out if there is none. -/
def probeField (name : String) (p : Option Probe) : Entries :=
  match p with
  | none => []
  | some p => [field name p.document]

/-- The document of a container: the extra members first, then those that are set. -/
def document (c : Container) : Value :=
  .object <|
    c.extra ++ [field "name" (.text c.name)] ++
    fieldIf (c.image != "") "image" (.text c.image) ++
    fieldIf (!c.command.isEmpty) "command" (.list c.command) ++
    fieldIf (!c.args.isEmpty) "args" (.list c.args) ++
    fieldIf (!c.env.isEmpty) "env" (.list (c.env.map (·.document))) ++
    fieldIf (!c.ports.isEmpty) "ports" (.list c.ports) ++
    fieldIf (!c.resources.isEmpty) "resources" (.object c.resources) ++
    fieldIf (!c.volumeMounts.isEmpty) "volumeMounts" (.list c.volumeMounts) ++
    fieldIf (c.imagePullPolicy != "") "imagePullPolicy" (.text c.imagePullPolicy) ++
    probeField "startupProbe" c.startupProbe ++
    probeField "livenessProbe" c.livenessProbe ++
    probeField "readinessProbe" c.readinessProbe

def toValue (c : Container) : Value :=
  .record "Container" [("name", .text c.name), ("image", .text c.image),
    ("command", .list c.command), ("args", .list c.args),
    ("env", .list (c.env.map (·.toValue))), ("ports", .list c.ports),
    ("resources", .object c.resources), ("volume_mounts", .list c.volumeMounts),
    ("image_pull_policy", .text c.imagePullPolicy),
    ("startup_probe", Probe.toValue? c.startupProbe),
    ("liveness_probe", Probe.toValue? c.livenessProbe),
    ("readiness_probe", Probe.toValue? c.readinessProbe), ("extra", .object c.extra)]

/-- Whether two optional probes have the same values, or are both absent. -/
def alikeProbes : Option Probe → Option Probe → Bool
  | none, none => true
  | some a, some b => Probe.alike true a b
  | _, _ => false

def alike (a b : Container) : Bool :=
  a.name == b.name && a.image == b.image &&
    Value.alike true (.list a.command) (.list b.command) &&
    Value.alike true (.list a.args) (.list b.args) &&
    (a.env.length == b.env.length && (a.env.zip b.env).all fun p => p.1.alike p.2) &&
    Value.alike true (.list a.ports) (.list b.ports) &&
    Value.alike true (.object a.resources) (.object b.resources) &&
    Value.alike true (.list a.volumeMounts) (.list b.volumeMounts) &&
    a.imagePullPolicy == b.imagePullPolicy && alikeProbes a.startupProbe b.startupProbe &&
    alikeProbes a.livenessProbe b.livenessProbe &&
    alikeProbes a.readinessProbe b.readinessProbe &&
    Value.alike true (.object a.extra) (.object b.extra)

end Container

/-! ## Pod templates

What the pods of a role look like: labels, annotations, containers, volumes, and every other
member of the pod as it is.
-/

structure PodSpec where
  containers : List Container
  initContainers : List Container
  volumes : List Value
  /-- Every member of the document that is none of the above. -/
  extra : Entries

namespace PodSpec

def memberNames : List String := ["containers", "initContainers", "volumes"]

def ofDocument (doc : Value) : Except Error PodSpec := do
  let doc := doc.orEmpty
  let containers ← (← (← doc.member "containers").itemsOrNone).mapM Container.ofDocument
  let initContainers ← (← (← doc.member "initContainers").itemsOrNone).mapM Container.ofDocument
  let volumes ← (← doc.member "volumes").itemsOrNone
  let extra := (← doc.members).without memberNames
  return ⟨containers, initContainers, volumes, extra⟩

/-- The document of a pod; the containers are always written. -/
def document (s : PodSpec) : Value :=
  .object <|
    s.extra ++ [field "containers" (.list (s.containers.map (·.document)))] ++
    fieldIf (!s.initContainers.isEmpty) "initContainers"
      (.list (s.initContainers.map (·.document))) ++
    fieldIf (!s.volumes.isEmpty) "volumes" (.list s.volumes)

def toValue (s : PodSpec) : Value :=
  .record "PodSpec" [("containers", .list (s.containers.map (·.toValue))),
    ("init_containers", .list (s.initContainers.map (·.toValue))), ("volumes", .list s.volumes),
    ("extra", .object s.extra)]

def alikeContainers (a b : List Container) : Bool :=
  a.length == b.length && (a.zip b).all fun p => p.1.alike p.2

def alike (a b : PodSpec) : Bool :=
  alikeContainers a.containers b.containers &&
    alikeContainers a.initContainers b.initContainers &&
    Value.alike true (.list a.volumes) (.list b.volumes) &&
    Value.alike true (.object a.extra) (.object b.extra)

end PodSpec

structure PodTemplate where
  labels : Entries
  annotations : Entries
  spec : PodSpec

namespace PodTemplate

/-- Read a template from its document; a blank document describes an empty pod. -/
def ofDocument (doc : Value) : Except Error PodTemplate := do
  let doc := doc.orEmpty
  let metadata := (← doc.member "metadata").orEmpty
  let labels ← (← metadata.member "labels").entriesOrNone
  let annotations ← (← metadata.member "annotations").entriesOrNone
  let spec ← PodSpec.ofDocument (← doc.member "spec")
  return ⟨labels, annotations, spec⟩

def document (t : PodTemplate) : Value :=
  let metadata := fieldIf (!t.labels.isEmpty) "labels" (.object t.labels) ++
    fieldIf (!t.annotations.isEmpty) "annotations" (.object t.annotations)
  .object [field "metadata" (.object metadata), field "spec" t.spec.document]

def toValue (t : PodTemplate) : Value :=
  .record "PodTemplateSpec" [("labels", .object t.labels), ("annotations", .object t.annotations),
    ("spec", t.spec.toValue)]

def alike (a b : PodTemplate) : Bool :=
  Value.alike true (.object a.labels) (.object b.labels) &&
    Value.alike true (.object a.annotations) (.object b.annotations) && a.spec.alike b.spec

end PodTemplate

end RolloutLedger
