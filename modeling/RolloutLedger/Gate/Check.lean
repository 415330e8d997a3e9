import RolloutLedger.Digest
import RolloutLedger.Journal.Basic
/-! # The update gate

Before an object of the cluster is updated, the gate checks whether it satisfies what is wanted
already.  A check stops at the first field that differs, and that difference is counted and
logged once.
-/

namespace RolloutLedger.Gate

open Entries (field)

/-! ## Verdicts -/

/-- Whether an object satisfies what is wanted, and if not, where and how it differs. -/
inductive Verdict where
  | satisfied
  | differs (field reason : String)
  deriving DecidableEq

namespace Verdict

def holds : Verdict → Bool
  | satisfied => true
  | differs _ _ => false

def field : Verdict → String
  | satisfied => ""
  | differs field _ => field

def reason : Verdict → String
  | satisfied => ""
  | differs _ reason => reason

/-- A verdict on a part of an object, with the part named in its reason. -/
def within (part : String) : Verdict → Verdict
  | satisfied => satisfied
  | differs field reason => differs field (part ++ ": " ++ reason)

end Verdict

/-- A verdict and what was left behind in reaching it. -/
structure Checked where
  verdict : Verdict
  journal : Journal

namespace Checked

def satisfied : Checked := ⟨.satisfied, []⟩

/-- A field differs; the difference is counted and logged. -/
def mismatch (name reason : String) : Checked :=
  ⟨.differs name reason,
    [.counted (.mismatches name),
      .logged <| (Logger.ofComponent "reconciler.equality").record .debug "update_gate_mismatch"
        [field "field" (.text name), field "reason" (.text reason)]]⟩

/-- A check that goes on with another one if nothing differs. -/
def andThen (c : Checked) (next : Except Error Checked) : Except Error Checked :=
  match c.verdict with
  | .satisfied => next.map fun d => ⟨d.verdict, c.journal ++ d.journal⟩
  | .differs _ _ => .ok c

def within (part : String) (c : Checked) : Checked := ⟨c.verdict.within part, c.journal⟩

end Checked

/-! ## Checks

Labels and annotations that are wanted have to be there with equal values, and others are
ignored.  Containers are matched by name and compared by image, environment and probes;
environments are compared as sets of variables, and probes with their defaults filled in.  A pod
template is checked from its labels over its init containers to its containers.
-/

/-! ### Labels and annotations -/

/-- The labels and annotations of an object, as they were given. -/
structure Labeling where
  labels : Value
  annotations : Value

/-- The first wanted member that is missing or has another value. -/
def firstLacking (actual : Value) : Entries → Except Error (Option Key)
  | [] => .ok none
  | (k, wanted) :: rest => do
    match ← actual.held k with
    | some v => if v.same wanted then firstLacking actual rest else return some k
    | none => return some k

/-- Check that wanted members are there with equal values, in order of the keys. -/
def checkMembers (name what : String) (desired actual : Value) : Except Error Checked := do
  let some wanted := sortMembers? (← desired.orEmpty.members) | throw .wrongType
  match ← firstLacking actual.orEmpty wanted with
  | some k => return .mismatch name (what ++ " " ++ Value.keyLiteral k ++ " not equal")
  | none => return .satisfied

def checkLabeling (desired actual : Labeling) : Except Error Checked := do
  let labels ← checkMembers "labels" "label" desired.labels actual.labels
  labels.andThen (checkMembers "annotations" "annotation" desired.annotations actual.annotations)

/-! ### Environments -/

/-- A variable as it is compared: name, value, and the canonical form of its source, which is
empty if there is none. -/
abbrev Variable := String × String × Bytes

/-- A variable in the form in which it is compared. -/
def variableOf (v : EnvVar) : Except Error Variable :=
  match v.valueFrom.present? with
  | none => .ok (v.name, v.value, [])
  | some source => (Digest.canonical .standard source).map fun bs => (v.name, v.value, bs)

def namesOf (vs : List Variable) : List String := sortBy textLe (vs.map (·.1)).eraseDups

def missingFrom (there : List Variable) (here : List Variable) : List Variable :=
  here.filter fun v => !there.contains v

def listed (names : List String) : String := Value.literal (.list (names.map .text))

def checkEnv (desired actual : List EnvVar) : Except Error Checked := do
  let want ← desired.mapM variableOf
  let held ← actual.mapM variableOf
  let missing := missingFrom held want
  let unexpected := missingFrom want held
  if missing.isEmpty && unexpected.isEmpty then return .satisfied
  else return .mismatch "env" <|
    "env not equal: missing " ++ listed (namesOf missing) ++
      ", unexpected " ++ listed (namesOf unexpected)

/-! ### Containers -/

def checkText (name reason desired actual : String) : Checked :=
  if desired = actual then .satisfied else .mismatch name reason

def checkProbe (name reason : String) (desired actual : Option Probe) : Checked :=
  if Probe.agrees? desired actual then .satisfied else .mismatch name reason

def checkProbes (desired actual : Container) : Except Error Checked :=
  (checkProbe "startup_probe" "container startup probe not equal"
      desired.startupProbe actual.startupProbe).andThen <|
    (checkProbe "liveness_probe" "container liveness probe not equal"
        desired.livenessProbe actual.livenessProbe).andThen <|
      .ok (checkProbe "readiness_probe" "container readiness probe not equal"
        desired.readinessProbe actual.readinessProbe)

def checkContainer (desired actual : Container) : Except Error Checked :=
  (checkText "name" "container name not equal" desired.name actual.name).andThen <|
    (checkText "image" "container image not equal" desired.image actual.image).andThen <| do
      (← checkEnv desired.env actual.env).andThen (checkProbes desired actual)

/-! ### Pod templates -/

/-- The container with a name; of several the last. -/
def named? (name : String) (containers : List Container) : Option Container :=
  containers.reverse.find? fun c => c.name == name

/-- Check wanted containers, each against the one with its name. -/
def checkEach (group : String) (actual : List Container) : List Container → Except Error Checked
  | [] => .ok .satisfied
  | want :: rest =>
    match named? want.name actual with
    | none =>
      .ok (.mismatch group ("container " ++ Text.quoted want.name ++ " not found in " ++ group))
    | some found => do
      let c ← checkContainer want found
      (c.within ("container " ++ Text.quoted want.name)).andThen (checkEach group actual rest)

def checkContainers (group : String) (desired actual : List Container) :
    Except Error Checked :=
  if desired.length = actual.length then checkEach group actual desired
  else .ok <| .mismatch group <|
    group ++ " count not equal: desired " ++ Decimal.text desired.length ++ ", actual " ++
      Decimal.text actual.length

def labelingOf (t : PodTemplate) : Labeling := ⟨.object t.labels, .object t.annotations⟩

def checkTemplate (desired actual : PodTemplate) : Except Error Checked := do
  (← checkLabeling (labelingOf desired) (labelingOf actual)).andThen <| do
    (← checkContainers "initContainers" desired.spec.initContainers
        actual.spec.initContainers).andThen <|
      checkContainers "containers" desired.spec.containers actual.spec.containers

end RolloutLedger.Gate
