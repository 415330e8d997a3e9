import RolloutLedger.Group
import RolloutLedger.Proofs.Outcomes
/-! # Documents that are not read

A document that does not describe what is asked for is refused in one of three ways: a value is of
the wrong type, has no members, or has no reading.  There is a fourth way, and only one thing leads
to it: where an integer is asked for stands an infinite double.  A group asks for integers in its
metadata, in its declaration and in every role.
-/

namespace RolloutLedger

/-- How reading a document fails.  The last of these has a cause. -/
inductive Misread (cause : Prop) : Error → Prop
  | wrongType : Misread cause .wrongType
  | noMembers : Misread cause .noMembers
  | unreadable : Misread cause .unreadable
  | outOfRange (h : cause) : Misread cause .outOfRange

def IsRead {α : Type} (cause : Prop) (x : Except Error α) : Prop :=
  Meets (fun _ => True) (Misread cause) x

namespace IsRead

variable {α β : Type} {c c' : Prop} {x : Except Error α}

theorem ok (a : α) : IsRead c (.ok a) := Meets.ok trivial

theorem mono (h : IsRead c x) (hc : c → c') : IsRead c' x := by
  refine Meets.mono h (fun _ h => h) fun e he => ?_
  cases he with
  | wrongType => exact .wrongType
  | noMembers => exact .noMembers
  | unreadable => exact .unreadable
  | outOfRange h => exact .outOfRange (hc h)

/-- What is read of a part depends on how the part was read. -/
theorem bind {f : α → Except Error β} (h : IsRead c x) (hf : ∀ a, x = .ok a → IsRead c (f a)) :
    IsRead c (x >>= f) := by
  cases h with
  | error h => exact .error h
  | ok _ => exact hf _ rfl

theorem mapM {f : β → Except Error α} {xs : List β} (h : ∀ y ∈ xs, IsRead c (f y)) :
    IsRead c (xs.mapM f) :=
  (Meets.mapM h).mono (fun _ _ => trivial) fun _ h => h

end IsRead

namespace Value

variable {c : Prop}

/-! ## Lenient readings -/

theorem isRead_memberOr (v : Value) (name : String) (default : Value) :
    IsRead c (v.memberOr name default) := by
  cases v with
  | object es => exact .ok _
  | _ => exact .error .noMembers

theorem isRead_member (v : Value) (name : String) : IsRead c (v.member name) :=
  isRead_memberOr v name null

theorem isRead_members (v : Value) : IsRead c v.members := by
  cases v with
  | object es => exact .ok _
  | _ => exact .error .noMembers

theorem isRead_held (v : Value) (key : Key) : IsRead c (v.held key) := by
  unfold held
  split
  · exact .ok _
  · split
    · exact .error .wrongType
    · exact .ok _
  · split
    · exact .error .wrongType
    · exact .ok _
  · split
    · exact .error .wrongType
    · exact .ok _
  · exact .error .wrongType

theorem isRead_toItems (v : Value) : IsRead c v.toItems := by
  unfold toItems
  split
  case h_6 => exact .error .wrongType
  all_goals exact .ok _

theorem isRead_itemsOrNone (v : Value) : IsRead c v.itemsOrNone := isRead_toItems _

theorem isRead_toKey (v : Value) : IsRead c v.toKey := by
  unfold toKey
  split
  case h_10 => exact .error .wrongType
  all_goals exact .ok _

theorem isRead_toMember (v : Value) : IsRead c v.toMember := by
  unfold toMember
  refine (isRead_toItems v).bind fun items _ => ?_
  split
  · refine (isRead_toKey _).bind fun key _ => ?_
    exact .ok _
  · exact .error .unreadable

theorem isRead_toEntries (v : Value) : IsRead c v.toEntries := by
  unfold toEntries
  split
  · exact .ok _
  · refine (isRead_toItems _).bind fun items _ => ?_
    refine (IsRead.mapM fun item _ => isRead_toMember item).bind fun pairs _ => ?_
    exact .ok _

theorem isRead_entriesOrNone (v : Value) : IsRead c v.entriesOrNone := isRead_toEntries _

theorem isRead_toTimestamp? (v : Value) : IsRead c v.toTimestamp? := by
  unfold toTimestamp?
  split
  · exact .ok _
  split
  · split
    · exact .ok _
    · exact .error .unreadable
  · exact .error .wrongType

theorem isRead_optional {α : Type} {read : Value → Except Error α} {v : Value}
    (h : IsRead c (read v)) : IsRead c (v.optional read) := by
  cases v with
  | null => exact .ok _
  | _ => exact Meets.map h fun _ _ => trivial

def IsInfinite (v : Value) : Prop := ∃ negative, v = .float (.infinity negative)

theorem isRead_toInteger (v : Value) : IsRead v.IsInfinite v.toInteger := by
  cases v with
  | bool b => exact .ok _
  | int i => exact .ok _
  | float x =>
    cases x with
    | nan => exact .error .unreadable
    | infinity negative => exact .error (.outOfRange ⟨negative, rfl⟩)
    | finite negative units => exact .ok _
  | text s =>
    rw [toInteger]
    cases Text.integer? s with
    | none => exact .error .unreadable
    | some i => exact .ok _
  | bytes content =>
    rw [toInteger]
    cases Text.integerOfBytes? content with
    | none => exact .error .unreadable
    | some i => exact .ok _
  | _ => exact .error .wrongType

end Value

open Value

/-! ## Documents without integers -/

section Documents

variable {c : Prop}

theorem EnvVar.isRead_ofDocument (doc : Value) : IsRead c (EnvVar.ofDocument doc) := by
  unfold EnvVar.ofDocument
  refine (isRead_memberOr doc _ _).bind fun name _ => ?_
  refine (isRead_memberOr doc _ _).bind fun value _ => ?_
  refine (isRead_member doc _).bind fun valueFrom _ => ?_
  exact .ok _

theorem Probe.isRead_ofDocument (doc : Value) : IsRead c (Probe.ofDocument doc) := by
  have hget : ∀ (name : String) (default : Value),
      IsRead c (do return (← doc.held (.text name)).getD default) := by
    intro name default
    refine (isRead_held doc _).bind fun v _ => ?_
    exact .ok _
  unfold Probe.ofDocument
  iterate 10 refine (hget _ _).bind fun _ _ => ?_
  exact .ok _

theorem Container.isRead_ofDocument (doc : Value) : IsRead c (Container.ofDocument doc) := by
  unfold Container.ofDocument
  refine (isRead_memberOr doc _ _).bind fun name _ => ?_
  refine (isRead_memberOr doc _ _).bind fun image _ => ?_
  refine (isRead_member doc _).bind fun v _ => (isRead_itemsOrNone v).bind fun command _ => ?_
  refine (isRead_member doc _).bind fun v _ => (isRead_itemsOrNone v).bind fun args _ => ?_
  refine (isRead_member doc _).bind fun v _ => (isRead_itemsOrNone v).bind fun vars _ => ?_
  refine (IsRead.mapM fun v _ => EnvVar.isRead_ofDocument v).bind fun env _ => ?_
  refine (isRead_member doc _).bind fun v _ => (isRead_itemsOrNone v).bind fun ports _ => ?_
  refine (isRead_member doc _).bind fun v _ => (isRead_entriesOrNone v).bind fun resources _ => ?_
  refine (isRead_member doc _).bind fun v _ => (isRead_itemsOrNone v).bind fun mounts _ => ?_
  refine (isRead_memberOr doc _ _).bind fun imagePullPolicy _ => ?_
  iterate 3
    refine (isRead_member doc _).bind fun v _ => ?_
    refine (isRead_optional (Probe.isRead_ofDocument v)).bind fun probe _ => ?_
  refine (isRead_members doc).bind fun members _ => ?_
  exact .ok _

theorem PodSpec.isRead_ofDocument (doc : Value) : IsRead c (PodSpec.ofDocument doc) := by
  unfold PodSpec.ofDocument
  iterate 2
    refine (isRead_member _ _).bind fun v _ => (isRead_itemsOrNone v).bind fun containers _ => ?_
    refine (IsRead.mapM fun v _ => Container.isRead_ofDocument v).bind fun containers _ => ?_
  refine (isRead_member _ _).bind fun v _ => (isRead_itemsOrNone v).bind fun volumes _ => ?_
  refine (isRead_members _).bind fun members _ => ?_
  exact .ok _

theorem PodTemplate.isRead_ofDocument (doc : Value) : IsRead c (PodTemplate.ofDocument doc) := by
  unfold PodTemplate.ofDocument
  refine (isRead_member _ _).bind fun metadata _ => ?_
  refine (isRead_member _ _).bind fun v _ => (isRead_entriesOrNone v).bind fun labels _ => ?_
  refine (isRead_member _ _).bind fun v _ => (isRead_entriesOrNone v).bind fun annotations _ => ?_
  refine (isRead_member _ _).bind fun v _ => (PodSpec.isRead_ofDocument v).bind fun spec _ => ?_
  exact .ok _

theorem Workload.isRead_ofDocument (doc : Value) : IsRead c (Workload.ofDocument doc) := by
  unfold Workload.ofDocument
  refine (isRead_memberOr _ _ _).bind fun apiVersion _ => ?_
  refine (isRead_memberOr _ _ _).bind fun kind _ => ?_
  exact .ok _

theorem OwnerReference.isRead_ofDocument (doc : Value) :
    IsRead c (OwnerReference.ofDocument doc) := by
  unfold OwnerReference.ofDocument
  iterate 4 refine (isRead_memberOr doc _ _).bind fun _ _ => ?_
  iterate 2 refine (isRead_member doc _).bind fun _ _ => ?_
  exact .ok _

theorem GangPolicy.isRead_ofDocument (doc : Value) : IsRead c (GangPolicy.ofDocument doc) := by
  have hkube : ∀ v, IsRead c (kubeOfDocument v) := fun v => isRead_member v _
  have hvolcano : ∀ v, IsRead c (volcanoOfDocument v) := by
    intro v
    refine (isRead_memberOr v _ _).bind fun priorityClassName _ => ?_
    refine (isRead_memberOr v _ _).bind fun queue _ => ?_
    exact .ok _
  unfold GangPolicy.ofDocument
  refine (isRead_member doc _).bind fun kube _ => ?_
  refine (isRead_member doc _).bind fun volcano _ => ?_
  refine (isRead_optional (hkube kube)).bind fun kubeTimeout _ => ?_
  refine (isRead_optional (hvolcano volcano)).bind fun volcano _ => ?_
  exact .ok _

end Documents

/-! ## Documents that ask for integers -/

def Role.AsksInfinity (doc : Value) : Prop :=
  ∃ v, doc.member "replicas" = .ok v ∧ v.IsInfinite

theorem Role.isRead_ofDocument (doc : Value) :
    IsRead (Role.AsksInfinity doc) (Role.ofDocument doc) := by
  unfold Role.ofDocument
  refine (isRead_member doc _).bind fun replicas hreplicas => ?_
  refine (isRead_memberOr doc _ _).bind fun name _ => ?_
  refine ((isRead_optional (isRead_toInteger replicas)).mono fun h => ⟨replicas, hreplicas, h⟩).bind
    fun count _ => ?_
  refine (isRead_member doc _).bind fun v _ => (Workload.isRead_ofDocument v).bind fun w _ => ?_
  refine (isRead_member doc _).bind fun v _ => (PodTemplate.isRead_ofDocument v).bind fun t _ => ?_
  refine (isRead_member doc _).bind fun v _ => (isRead_itemsOrNone v).bind fun dependencies _ => ?_
  refine (isRead_memberOr doc _ _).bind fun restartPolicy _ => ?_
  refine (isRead_member doc _).bind fun leaderWorkerSet _ => ?_
  exact .ok _

def Metadata.AsksInfinity (doc : Value) : Prop :=
  ∃ v, doc.orEmpty.member "generation" = .ok v ∧ v.IsInfinite

theorem Metadata.isRead_ofDocument (doc : Value) :
    IsRead (Metadata.AsksInfinity doc) (Metadata.ofDocument doc) := by
  have horElse : ∀ v : Value, (v.orElse (.int 0)).IsInfinite → v.IsInfinite := by
    rintro v ⟨negative, h⟩
    unfold orElse at h
    split at h
    · cases h
    · exact ⟨negative, h⟩
  unfold Metadata.ofDocument
  iterate 3 refine (isRead_memberOr _ _ _).bind fun _ _ => ?_
  iterate 2 refine (isRead_member _ _).bind fun v _ => (isRead_entriesOrNone v).bind fun _ _ => ?_
  refine (isRead_member _ _).bind fun v _ => (isRead_itemsOrNone v).bind fun owners _ => ?_
  refine (IsRead.mapM fun v _ => OwnerReference.isRead_ofDocument v).bind fun owners _ => ?_
  refine (isRead_member _ _).bind fun v _ => (isRead_toTimestamp? v).bind fun created _ => ?_
  refine (isRead_member _ _).bind fun generation hgeneration => ?_
  refine ((isRead_toInteger _).mono fun h => ?_).bind fun _ _ => ?_
  · exact ⟨generation, hgeneration, horElse generation h⟩
  refine (isRead_memberOr _ _ _).bind fun resourceVersion _ => ?_
  exact .ok _

/-- A declaration that asks for an infinite history, or has a role that asks for infinitely many
replicas. -/
inductive GroupSpec.AsksInfinity (doc : Value) : Prop
  | history {v : Value} (member : doc.orEmpty.member "revisionHistoryLimit" = .ok v)
    (infinite : v.IsInfinite)
  | role {v role : Value} {roles : List Value} (member : doc.orEmpty.member "roles" = .ok v)
    (items : v.itemsOrNone = .ok roles) (mem : role ∈ roles) (infinite : Role.AsksInfinity role)

theorem GroupSpec.isRead_ofDocument (doc : Value) :
    IsRead (GroupSpec.AsksInfinity doc) (GroupSpec.ofDocument doc) := by
  unfold GroupSpec.ofDocument
  refine (isRead_member _ _).bind fun limit hlimit => ?_
  refine (isRead_member _ _).bind fun v hroles => (isRead_itemsOrNone v).bind fun docs hdocs => ?_
  refine (IsRead.mapM fun role hrole => ?_).bind fun roles _ => ?_
  · exact (Role.isRead_ofDocument role).mono fun h => .role hroles hdocs hrole h
  refine (isRead_member _ _).bind fun policy _ => ?_
  refine (isRead_optional (GangPolicy.isRead_ofDocument policy)).bind fun policy _ => ?_
  refine ((isRead_optional (isRead_toInteger limit)).mono fun h => ?_).bind fun limit _ => ?_
  · exact .history hlimit h
  exact .ok _

/-- A group that asks for an infinite number in its metadata or in its declaration. -/
def Group.AsksInfinity (doc : Value) : Prop :=
  (∃ v, doc.member "metadata" = .ok v ∧ Metadata.AsksInfinity v) ∨
    ∃ v, doc.member "spec" = .ok v ∧ GroupSpec.AsksInfinity v

/-- **How documents of groups are refused.** -/
theorem Group.isRead_ofDocument (doc : Value) :
    IsRead (Group.AsksInfinity doc) (Group.ofDocument doc) := by
  unfold Group.ofDocument
  refine (isRead_member doc _).bind fun metadata hmetadata => ?_
  refine ((Metadata.isRead_ofDocument metadata).mono fun h => ?_).bind fun metadata _ => ?_
  · exact Or.inl ⟨metadata, hmetadata, h⟩
  refine (isRead_member doc _).bind fun spec hspec => ?_
  refine ((GroupSpec.isRead_ofDocument spec).mono fun h => ?_).bind fun spec _ => ?_
  · exact Or.inr ⟨spec, hspec, h⟩
  exact .ok _

end RolloutLedger
