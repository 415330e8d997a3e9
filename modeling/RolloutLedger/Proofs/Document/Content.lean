import RolloutLedger.Proofs.Document.Group
import RolloutLedger.Proofs.Patch.Strip
/-! # Free-form content

Much of what a group declares has no shape of its own here: sources of variables, resources,
volumes, settings of workloads, and the members of pods and containers that have no field.  These
pieces are what recasting a declaration changes, and no document carries a directive elsewhere.
-/

namespace RolloutLedger

open Entries (field fieldIf optionalField)
open Patch (isDirectiveFree)

/-! ## Directives among the members of a document -/

namespace Patch

variable {es fs : Entries} {b : Bool} {n : String} {v : Value} {o : Option Value}

@[simp] theorem isDirectiveFree_text (s : String) : isDirectiveFree (.text s) = true := rfl

@[simp] theorem isDirectiveFree_int (i : Int) : isDirectiveFree (.int i) = true := rfl

@[simp] theorem isDirectiveFree_nil : isDirectiveFree (.object []) = true := rfl

@[simp] theorem isDirectiveFree_append :
    isDirectiveFree (.object (es ++ fs)) = true ↔
      isDirectiveFree (.object es) = true ∧ isDirectiveFree (.object fs) = true := by
  simp only [isDirectiveFree_object_iff, List.forall_mem_append]

@[simp] theorem isDirectiveFree_cons_field :
    isDirectiveFree (.object (field n v :: es)) = true ↔
      n ≠ "$patch" ∧ isDirectiveFree v = true ∧ isDirectiveFree (.object es) = true := by
  simp only [isDirectiveFree_object_iff, List.forall_mem_cons, field, ne_eq,
    text_eq_directiveKey_iff, and_assoc]

@[simp] theorem isDirectiveFree_optionalField (hn : n ≠ "$patch") :
    isDirectiveFree (.object (optionalField n o)) = true ↔
      ∀ v, o = some v → isDirectiveFree v = true := by
  cases o <;> simp [optionalField, hn]

/-- A member that is left out only if it carries no directive. -/
theorem isDirectiveFree_fieldIf (hn : n ≠ "$patch") (h : b = false → isDirectiveFree v = true) :
    isDirectiveFree (.object (fieldIf b n v)) = true ↔ isDirectiveFree v = true := by
  cases b with
  | false => simp [fieldIf, h rfl]
  | true => simp [fieldIf, hn]

@[simp] theorem isDirectiveFree_fieldIf_text (hn : n ≠ "$patch") (s : String) :
    isDirectiveFree (.object (fieldIf b n (.text s))) = true :=
  (isDirectiveFree_fieldIf hn fun _ => rfl).mpr rfl

@[simp] theorem isDirectiveFree_fieldIf_present (hn : n ≠ "$patch") :
    isDirectiveFree (.object (fieldIf v.present?.isSome n v)) = true ↔
      isDirectiveFree v = true := by
  refine isDirectiveFree_fieldIf hn fun h => ?_
  cases v <;> first | rfl | exact Bool.noConfusion h

@[simp] theorem isDirectiveFree_fieldIf_entries (hn : n ≠ "$patch") :
    isDirectiveFree (.object (fieldIf (!es.isEmpty) n (.object es))) = true ↔
      isDirectiveFree (.object es) = true := by
  refine isDirectiveFree_fieldIf hn fun h => ?_
  cases es <;> first | rfl | exact Bool.noConfusion h

@[simp] theorem isDirectiveFree_fieldIf_items (hn : n ≠ "$patch") {items : List Value} :
    isDirectiveFree (.object (fieldIf (!items.isEmpty) n (.list items))) = true ↔
      ∀ v ∈ items, isDirectiveFree v = true := by
  rw [← isDirectiveFree_list_iff]
  refine isDirectiveFree_fieldIf hn fun h => ?_
  cases items <;> first | rfl | exact Bool.noConfusion h

@[simp] theorem isDirectiveFree_fieldIf_documents (hn : n ≠ "$patch") {α : Type}
    {document : α → Value} {xs : List α} :
    isDirectiveFree (.object (fieldIf (!xs.isEmpty) n (.list (xs.map document)))) = true ↔
      ∀ x ∈ xs, isDirectiveFree (document x) = true := by
  rw [← List.isEmpty_map (f := document), isDirectiveFree_fieldIf_items hn, List.forall_mem_map]

end Patch

/-! ## Containers -/

variable {room : Nat}

namespace EnvVar

def content (v : EnvVar) : List Value := [v.valueFrom]

theorem isDirectiveFree_document_iff (v : EnvVar) :
    isDirectiveFree v.document = true ↔ ∀ w ∈ v.content, isDirectiveFree w = true := by
  rw [show v.document = .object v.members from rfl]
  simp [members, content]

theorem content_recast (f : Recasting) (v : EnvVar) :
    (v.recast f).content = v.content.map f.value := rfl

end EnvVar

namespace Probe

def setValue (v : Value) : List Value := if isUnset v then [] else [v]

def content (p : Probe) : List Value := p.values.flatMap fun nv => setValue nv.2

theorem isDirectiveFree_document_iff (p : Probe) :
    isDirectiveFree p.document = true ↔ ∀ w ∈ p.content, isDirectiveFree w = true := by
  have hnames : ∀ nv ∈ p.values, nv.1 ≠ "$patch" := by simp [values]
  rw [document_eq, Patch.isDirectiveFree_object_iff, members, content, List.forall_mem_flatMap,
    List.forall_mem_flatMap]
  refine forall₂_congr fun nv hnv => ?_
  rw [← Patch.isDirectiveFree_object_iff, setValue]
  cases isUnset nv.2 <;> simp [fieldIf, hnames nv hnv]

theorem setValue_reread (f : Recasting) {default : Value} (hdefault : isUnset default = true)
    (v : Value) : setValue (f.reread default v) = (setValue v).map f.value := by
  rw [Recasting.reread, setValue, setValue]
  cases h : isUnset v with
  | true => simp [hdefault]
  | false => simp [isUnset_value, h]

theorem content_recast (f : Recasting) (p : Probe) :
    (p.recast f).content = p.content.map f.value := by
  have hnull := setValue_reread f (show isUnset .null = true from rfl)
  have hzero := setValue_reread f (show isUnset (.int 0) = true from rfl)
  simp only [content, values, recast, List.flatMap_cons, List.flatMap_nil, List.map_append,
    List.map_nil, hnull, hzero]

theorem fits_of_mem_content {p : Probe} (h : p.Fits room) : ∀ w ∈ p.content, w.Fits room := by
  intro w hw
  obtain ⟨nv, hnv, hw⟩ := List.mem_flatMap.mp hw
  rw [setValue] at hw
  split at hw
  · exact absurd hw List.not_mem_nil
  · rw [List.mem_singleton.mp hw]
    exact h nv hnv

end Probe

namespace Container

/-- The free-form content of a container. -/
def content (c : Container) : List Value :=
  .object c.extra :: (c.command ++ c.args ++ c.env.flatMap EnvVar.content ++ c.ports ++
    [.object c.resources] ++ c.volumeMounts ++ c.startupProbe.toList.flatMap Probe.content ++
    c.livenessProbe.toList.flatMap Probe.content ++
    c.readinessProbe.toList.flatMap Probe.content)

theorem isDirectiveFree_document_iff (c : Container) :
    isDirectiveFree c.document = true ↔ ∀ w ∈ c.content, isDirectiveFree w = true := by
  have hprobe : ∀ {n : String} (_ : n ≠ "$patch") (o : Option Probe),
      isDirectiveFree (.object (optionalField n (o.map Probe.document))) = true ↔
        ∀ p ∈ o.toList, ∀ w ∈ p.content, isDirectiveFree w = true := by
    intro n hn o
    cases o <;> simp [hn, Probe.isDirectiveFree_document_iff]
  rw [document_eq]
  simp only [known, content, Patch.isDirectiveFree_append, List.forall_mem_cons,
    List.forall_mem_append, List.forall_mem_flatMap]
  simp [hprobe, EnvVar.isDirectiveFree_document_iff]

theorem content_recast (f : Recasting) (c : Container) :
    (c.recast f).content = c.content.map f.value := by
  have hprobe : ∀ o : Option Probe, (o.map (Probe.recast f)).toList.flatMap Probe.content =
      (o.toList.flatMap Probe.content).map f.value := by
    intro o
    cases o <;> simp [Probe.content_recast]
  simp [content, recast, hprobe, f.value_object, List.flatMap_map, List.map_flatMap,
    EnvVar.content_recast]

theorem fits_of_mem_content {c : Container} (h : c.Fits room) :
    ∀ w ∈ c.content, w.Fits (room + 3) := by
  have hmono : ∀ {items : List Value} {k : Nat}, (∀ v ∈ items, v.Fits k) → k ≤ room + 3 →
      ∀ v ∈ items, v.Fits (room + 3) := fun hitems hk v hv => (hitems v hv).mono hk
  have hone : room + 1 ≤ room + 3 := Nat.add_le_add_left (by decide) room
  have hprobe : ∀ o : Option Probe, (∀ p, o = some p → p.Fits (room + 1)) →
      ∀ p ∈ o.toList, ∀ w ∈ p.content, w.Fits (room + 3) := fun o ho p hp =>
    hmono (Probe.fits_of_mem_content (ho p (Option.mem_toList.mp hp))) hone
  simp only [content, List.forall_mem_cons, List.forall_mem_append, List.forall_mem_flatMap,
    EnvVar.content, List.not_mem_nil, false_implies, implies_true, and_true]
  exact ⟨h.extra, ⟨⟨⟨⟨⟨⟨⟨hmono h.command hone, hmono h.args hone⟩,
    fun v hv => (h.env v hv).mono (Nat.le_add_right room 3)⟩, hmono h.ports hone⟩,
    h.resources.mono (Nat.le_succ _)⟩, hmono h.volumeMounts hone⟩, hprobe _ h.startupProbe⟩,
    hprobe _ h.livenessProbe⟩, hprobe _ h.readinessProbe⟩

end Container

/-! ## Pods -/

namespace PodSpec

def content (s : PodSpec) : List Value :=
  .object s.extra :: (s.containers.flatMap Container.content ++
    s.initContainers.flatMap Container.content ++ s.volumes)

theorem isDirectiveFree_document_iff (s : PodSpec) :
    isDirectiveFree s.document = true ↔ ∀ w ∈ s.content, isDirectiveFree w = true := by
  rw [document_eq]
  simp only [known, content, Patch.isDirectiveFree_append, List.forall_mem_cons,
    List.forall_mem_append, List.forall_mem_flatMap]
  simp [Container.isDirectiveFree_document_iff]

theorem content_recast (f : Recasting) (s : PodSpec) :
    (s.recast f).content = s.content.map f.value := by
  simp [content, recast, f.value_object, List.flatMap_map, List.map_flatMap,
    Container.content_recast]

theorem fits_of_mem_content {s : PodSpec} (h : s.Fits room) :
    ∀ w ∈ s.content, w.Fits (room + 5) := by
  have hcontainers : ∀ {cs : List Container}, (∀ c ∈ cs, c.Fits room) →
      ∀ c ∈ cs, ∀ w ∈ c.content, w.Fits (room + 5) := fun hcs c hc w hw =>
    (Container.fits_of_mem_content (hcs c hc) w hw).mono (Nat.add_le_add_left (by decide) room)
  simp only [content, List.forall_mem_cons, List.forall_mem_append, List.forall_mem_flatMap]
  exact ⟨h.extra, ⟨hcontainers h.containers, hcontainers h.initContainers⟩,
    fun v hv => (h.volumes v hv).mono (Nat.add_le_add_left (by decide) room)⟩

end PodSpec

namespace PodTemplate

def content (t : PodTemplate) : List Value :=
  .object t.labels :: .object t.annotations :: t.spec.content

theorem isDirectiveFree_document_iff (t : PodTemplate) :
    isDirectiveFree t.document = true ↔ ∀ w ∈ t.content, isDirectiveFree w = true := by
  rw [document_eq]
  simp only [members, metadataMembers, content, List.forall_mem_cons]
  simp [PodSpec.isDirectiveFree_document_iff, and_assoc]

theorem content_recast (f : Recasting) (t : PodTemplate) :
    (t.recast f).content = t.content.map f.value := by
  simp [content, recast, f.value_object, PodSpec.content_recast]

theorem fits_of_mem_content {t : PodTemplate} (h : t.Fits room) :
    ∀ w ∈ t.content, w.Fits (room + 5) := by
  simp only [content, List.forall_mem_cons]
  exact ⟨h.labels.mono (Nat.le_succ _), h.annotations.mono (Nat.le_succ _),
    PodSpec.fits_of_mem_content h.spec⟩

end PodTemplate

/-! ## Declarations -/

namespace Role

def content (r : Role) : List Value :=
  r.template.content ++ r.dependencies ++ [r.leaderWorkerSet]

theorem isDirectiveFree_document_iff (r : Role) :
    isDirectiveFree r.document = true ↔ ∀ w ∈ r.content, isDirectiveFree w = true := by
  rw [document_eq]
  simp only [members, content, Patch.isDirectiveFree_append, List.forall_mem_append]
  simp [PodTemplate.isDirectiveFree_document_iff, Workload.document_eq, Workload.members]

theorem content_recast (f : Recasting) (r : Role) :
    (r.recast f).content = r.content.map f.value := by
  simp [content, recast, PodTemplate.content_recast]

theorem fits_of_mem_content {r : Role} (h : r.Fits room) : ∀ w ∈ r.content, w.Fits (room + 6) := by
  simp only [content, List.forall_mem_append, List.forall_mem_singleton]
  exact ⟨⟨fun w hw => (PodTemplate.fits_of_mem_content h.template w hw).mono (Nat.le_succ _),
    fun w hw => (h.dependencies w hw).mono (Nat.le_succ _)⟩, h.leaderWorkerSet⟩

end Role

namespace GangPolicy

/-- The free-form content of a policy: the seconds to wait, in whatever form they are given. -/
def content (p : GangPolicy) : List Value := p.kubeTimeout.toList

theorem isDirectiveFree_document_iff (p : GangPolicy) :
    isDirectiveFree p.document = true ↔ ∀ w ∈ p.content, isDirectiveFree w = true := by
  rw [document_eq]
  simp [members, content, kubeDocument, volcanoDocument]

theorem content_recast (f : Recasting) (p : GangPolicy) :
    (p.recast f).content = p.content.map f.value := by
  obtain ⟨kube, volcano⟩ := p
  cases kube <;> rfl

theorem fits_of_mem_content {p : GangPolicy} (h : p.Fits room) : ∀ w ∈ p.content, w.Fits room :=
  fun w hw => h w (Option.mem_toList.mp hw)

end GangPolicy

namespace GroupSpec

def content (s : GroupSpec) : List Value :=
  s.roles.flatMap Role.content ++ s.policy.toList.flatMap GangPolicy.content

theorem isDirectiveFree_documents_iff (s : GroupSpec) :
    ((∀ d ∈ s.roleDocuments, isDirectiveFree d = true) ∧
      isDirectiveFree (GangPolicy.documentOrNull s.policy) = true) ↔
        ∀ w ∈ s.content, isDirectiveFree w = true := by
  have hpolicy : isDirectiveFree (GangPolicy.documentOrNull s.policy) = true ↔
      ∀ p ∈ s.policy.toList, ∀ w ∈ p.content, isDirectiveFree w = true := by
    cases s.policy with
    | none => simp [GangPolicy.documentOrNull, isDirectiveFree]
    | some p => simp [GangPolicy.documentOrNull, GangPolicy.isDirectiveFree_document_iff]
  rw [hpolicy, roleDocuments, List.forall_mem_map, content, List.forall_mem_append,
    List.forall_mem_flatMap, List.forall_mem_flatMap]
  simp only [Role.isDirectiveFree_document_iff]

theorem content_recast (f : Recasting) (s : GroupSpec) :
    (s.recast f).content = s.content.map f.value := by
  have hpolicy : (s.policy.map (GangPolicy.recast f)).toList.flatMap GangPolicy.content =
      (s.policy.toList.flatMap GangPolicy.content).map f.value := by
    cases s.policy <;> simp [GangPolicy.content_recast]
  rw [content, recast, hpolicy, content]
  simp [List.flatMap_map, List.map_flatMap, Role.content_recast]

theorem fits_of_mem_content {s : GroupSpec} (h : s.Fits room) :
    ∀ w ∈ s.content, w.Fits (room + 6) := by
  simp only [content, List.forall_mem_append, List.forall_mem_flatMap]
  exact ⟨fun r hr => Role.fits_of_mem_content (h.roles r hr), fun p hp =>
    GangPolicy.fits_of_mem_content (h.policy p (Option.mem_toList.mp hp))⟩

end GroupSpec

end RolloutLedger
