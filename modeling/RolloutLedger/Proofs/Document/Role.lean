import RolloutLedger.Group
import RolloutLedger.Proofs.Document.Template
/-! # Roles are read back

A role is always written with its name, its replicas, its workload and its template; what is blank
otherwise is left out.  What is read back from a recast document has its values recast.
-/

namespace RolloutLedger

open Entries (field fieldIf valueOr keysApart mapValues HasNames)

/-! ## Workloads -/

namespace Workload

theorem ofDocument_object (es : Entries) :
    ofDocument (.object es) = .ok ⟨(valueOr es "apiVersion" (.text "apps/v1")).asText,
      (valueOr es "kind" (.text "StatefulSet")).asText⟩ := by
  rw [ofDocument, Value.orEmpty_object]
  rfl

def members (w : Workload) : Entries :=
  [field "apiVersion" (.text w.apiVersion), field "kind" (.text w.kind)]

theorem document_eq (w : Workload) : w.document = .object w.members := rfl

theorem keysApart_members (w : Workload) : keysApart w.members = true :=
  ((HasNames.field "apiVersion" _).append (.field "kind" _)).keysApart (by decide)

theorem fits_document {room : Nat} (w : Workload) : w.document.Fits (room + 1) := by
  refine Value.Fits.object_iff.mpr ⟨w.keysApart_members, ?_⟩
  simp only [List.forall_mem_cons, List.not_mem_nil, false_implies, implies_true, and_true]
  exact ⟨.text _, .text _⟩

theorem ofDocument_recast (f : Recasting) (w : Workload) :
    ofDocument (f.value w.document) = .ok w := by
  rw [document_eq, f.value_object, ofDocument_object,
    f.valueOr_text w.keysApart_members "apiVersion" "apps/v1" (by decide),
    f.valueOr_text w.keysApart_members "kind" "StatefulSet" (by decide)]
  simp [valueOr, members]

end Workload

/-! ## Roles -/

namespace Role

variable {room : Nat} {r : Role}

def hasTextKeys (r : Role) : Bool := r.template.hasTextKeys

structure Reads (es : Entries) (r : Role) : Prop where
  name : (valueOr es "name" (.text "")).asText = r.name
  replicas : ∃ o, (valueOr es "replicas" .null).optional Value.toInteger = .ok o ∧
    o.getD 1 = r.replicas
  workload : Workload.ofDocument (valueOr es "workload" .null) = .ok r.workload
  template : PodTemplate.ofDocument (valueOr es "template" .null) = .ok r.template
  dependencies : (valueOr es "dependencies" .null).itemsOrNone = .ok r.dependencies
  restartPolicy : (valueOr es "restartPolicy" (.text "")).textOrEmpty = r.restartPolicy
  leaderWorkerSet : valueOr es "leaderWorkerSet" .null = r.leaderWorkerSet

theorem ofDocument_object_iff {es : Entries} : ofDocument (.object es) = .ok r ↔ Reads es r := by
  rw [ofDocument]
  simp only [Value.member, Value.memberOr_object, ok_bind]
  constructor
  · intro h
    obtain ⟨o, hreplicas, h⟩ := bind_eq_ok_iff.mp h
    obtain ⟨workload, hworkload, h⟩ := bind_eq_ok_iff.mp h
    obtain ⟨template, htemplate, h⟩ := bind_eq_ok_iff.mp h
    obtain ⟨dependencies, hdependencies, h⟩ := bind_eq_ok_iff.mp h
    cases h
    exact ⟨rfl, ⟨o, hreplicas, rfl⟩, hworkload, htemplate, hdependencies, rfl, rfl⟩
  · rintro ⟨hname, ⟨o, hreplicas, ho⟩, hworkload, htemplate, hdependencies, hpolicy, hset⟩
    simp only [hname, hreplicas, ho, hworkload, htemplate, hdependencies, hpolicy, hset, ok_bind]
    rfl

theorem exists_reads_of_ofDocument {doc : Value} (h : ofDocument doc = .ok r) :
    ∃ es, doc = .object es ∧ Reads es r := by
  obtain ⟨_, hmember, -⟩ := bind_eq_ok_iff.mp h
  obtain ⟨es, rfl, -⟩ := Value.exists_object_of_memberOr hmember
  exact ⟨es, rfl, ofDocument_object_iff.mp h⟩

/-- Whether the keys of extra members in a role are texts, no two of them equal, and none has a
field of its own. -/
def Keyed (r : Role) : Prop := r.template.spec.Keyed

structure Fits (room : Nat) (r : Role) : Prop where
  replicas : Decimal.isExchangeable r.replicas = true
  template : r.template.Fits room
  dependencies : ∀ v ∈ r.dependencies, v.Fits (room + 5)
  leaderWorkerSet : r.leaderWorkerSet.Fits (room + 6)

theorem Fits.keyed (h : r.Fits room) : r.Keyed := h.template.spec.keyed

theorem fits_of_ofDocument {doc : Value} (h : doc.Fits (room + 7)) (hr : ofDocument doc = .ok r)
    (hkeys : r.hasTextKeys = true) : r.Fits room := by
  obtain ⟨es, rfl, hreads⟩ := exists_reads_of_ofDocument hr
  have hvalue : ∀ n, (valueOr es n .null).Fits (room + 6) := fun n => h.valueOr n .null
  obtain ⟨o, ho, hreplicas⟩ := hreads.replicas
  constructor
  · rw [← hreplicas]
    cases o with
    | none => decide +kernel
    | some i =>
      obtain ⟨w, hw, hi⟩ := (hvalue "replicas").of_optional ho rfl
      exact hw.of_toInteger hi
  · exact PodTemplate.fits_of_ofDocument (hvalue "template") hreads.template hkeys
  · exact (hvalue "dependencies").of_itemsOrNone hreads.dependencies
  · rw [← hreads.leaderWorkerSet]
    exact hvalue "leaderWorkerSet"

def members (r : Role) : Entries :=
  [field "name" (.text r.name), field "replicas" (.int r.replicas),
      field "workload" r.workload.document, field "template" r.template.document] ++
    fieldIf (!r.dependencies.isEmpty) "dependencies" (.list r.dependencies) ++
    fieldIf (r.restartPolicy != "") "restartPolicy" (.text r.restartPolicy) ++
    fieldIf r.leaderWorkerSet.present?.isSome "leaderWorkerSet" r.leaderWorkerSet

theorem document_eq (r : Role) : r.document = .object r.members := rfl

theorem keysApart_members (r : Role) : keysApart r.members = true :=
  (((((((HasNames.field "name" _).append (.field "replicas" _)).append
    (.field "workload" _)).append (.field "template" _)).append
    (.fieldIf _ "dependencies" _)).append (.fieldIf _ "restartPolicy" _)).append
    (.fieldIf _ "leaderWorkerSet" _)).keysApart (by decide)

theorem fits_document (h : r.Fits room) : r.document.Fits (room + 7) := by
  refine Value.Fits.object_iff.mpr ⟨r.keysApart_members, ?_⟩
  simp only [List.forall_mem_append, List.forall_mem_cons, List.not_mem_nil, false_implies,
    implies_true, and_true]
  refine ⟨⟨⟨⟨.text _, ?_, r.workload.fits_document, ?_⟩, ?_⟩, ?_⟩, ?_⟩
  · exact Value.Fits.int_iff.mpr h.replicas
  · exact PodTemplate.fits_document h.template
  · exact Entries.forall_mem_fieldIf (Value.Fits.list_iff.mpr h.dependencies)
  · exact Entries.forall_mem_fieldIf (.text _)
  · exact Entries.forall_mem_fieldIf h.leaderWorkerSet

def ordered (r : Role) : Role :=
  { r with
    template := r.template.ordered
    dependencies := r.dependencies.map Value.ordered
    leaderWorkerSet := r.leaderWorkerSet.ordered }

def recast (f : Recasting) (r : Role) : Role :=
  { r with
    template := r.template.recast f
    dependencies := r.dependencies.map f.value
    leaderWorkerSet := f.value r.leaderWorkerSet }

theorem hasTextKeys_recast (f : Recasting) (h : r.Fits room) :
    (r.recast f).hasTextKeys = true :=
  PodTemplate.hasTextKeys_recast f h.template

/-- **A role is read back.** -/
theorem ofDocument_recast (f : Recasting) (h : r.Keyed) :
    ofDocument (f.value r.document) = .ok (r.recast f) := by
  have hnull : ∀ n, Key.text n ≠ Patch.directiveKey →
      valueOr (f.members r.members) n .null = f.value (valueOr r.members n .null) :=
    fun n => f.valueOr_null r.keysApart_members n
  have htext : ∀ n, Key.text n ≠ Patch.directiveKey →
      valueOr (f.members r.members) n (.text "") = f.value (valueOr r.members n (.text "")) :=
    fun n => f.valueOr_text r.keysApart_members n ""
  rw [document_eq, f.value_object, ofDocument_object_iff]
  constructor
  · rw [htext _ (by decide)]
    simp [valueOr, members, recast]
  · rw [hnull _ (by decide)]
    refine ⟨some r.replicas, ?_, rfl⟩
    simp [valueOr, members, Value.optional, Value.toInteger, Except.map]
  · rw [hnull _ (by decide), recast, ← Workload.ofDocument_recast f]
    simp [valueOr, members]
  · rw [hnull _ (by decide), recast, ← PodTemplate.ofDocument_recast f h]
    simp [valueOr, members]
  · rw [hnull _ (by decide)]
    simp [valueOr, members, recast]
  · rw [htext _ (by decide)]
    simp [valueOr, members, recast]
  · rw [hnull _ (by decide)]
    simp [valueOr, members, recast]

theorem document_ordered (h : r.Fits room) : r.ordered.document.ordered = r.document.ordered := by
  have hdependencies : (r.dependencies.map Value.ordered).map Value.ordered =
      r.dependencies.map Value.ordered :=
    Value.map_ordered_ordered fun v hv => (h.dependencies v hv).plain
  rw [document_eq, document_eq, Value.ordered_object_eq, Value.ordered_object_eq]
  refine congrArg _ (Entries.ordered_eq_of_perm (keysApart_members _) (List.Perm.of_eq ?_))
  simp only [members, ordered, Entries.mapValues_append, Entries.mapValues_cons_field,
    Entries.mapValues_nil, Entries.mapValues_fieldIf, Value.ordered_list, List.isEmpty_map,
    Value.isSome_present?_ordered, hdependencies, PodTemplate.document_ordered h.template,
    Value.ordered_ordered h.leaderWorkerSet.plain]

end Role

end RolloutLedger
