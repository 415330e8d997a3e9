import RolloutLedger.Proofs.Document.Container
/-! # Pod templates are read back

A pod is written with its extra members and with its containers and volumes, a template with its
labels, its annotations and its pod.  What is read back from a recast document has its values
recast, provided that the keys of labels, annotations and resources are texts.
-/

namespace RolloutLedger

open Entries (field fieldIf valueOr keysApart mapValues HasNames)

/-- Whether the keys of a container's resources are texts, no two of them equal. -/
def Container.hasTextKeys (c : Container) : Bool := keysApart c.resources

/-! ## Pods -/

namespace PodSpec

variable {room : Nat} {s : PodSpec}

def hasTextKeys (s : PodSpec) : Bool :=
  s.containers.all Container.hasTextKeys && s.initContainers.all Container.hasTextKeys

structure Reads (es : Entries) (s : PodSpec) : Prop where
  containers : ∃ docs, (valueOr es "containers" .null).itemsOrNone = .ok docs ∧
    docs.mapM Container.ofDocument = .ok s.containers
  initContainers : ∃ docs, (valueOr es "initContainers" .null).itemsOrNone = .ok docs ∧
    docs.mapM Container.ofDocument = .ok s.initContainers
  volumes : (valueOr es "volumes" .null).itemsOrNone = .ok s.volumes
  extra : es.without memberNames = s.extra

theorem ofDocument_iff {doc : Value} {es : Entries} (hdoc : doc.orEmpty = .object es) :
    ofDocument doc = .ok s ↔ Reads es s := by
  rw [ofDocument, hdoc]
  simp only [Value.member, Value.memberOr_object, Value.members, ok_bind]
  constructor
  · intro h
    obtain ⟨docs, hdocs, h⟩ := bind_eq_ok_iff.mp h
    obtain ⟨containers, hcontainers, h⟩ := bind_eq_ok_iff.mp h
    obtain ⟨docs', hdocs', h⟩ := bind_eq_ok_iff.mp h
    obtain ⟨initContainers, hinitContainers, h⟩ := bind_eq_ok_iff.mp h
    obtain ⟨volumes, hvolumes, h⟩ := bind_eq_ok_iff.mp h
    cases h
    exact ⟨⟨docs, hdocs, hcontainers⟩, ⟨docs', hdocs', hinitContainers⟩, hvolumes, rfl⟩
  · rintro ⟨⟨docs, hdocs, hcontainers⟩, ⟨docs', hdocs', hinitContainers⟩, hvolumes, hextra⟩
    simp only [hdocs, hcontainers, hdocs', hinitContainers, hvolumes, hextra, ok_bind]
    rfl

theorem exists_reads_of_ofDocument {doc : Value} (h : ofDocument doc = .ok s) :
    ∃ es, doc.orEmpty = .object es ∧ Reads es s := by
  obtain ⟨_, hmember, -⟩ := bind_eq_ok_iff.mp h
  obtain ⟨es, hdoc, -⟩ := Value.exists_object_of_memberOr hmember
  exact ⟨es, hdoc, (ofDocument_iff hdoc).mp h⟩

/-- Whether the keys of extra members, in a pod and in its containers, are texts, no two of them
equal, and none has a field of its own. -/
structure Keyed (s : PodSpec) : Prop where
  containers : ∀ c ∈ s.containers, c.Keyed
  initContainers : ∀ c ∈ s.initContainers, c.Keyed
  extra : keysApart s.extra = true
  apart : ∀ p ∈ s.extra, ∀ n ∈ memberNames, p.1 ≠ .text n

structure Fits (room : Nat) (s : PodSpec) : Prop where
  containers : ∀ c ∈ s.containers, c.Fits room
  initContainers : ∀ c ∈ s.initContainers, c.Fits room
  volumes : ∀ v ∈ s.volumes, v.Fits (room + 3)
  extra : (Value.object s.extra).Fits (room + 5)
  apart : ∀ p ∈ s.extra, ∀ n ∈ memberNames, p.1 ≠ .text n

theorem fits_of_ofDocument {doc : Value} (h : doc.Fits (room + 5)) (hs : ofDocument doc = .ok s)
    (hkeys : s.hasTextKeys = true) : s.Fits room := by
  obtain ⟨es, hdoc, hreads⟩ := exists_reads_of_ofDocument hs
  have hes := h.orEmpty
  rw [hdoc] at hes
  have hvalue : ∀ n, (valueOr es n .null).Fits (room + 4) := fun n => hes.valueOr n .null
  obtain ⟨hcontainerKeys, hinitKeys⟩ := (Bool.and_eq_true _ _).mp hkeys
  have hcontainers : ∀ {n : String} {docs : List Value} {cs : List Container},
      (valueOr es n .null).itemsOrNone = .ok docs → docs.mapM Container.ofDocument = .ok cs →
        cs.all Container.hasTextKeys = true → ∀ c ∈ cs, c.Fits room := by
    intro n docs cs hdocs hcs hall c hc
    obtain ⟨d, hd, hread⟩ := exists_of_mapM_eq_ok hcs c hc
    exact Container.fits_of_ofDocument ((hvalue n).of_itemsOrNone hdocs d hd) hread
      (List.all_eq_true.mp hall c hc)
  obtain ⟨docs, hdocs, hread⟩ := hreads.containers
  obtain ⟨docs', hdocs', hread'⟩ := hreads.initContainers
  constructor
  · exact hcontainers hdocs hread hcontainerKeys
  · exact hcontainers hdocs' hread' hinitKeys
  · exact (hvalue "volumes").of_itemsOrNone hreads.volumes
  · rw [← hreads.extra]
    exact hes.without memberNames
  · exact Entries.apart_of_without hreads.extra

def known (s : PodSpec) : Entries :=
  [field "containers" (.list (s.containers.map (·.document)))] ++
    fieldIf (!s.initContainers.isEmpty) "initContainers"
      (.list (s.initContainers.map (·.document))) ++
    fieldIf (!s.volumes.isEmpty) "volumes" (.list s.volumes)

theorem document_eq (s : PodSpec) : s.document = .object (s.extra ++ s.known) := by
  simp only [document, known, List.append_assoc]

theorem hasNames_known (s : PodSpec) : HasNames memberNames s.known :=
  ((HasNames.field "containers" _).append (.fieldIf _ "initContainers" _)).append
    (.fieldIf _ "volumes" _)

theorem Fits.keyed (h : s.Fits room) : s.Keyed where
  containers c hc := (h.containers c hc).keyed
  initContainers c hc := (h.initContainers c hc).keyed
  extra := (Value.Fits.object_iff.mp h.extra).1
  apart := h.apart

theorem Keyed.keysApart (h : s.Keyed) : keysApart (s.extra ++ s.known) = true :=
  s.hasNames_known.keysApart_append (by decide) h.extra h.apart

theorem fits_document (h : s.Fits room) : s.document.Fits (room + 5) := by
  have hcontainers : ∀ {cs : List Container}, (∀ c ∈ cs, c.Fits room) →
      (Value.list (cs.map (·.document))).Fits (room + 4) := by
    intro cs hcs
    refine Value.Fits.list_iff.mpr fun d hd => ?_
    obtain ⟨c, hc, rfl⟩ := List.mem_map.mp hd
    exact Container.fits_document (hcs c hc)
  rw [document_eq]
  refine Value.Fits.object_iff.mpr ⟨h.keyed.keysApart, ?_⟩
  simp only [known, List.forall_mem_append, List.forall_mem_singleton]
  exact ⟨(Value.Fits.object_iff.mp h.extra).2,
    ⟨hcontainers h.containers, Entries.forall_mem_fieldIf (hcontainers h.initContainers)⟩,
    Entries.forall_mem_fieldIf (Value.Fits.list_iff.mpr h.volumes)⟩

def ordered (s : PodSpec) : PodSpec where
  containers := s.containers.map Container.ordered
  initContainers := s.initContainers.map Container.ordered
  volumes := s.volumes.map Value.ordered
  extra := Entries.ordered s.extra

def recast (f : Recasting) (s : PodSpec) : PodSpec where
  containers := s.containers.map (Container.recast f)
  initContainers := s.initContainers.map (Container.recast f)
  volumes := s.volumes.map f.value
  extra := f.members s.extra

theorem hasTextKeys_recast (f : Recasting) (h : s.Fits room) :
    (s.recast f).hasTextKeys = true := by
  have hall : ∀ {cs : List Container}, (∀ c ∈ cs, c.Fits room) →
      (cs.map (Container.recast f)).all Container.hasTextKeys = true := by
    intro cs hcs
    refine List.all_eq_true.mpr fun d hd => ?_
    obtain ⟨c, hc, rfl⟩ := List.mem_map.mp hd
    exact f.keysApart_members (hcs c hc).resources
  exact (Bool.and_eq_true _ _).mpr ⟨hall h.containers, hall h.initContainers⟩

theorem mapM_containers (f : Recasting) {cs : List Container} (h : ∀ c ∈ cs, c.Keyed) :
    (cs.map fun c => f.value c.document).mapM Container.ofDocument =
      .ok (cs.map (Container.recast f)) :=
  mapM_values fun c hc => Container.ofDocument_recast f (h c hc)

/-- **A pod is read back.** -/
theorem ofDocument_recast (f : Recasting) (h : s.Keyed) :
    ofDocument (f.value s.document) = .ok (s.recast f) := by
  -- no extra member has one of the names that are looked up
  have hknown : ∀ n ∈ memberNames, ∀ d : Value, f.value d = d →
      valueOr (f.members (s.extra ++ s.known)) n d = f.value (valueOr s.known n d) :=
    fun n hn d hd => f.valueOr_of_extra h.keysApart h.apart hn (by decide) hd
  rw [document_eq, f.value_object, ofDocument_iff (Value.orEmpty_object _)]
  constructor
  · rw [hknown _ (by decide) _ f.value_null]
    exact ⟨_, by simp [valueOr, known, f.value_list, Value.itemsOrNone_list],
      mapM_containers f h.containers⟩
  · rw [hknown _ (by decide) _ f.value_null]
    exact ⟨_, by simp [valueOr, known], mapM_containers f h.initContainers⟩
  · rw [hknown _ (by decide) _ f.value_null]
    simp [valueOr, known, recast]
  · exact f.without_of_extra h.keysApart h.apart s.hasNames_known.exists_name

theorem document_ordered (h : s.Fits room) : s.ordered.document.ordered = s.document.ordered := by
  have hcontainers : ∀ {cs : List Container}, (∀ c ∈ cs, c.Fits room) →
      ((cs.map Container.ordered).map (·.document)).map Value.ordered =
        (cs.map (·.document)).map Value.ordered :=
    fun hcs => Value.map_documents_ordered fun c hc => Container.document_ordered (hcs c hc)
  have hvolumes : (s.volumes.map Value.ordered).map Value.ordered = s.volumes.map Value.ordered :=
    Value.map_ordered_ordered fun v hv => (h.volumes v hv).plain
  have hknown : mapValues Value.ordered s.ordered.known = mapValues Value.ordered s.known := by
    simp only [known, ordered, Entries.mapValues_append, Entries.mapValues_cons_field,
      Entries.mapValues_nil, Entries.mapValues_fieldIf, Value.ordered_list, List.isEmpty_map,
      hcontainers h.containers, hcontainers h.initContainers, hvolumes]
  rw [document_eq, document_eq, Value.ordered_object_eq, Value.ordered_object_eq]
  exact congrArg _ (Entries.ordered_append_of_extra h.keyed.keysApart h.extra.plain hknown)

end PodSpec

/-! ## Templates -/

namespace PodTemplate

variable {room : Nat} {t : PodTemplate}

def hasTextKeys (t : PodTemplate) : Bool :=
  keysApart t.labels && keysApart t.annotations && t.spec.hasTextKeys

structure Fits (room : Nat) (t : PodTemplate) : Prop where
  labels : (Value.object t.labels).Fits (room + 4)
  annotations : (Value.object t.annotations).Fits (room + 4)
  spec : t.spec.Fits room

theorem ofDocument_iff {doc : Value} {es ms : Entries} (hdoc : doc.orEmpty = .object es)
    (hmetadata : (valueOr es "metadata" .null).orEmpty = .object ms) :
    ofDocument doc = .ok t ↔
      (valueOr ms "labels" .null).entriesOrNone = .ok t.labels ∧
        (valueOr ms "annotations" .null).entriesOrNone = .ok t.annotations ∧
        PodSpec.ofDocument (valueOr es "spec" .null) = .ok t.spec := by
  rw [ofDocument, hdoc]
  simp only [Value.member, Value.memberOr_object, ok_bind, hmetadata]
  constructor
  · intro h
    obtain ⟨labels, hlabels, h⟩ := bind_eq_ok_iff.mp h
    obtain ⟨annotations, hannotations, h⟩ := bind_eq_ok_iff.mp h
    obtain ⟨spec, hspec, h⟩ := bind_eq_ok_iff.mp h
    cases h
    exact ⟨hlabels, hannotations, hspec⟩
  · rintro ⟨hlabels, hannotations, hspec⟩
    simp only [hlabels, hannotations, hspec, ok_bind]
    rfl

theorem exists_of_ofDocument {doc : Value} (ht : ofDocument doc = .ok t) :
    ∃ es ms, doc.orEmpty = .object es ∧ (valueOr es "metadata" .null).orEmpty = .object ms ∧
      (valueOr ms "labels" .null).entriesOrNone = .ok t.labels ∧
      (valueOr ms "annotations" .null).entriesOrNone = .ok t.annotations ∧
      PodSpec.ofDocument (valueOr es "spec" .null) = .ok t.spec := by
  obtain ⟨_, hmember, hrest⟩ := bind_eq_ok_iff.mp ht
  obtain ⟨es, hdoc, rfl⟩ := Value.exists_object_of_memberOr hmember
  obtain ⟨_, hmember', -⟩ := bind_eq_ok_iff.mp hrest
  obtain ⟨ms, hmetadata, rfl⟩ := Value.exists_object_of_memberOr hmember'
  exact ⟨es, ms, hdoc, hmetadata, (ofDocument_iff hdoc hmetadata).mp ht⟩

theorem fits_of_ofDocument {doc : Value} (h : doc.Fits (room + 6)) (ht : ofDocument doc = .ok t)
    (hkeys : t.hasTextKeys = true) : t.Fits room := by
  obtain ⟨es, ms, hdoc, hmetadata, hlabels, hannotations, hspec⟩ := exists_of_ofDocument ht
  have hes := h.orEmpty
  rw [hdoc] at hes
  have hms : (Value.object ms).Fits (room + 5) := by
    rw [← hmetadata]
    exact (hes.valueOr "metadata" .null).orEmpty
  simp only [hasTextKeys, Bool.and_eq_true] at hkeys
  constructor
  · exact (hms.valueOr "labels" .null).of_entriesOrNone hlabels hkeys.1.1
  · exact (hms.valueOr "annotations" .null).of_entriesOrNone hannotations hkeys.1.2
  · exact PodSpec.fits_of_ofDocument (hes.valueOr "spec" .null) hspec hkeys.2

def metadataMembers (t : PodTemplate) : Entries :=
  fieldIf (!t.labels.isEmpty) "labels" (.object t.labels) ++
    fieldIf (!t.annotations.isEmpty) "annotations" (.object t.annotations)

def members (t : PodTemplate) : Entries :=
  [field "metadata" (.object t.metadataMembers), field "spec" t.spec.document]

theorem document_eq (t : PodTemplate) : t.document = .object t.members := rfl

theorem keysApart_metadataMembers (t : PodTemplate) : keysApart t.metadataMembers = true :=
  ((HasNames.fieldIf _ "labels" _).append (.fieldIf _ "annotations" _)).keysApart (by decide)

theorem keysApart_members (t : PodTemplate) : keysApart t.members = true :=
  ((HasNames.field "metadata" _).append (.field "spec" _)).keysApart (by decide)

theorem fits_document (h : t.Fits room) : t.document.Fits (room + 6) := by
  have hmetadata : (Value.object t.metadataMembers).Fits (room + 5) := by
    refine Value.Fits.object_iff.mpr ⟨t.keysApart_metadataMembers, ?_⟩
    simp only [metadataMembers, List.forall_mem_append]
    exact ⟨Entries.forall_mem_fieldIf h.labels, Entries.forall_mem_fieldIf h.annotations⟩
  refine Value.Fits.object_iff.mpr ⟨t.keysApart_members, ?_⟩
  simp only [List.forall_mem_cons, List.not_mem_nil, false_implies, implies_true, and_true]
  exact ⟨hmetadata, PodSpec.fits_document h.spec⟩

def ordered (t : PodTemplate) : PodTemplate :=
  ⟨Entries.ordered t.labels, Entries.ordered t.annotations, t.spec.ordered⟩

def recast (f : Recasting) (t : PodTemplate) : PodTemplate :=
  ⟨f.members t.labels, f.members t.annotations, t.spec.recast f⟩

theorem hasTextKeys_recast (f : Recasting) (h : t.Fits room) :
    (t.recast f).hasTextKeys = true := by
  simp only [hasTextKeys, Bool.and_eq_true]
  exact ⟨⟨f.keysApart_members h.labels, f.keysApart_members h.annotations⟩,
    PodSpec.hasTextKeys_recast f h.spec⟩

/-- **A template is read back.** -/
theorem ofDocument_recast (f : Recasting) (h : t.spec.Keyed) :
    ofDocument (f.value t.document) = .ok (t.recast f) := by
  have hmetadata : (valueOr (f.members t.members) "metadata" .null).orEmpty =
      .object (f.members t.metadataMembers) := by
    rw [f.valueOr_null t.keysApart_members "metadata" (by decide)]
    simp only [valueOr, members, Entries.get?_cons_field, if_true, Option.getD_some,
      f.value_object, Value.orEmpty_object]
  rw [document_eq, f.value_object, ofDocument_iff (Value.orEmpty_object _) hmetadata,
    f.valueOr_null t.keysApart_metadataMembers "labels" (by decide),
    f.valueOr_null t.keysApart_metadataMembers "annotations" (by decide),
    f.valueOr_null t.keysApart_members "spec" (by decide)]
  refine ⟨by simp [valueOr, metadataMembers, recast], by simp [valueOr, metadataMembers, recast],
    ?_⟩
  rw [recast, ← PodSpec.ofDocument_recast f h]
  simp [valueOr, members]

theorem document_ordered (h : t.Fits room) : t.ordered.document.ordered = t.document.ordered := by
  have hlabels : (Value.object (Entries.ordered t.labels)).ordered =
      (Value.object t.labels).ordered := by
    rw [← Value.ordered_object_eq, Value.ordered_ordered h.labels.plain]
  have hannotations : (Value.object (Entries.ordered t.annotations)).ordered =
      (Value.object t.annotations).ordered := by
    rw [← Value.ordered_object_eq, Value.ordered_ordered h.annotations.plain]
  have hmetadata : (Value.object t.ordered.metadataMembers).ordered =
      (Value.object t.metadataMembers).ordered := by
    rw [Value.ordered_object_eq, Value.ordered_object_eq]
    refine congrArg _ (Entries.ordered_eq_of_perm (keysApart_metadataMembers _)
      (List.Perm.of_eq ?_))
    simp only [metadataMembers, ordered, Entries.mapValues_append, Entries.mapValues_fieldIf,
      Entries.isEmpty_ordered, hlabels, hannotations]
  rw [document_eq, document_eq, Value.ordered_object_eq, Value.ordered_object_eq]
  refine congrArg _ (Entries.ordered_eq_of_perm (keysApart_members _) (List.Perm.of_eq ?_))
  simp only [members, Entries.mapValues_cons_field, Entries.mapValues_nil, hmetadata]
  rw [ordered, PodSpec.document_ordered h.spec]

end PodTemplate

end RolloutLedger
