import RolloutLedger.Proofs.Document.Metadata
import RolloutLedger.Proofs.Document.Role
/-! # Groups are read back

A declaration is written with its roles, and with its policy and its history limit if there are
any.  What is read back from a recast document has its values recast.
-/

namespace RolloutLedger

open Entries (field fieldIf optionalField valueOr keysApart mapValues HasNames)

/-! ## Scheduling policies -/

namespace VolcanoScheduling

def members (v : VolcanoScheduling) : Entries :=
  fieldIf (v.priorityClassName != "") "priorityClassName" (.text v.priorityClassName) ++
    fieldIf (v.queue != "") "queue" (.text v.queue)

theorem keysApart_members (v : VolcanoScheduling) : keysApart v.members = true :=
  ((HasNames.fieldIf _ "priorityClassName" _).append (.fieldIf _ "queue" _)).keysApart (by decide)

end VolcanoScheduling

namespace GangPolicy

variable {room : Nat} {p : GangPolicy}

theorem kubeOfDocument_object (es : Entries) :
    kubeOfDocument (.object es) = .ok (valueOr es "scheduleTimeoutSeconds" .null) := rfl

theorem volcanoOfDocument_object (es : Entries) :
    volcanoOfDocument (.object es) = .ok ⟨(valueOr es "priorityClassName" (.text "")).asText,
      (valueOr es "queue" (.text "")).asText⟩ := rfl

theorem ofDocument_object_iff {es : Entries} :
    ofDocument (.object es) = .ok p ↔
      (valueOr es "kubeScheduling" .null).optional kubeOfDocument = .ok p.kubeTimeout ∧
        (valueOr es "volcanoScheduling" .null).optional volcanoOfDocument = .ok p.volcano := by
  rw [ofDocument]
  simp only [Value.member, Value.memberOr_object, ok_bind]
  constructor
  · intro h
    obtain ⟨kube, hkube, h⟩ := bind_eq_ok_iff.mp h
    obtain ⟨volcano, hvolcano, h⟩ := bind_eq_ok_iff.mp h
    cases h
    exact ⟨hkube, hvolcano⟩
  · rintro ⟨hkube, hvolcano⟩
    rw [hkube, ok_bind, hvolcano, ok_bind]
    rfl

theorem exists_object_of_ofDocument {doc : Value} (hp : ofDocument doc = .ok p) :
    ∃ es, doc = .object es ∧
      (valueOr es "kubeScheduling" .null).optional kubeOfDocument = .ok p.kubeTimeout := by
  obtain ⟨_, hmember, -⟩ := bind_eq_ok_iff.mp hp
  obtain ⟨es, rfl, -⟩ := Value.exists_object_of_memberOr hmember
  exact ⟨es, rfl, (ofDocument_object_iff.mp hp).1⟩

def Fits (room : Nat) (p : GangPolicy) : Prop := ∀ t, p.kubeTimeout = some t → t.Fits room

theorem fits_of_ofDocument {doc : Value} (h : doc.Fits (room + 2)) (hp : ofDocument doc = .ok p) :
    p.Fits room := by
  obtain ⟨es, rfl, hkube⟩ := exists_object_of_ofDocument hp
  intro t ht
  obtain ⟨w, hw, hread⟩ := (h.valueOr "kubeScheduling" .null).of_optional hkube ht
  obtain ⟨fs, rfl, hvalue⟩ := Value.exists_object_of_memberOr hread
  rw [← hvalue]
  exact hw.valueOr "scheduleTimeoutSeconds" .null

def members (p : GangPolicy) : Entries :=
  optionalField "kubeScheduling" (p.kubeTimeout.map kubeDocument) ++
    optionalField "volcanoScheduling" (p.volcano.map volcanoDocument)

theorem document_eq (p : GangPolicy) : p.document = .object p.members := by
  obtain ⟨kube, volcano⟩ := p
  cases kube <;> cases volcano <;> rfl

theorem hasNames_members (p : GangPolicy) :
    HasNames ["kubeScheduling", "volcanoScheduling"] p.members :=
  (HasNames.optionalField "kubeScheduling" _).append (.optionalField "volcanoScheduling" _)

theorem keysApart_members (p : GangPolicy) : keysApart p.members = true :=
  p.hasNames_members.keysApart (by decide)

/-- No member of a policy is a directive, whatever becomes of the values. -/
theorem ne_directiveKey_of_mem (p : GangPolicy) (f : Value → Value) :
    ∀ q ∈ mapValues f (Entries.sorted p.members), q.1 ≠ Patch.directiveKey := by
  intro q hq
  obtain ⟨m, hm, rfl⟩ := Entries.mem_mapValues.mp hq
  exact p.hasNames_members.ne_directiveKey (by decide) m ((Entries.sorted_perm _).mem_iff.mp hm)

theorem keysApart_timeout (t : Value) :
    keysApart (fieldIf t.present?.isSome "scheduleTimeoutSeconds" t) = true :=
  (HasNames.fieldIf _ "scheduleTimeoutSeconds" t).keysApart (by decide)

theorem fits_document (h : p.Fits room) : p.document.Fits (room + 2) := by
  rw [document_eq]
  refine Value.Fits.object_iff.mpr ⟨p.keysApart_members, ?_⟩
  simp only [members, List.forall_mem_append]
  constructor
  · refine Entries.forall_mem_optionalField fun d hd => ?_
    obtain ⟨t, ht, rfl⟩ := Option.map_eq_some_iff.mp hd
    exact Value.Fits.object_iff.mpr ⟨keysApart_timeout t, Entries.forall_mem_fieldIf (h t ht)⟩
  · refine Entries.forall_mem_optionalField fun d hd => ?_
    obtain ⟨v, -, rfl⟩ := Option.map_eq_some_iff.mp hd
    refine Value.Fits.object_iff.mpr ⟨v.keysApart_members, ?_⟩
    simp only [List.forall_mem_append]
    exact ⟨Entries.forall_mem_fieldIf (.text _), Entries.forall_mem_fieldIf (.text _)⟩

def ordered (p : GangPolicy) : GangPolicy :=
  { p with kubeTimeout := p.kubeTimeout.map Value.ordered }

def recast (f : Recasting) (p : GangPolicy) : GangPolicy :=
  { p with kubeTimeout := p.kubeTimeout.map f.value }

theorem kubeOfDocument_recast (f : Recasting) (t : Value) :
    kubeOfDocument (f.value (kubeDocument t)) = .ok (f.value t) := by
  rw [kubeDocument, f.value_object, kubeOfDocument_object,
    f.valueOr_null (keysApart_timeout t) "scheduleTimeoutSeconds" (by decide)]
  simp [valueOr]

theorem volcanoOfDocument_recast (f : Recasting) (v : VolcanoScheduling) :
    volcanoOfDocument (f.value (volcanoDocument v)) = .ok v := by
  rw [show volcanoDocument v = .object v.members from rfl, f.value_object,
    volcanoOfDocument_object,
    f.valueOr_text v.keysApart_members "priorityClassName" "" (by decide),
    f.valueOr_text v.keysApart_members "queue" "" (by decide)]
  simp [valueOr, VolcanoScheduling.members]

/-- **A policy is read back.** -/
theorem ofDocument_recast (f : Recasting) (p : GangPolicy) :
    ofDocument (f.value p.document) = .ok (p.recast f) := by
  have hkube : (f.value ((p.kubeTimeout.map kubeDocument).getD .null)).optional kubeOfDocument =
      .ok (p.kubeTimeout.map f.value) :=
    f.optional (fun _ => ⟨_, rfl⟩) fun t _ => kubeOfDocument_recast f t
  have hvolcano : (f.value ((p.volcano.map volcanoDocument).getD .null)).optional
      volcanoOfDocument = .ok (p.volcano.map id) :=
    f.optional (fun _ => ⟨_, rfl⟩) fun v _ => volcanoOfDocument_recast f v
  rw [Option.map_id] at hvolcano
  rw [document_eq, f.value_object, ofDocument_object_iff, recast, ← hkube,
    f.valueOr_null p.keysApart_members "kubeScheduling" (by decide),
    f.valueOr_null p.keysApart_members "volcanoScheduling" (by decide)]
  simp [valueOr, members, hvolcano]

theorem document_ordered (h : p.Fits room) : p.ordered.document.ordered = p.document.ordered := by
  have hkube : ∀ t, p.kubeTimeout = some t →
      (kubeDocument t.ordered).ordered = (kubeDocument t).ordered := by
    intro t ht
    rw [kubeDocument, kubeDocument, Value.ordered_object_eq, Value.ordered_object_eq]
    refine congrArg _ (Entries.ordered_eq_of_perm (keysApart_timeout _) (List.Perm.of_eq ?_))
    simp [Value.ordered_ordered (h t ht).plain]
  have htimeout : ((p.kubeTimeout.map Value.ordered).map kubeDocument).map Value.ordered =
      (p.kubeTimeout.map kubeDocument).map Value.ordered := by
    cases ht : p.kubeTimeout with
    | none => rfl
    | some t => exact congrArg some (hkube t ht)
  rw [document_eq, document_eq, Value.ordered_object_eq, Value.ordered_object_eq]
  refine congrArg _ (Entries.ordered_eq_of_perm (keysApart_members _) (List.Perm.of_eq ?_))
  simp only [members, ordered, Entries.mapValues_append, Entries.mapValues_optionalField, htimeout]

end GangPolicy

/-! ## Declarations -/

namespace GroupSpec

variable {room : Nat} {s : GroupSpec}

def hasTextKeys (s : GroupSpec) : Bool := s.roles.all Role.hasTextKeys

structure Reads (es : Entries) (s : GroupSpec) : Prop where
  roles : ∃ docs, (valueOr es "roles" .null).itemsOrNone = .ok docs ∧
    docs.mapM Role.ofDocument = .ok s.roles
  policy : (valueOr es "podGroupPolicy" .null).optional GangPolicy.ofDocument = .ok s.policy
  historyLimit : (valueOr es "revisionHistoryLimit" .null).optional Value.toInteger =
    .ok s.historyLimit

theorem ofDocument_iff {doc : Value} {es : Entries} (hdoc : doc.orEmpty = .object es) :
    ofDocument doc = .ok s ↔ Reads es s := by
  rw [ofDocument, hdoc]
  simp only [Value.member, Value.memberOr_object, ok_bind]
  constructor
  · intro h
    obtain ⟨docs, hdocs, h⟩ := bind_eq_ok_iff.mp h
    obtain ⟨roles, hroles, h⟩ := bind_eq_ok_iff.mp h
    obtain ⟨policy, hpolicy, h⟩ := bind_eq_ok_iff.mp h
    obtain ⟨limit, hlimit, h⟩ := bind_eq_ok_iff.mp h
    cases h
    exact ⟨⟨docs, hdocs, hroles⟩, hpolicy, hlimit⟩
  · rintro ⟨⟨docs, hdocs, hroles⟩, hpolicy, hlimit⟩
    rw [hdocs, ok_bind, hroles, ok_bind, hpolicy, ok_bind, hlimit, ok_bind]
    rfl

theorem exists_reads_of_ofDocument {doc : Value} (h : ofDocument doc = .ok s) :
    ∃ es, doc.orEmpty = .object es ∧ Reads es s := by
  obtain ⟨_, hmember, -⟩ := bind_eq_ok_iff.mp h
  obtain ⟨es, hdoc, -⟩ := Value.exists_object_of_memberOr hmember
  exact ⟨es, hdoc, (ofDocument_iff hdoc).mp h⟩

/-- Whether the keys of extra members in the roles are texts, no two of them equal, and none has a
field of its own. -/
def Keyed (s : GroupSpec) : Prop := ∀ r ∈ s.roles, r.Keyed

structure Fits (room : Nat) (s : GroupSpec) : Prop where
  roles : ∀ r ∈ s.roles, r.Fits room
  policy : ∀ p, s.policy = some p → p.Fits (room + 6)
  historyLimit : ∀ n, s.historyLimit = some n → Decimal.isExchangeable n = true

theorem Fits.keyed (h : s.Fits room) : s.Keyed := fun r hr => (h.roles r hr).keyed

theorem fits_of_ofDocument {doc : Value} (h : doc.Fits (room + 9)) (hs : ofDocument doc = .ok s)
    (hkeys : s.hasTextKeys = true) : s.Fits room := by
  obtain ⟨es, hdoc, hreads⟩ := exists_reads_of_ofDocument hs
  have hes := h.orEmpty
  rw [hdoc] at hes
  have hvalue : ∀ n, (valueOr es n .null).Fits (room + 8) := fun n => hes.valueOr n .null
  obtain ⟨docs, hdocs, hroles⟩ := hreads.roles
  constructor
  · intro r hr
    obtain ⟨d, hd, hread⟩ := exists_of_mapM_eq_ok hroles r hr
    exact Role.fits_of_ofDocument ((hvalue "roles").of_itemsOrNone hdocs d hd) hread
      (List.all_eq_true.mp hkeys r hr)
  · intro p hp
    obtain ⟨w, hw, hread⟩ := (hvalue "podGroupPolicy").of_optional hreads.policy hp
    exact GangPolicy.fits_of_ofDocument hw hread
  · intro n hn
    obtain ⟨w, hw, hread⟩ := (hvalue "revisionHistoryLimit").of_optional hreads.historyLimit hn
    exact hw.of_toInteger hread

def members (s : GroupSpec) : Entries :=
  [field "roles" (.list s.roleDocuments)] ++
    optionalField "podGroupPolicy" (s.policy.map GangPolicy.document) ++
    optionalField "revisionHistoryLimit" (s.historyLimit.map Value.int)

theorem document_eq (s : GroupSpec) : s.document = .object s.members := by
  obtain ⟨roles, policy, limit⟩ := s
  cases policy <;> cases limit <;> rfl

theorem keysApart_members (s : GroupSpec) : keysApart s.members = true :=
  (((HasNames.field "roles" _).append (.optionalField "podGroupPolicy" _)).append
    (.optionalField "revisionHistoryLimit" _)).keysApart (by decide)

theorem fits_roleDocuments (h : s.Fits room) : (Value.list s.roleDocuments).Fits (room + 8) := by
  refine Value.Fits.list_iff.mpr fun d hd => ?_
  obtain ⟨r, hr, rfl⟩ := List.mem_map.mp hd
  exact Role.fits_document (h.roles r hr)

theorem fits_documentOrNull (h : s.Fits room) :
    (GangPolicy.documentOrNull s.policy).Fits (room + 8) := by
  cases hp : s.policy with
  | none => exact .null
  | some p => exact GangPolicy.fits_document (h.policy p hp)

theorem fits_document (h : s.Fits room) : s.document.Fits (room + 9) := by
  rw [document_eq]
  refine Value.Fits.object_iff.mpr ⟨s.keysApart_members, ?_⟩
  simp only [members, List.forall_mem_append, List.forall_mem_singleton]
  refine ⟨⟨fits_roleDocuments h, ?_⟩, ?_⟩
  · refine Entries.forall_mem_optionalField fun d hd => ?_
    obtain ⟨p, hp, rfl⟩ := Option.map_eq_some_iff.mp hd
    exact GangPolicy.fits_document (h.policy p hp)
  · refine Entries.forall_mem_optionalField fun d hd => ?_
    obtain ⟨n, hn, rfl⟩ := Option.map_eq_some_iff.mp hd
    exact Value.Fits.int_iff.mpr (h.historyLimit n hn)

theorem mapM_roles (f : Recasting) (h : s.Keyed) :
    (s.roleDocuments.map f.value).mapM Role.ofDocument = .ok (s.roles.map (Role.recast f)) := by
  rw [roleDocuments, List.map_map]
  exact mapM_values fun r hr => Role.ofDocument_recast f (h r hr)

theorem optional_policy (f : Recasting) (s : GroupSpec) :
    (f.value (GangPolicy.documentOrNull s.policy)).optional GangPolicy.ofDocument =
      .ok (s.policy.map (GangPolicy.recast f)) := by
  have hnull : GangPolicy.documentOrNull s.policy =
      (s.policy.map GangPolicy.document).getD .null := by
    cases s.policy <;> rfl
  rw [hnull]
  exact f.optional (fun p => ⟨p.members, p.document_eq⟩) fun p _ => p.ofDocument_recast f

theorem optional_historyLimit (f : Recasting) (s : GroupSpec) :
    (valueOr (f.members s.members) "revisionHistoryLimit" .null).optional Value.toInteger =
      .ok s.historyLimit := by
  rw [f.valueOr_null s.keysApart_members "revisionHistoryLimit" (by decide)]
  cases hlimit : s.historyLimit with
  | none => simp [valueOr, members, hlimit, Value.optional]
  | some n => simp [valueOr, members, hlimit, Value.optional, Value.toInteger, Except.map]

def recast (f : Recasting) (s : GroupSpec) : GroupSpec where
  roles := s.roles.map (Role.recast f)
  policy := s.policy.map (GangPolicy.recast f)
  historyLimit := s.historyLimit

theorem fits_recast (f : Recasting) (h : s.Fits room) : (s.recast f).Fits room := by
  constructor
  · intro r hr
    obtain ⟨r, hmem, rfl⟩ := List.mem_map.mp hr
    have hfits := h.roles r hmem
    exact Role.fits_of_ofDocument (f.fits (Role.fits_document hfits))
      (Role.ofDocument_recast f hfits.keyed) (Role.hasTextKeys_recast f hfits)
  · intro p hp
    obtain ⟨p, hpolicy, rfl⟩ := Option.map_eq_some_iff.mp hp
    exact GangPolicy.fits_of_ofDocument (f.fits (GangPolicy.fits_document (h.policy p hpolicy)))
      (p.ofDocument_recast f)
  · exact h.historyLimit

/-- **A declaration is read back.** -/
theorem reads_recast (f : Recasting) (h : s.Keyed) :
    Reads (f.members s.members) (s.recast f) := by
  constructor
  · rw [f.valueOr_null s.keysApart_members "roles" (by decide)]
    refine ⟨s.roleDocuments.map f.value, ?_, mapM_roles f h⟩
    simp [valueOr, members, f.value_list, Value.itemsOrNone_list]
  · rw [f.valueOr_null s.keysApart_members "podGroupPolicy" (by decide), recast,
      ← optional_policy f s]
    cases hp : s.policy <;> simp [valueOr, members, GangPolicy.documentOrNull, hp]
  · exact optional_historyLimit f s

theorem roleDocuments_ordered (h : s.Fits room) :
    ((s.roles.map Role.ordered).map (·.document)).map Value.ordered =
      s.roleDocuments.map Value.ordered :=
  Value.map_documents_ordered fun r hr => Role.document_ordered (h.roles r hr)

theorem documentOrNull_ordered (h : s.Fits room) :
    (GangPolicy.documentOrNull (s.policy.map GangPolicy.ordered)).ordered =
      (GangPolicy.documentOrNull s.policy).ordered := by
  cases hp : s.policy with
  | none => rfl
  | some p => exact GangPolicy.document_ordered (h.policy p hp)

end GroupSpec

/-! ## Groups -/

namespace Group

variable {room : Nat} {g : Group}

def hasTextKeys (g : Group) : Bool := g.metadata.hasTextKeys && g.spec.hasTextKeys

theorem ofDocument_object_iff {es : Entries} :
    ofDocument (.object es) = .ok g ↔
      Metadata.ofDocument (valueOr es "metadata" .null) = .ok g.metadata ∧
        GroupSpec.ofDocument (valueOr es "spec" .null) = .ok g.spec := by
  rw [ofDocument]
  simp only [Value.member, Value.memberOr_object, ok_bind]
  constructor
  · intro h
    obtain ⟨metadata, hmetadata, h⟩ := bind_eq_ok_iff.mp h
    obtain ⟨spec, hspec, h⟩ := bind_eq_ok_iff.mp h
    cases h
    exact ⟨hmetadata, hspec⟩
  · rintro ⟨hmetadata, hspec⟩
    rw [hmetadata, ok_bind, hspec, ok_bind]
    rfl

theorem exists_object_of_ofDocument {doc : Value} (hg : ofDocument doc = .ok g) :
    ∃ es, doc = .object es ∧ Metadata.ofDocument (valueOr es "metadata" .null) = .ok g.metadata ∧
      GroupSpec.ofDocument (valueOr es "spec" .null) = .ok g.spec := by
  obtain ⟨_, hmember, -⟩ := bind_eq_ok_iff.mp hg
  obtain ⟨es, rfl, -⟩ := Value.exists_object_of_memberOr hmember
  exact ⟨es, rfl, ofDocument_object_iff.mp hg⟩

structure Fits (room : Nat) (g : Group) : Prop where
  metadata : g.metadata.Fits (room + 6)
  spec : g.spec.Fits room

theorem fits_spec_of_ofDocument {doc : Value} (h : doc.Fits (room + 10))
    (hg : ofDocument doc = .ok g) (hkeys : g.spec.hasTextKeys = true) : g.spec.Fits room := by
  obtain ⟨es, rfl, -, hspec⟩ := exists_object_of_ofDocument hg
  exact GroupSpec.fits_of_ofDocument (h.valueOr "spec" .null) hspec hkeys

theorem fits_of_ofDocument {doc : Value} (h : doc.Fits (room + 10)) (hg : ofDocument doc = .ok g)
    (hkeys : g.hasTextKeys = true) : g.Fits room := by
  obtain ⟨hmetadataKeys, hspecKeys⟩ := (Bool.and_eq_true _ _).mp hkeys
  refine ⟨?_, fits_spec_of_ofDocument h hg hspecKeys⟩
  obtain ⟨es, rfl, hmetadata, -⟩ := exists_object_of_ofDocument hg
  exact Metadata.fits_of_ofDocument (h.valueOr "metadata" .null) hmetadata hmetadataKeys

def membersWith (g : Group) (metadata : Value) : Entries :=
  [field "apiVersion" (.text groupVersion), field "kind" (.text groupKind),
    field "metadata" metadata, field "spec" g.spec.document]

theorem documentWith_eq (g : Group) (metadata : Value) :
    g.documentWith metadata = .object (g.membersWith metadata) := rfl

theorem keysApart_membersWith (g : Group) (metadata : Value) :
    keysApart (g.membersWith metadata) = true := rfl

theorem fits_documentWith {metadata : Value} (hmetadata : metadata.Fits (room + 9))
    (h : g.spec.Fits room) : (g.documentWith metadata).Fits (room + 10) := by
  refine Value.Fits.object_iff.mpr ⟨keysApart_membersWith g metadata, ?_⟩
  simp only [List.forall_mem_cons, List.not_mem_nil, false_implies, implies_true, and_true]
  exact ⟨.text _, .text _, hmetadata, GroupSpec.fits_document h⟩

end Group

end RolloutLedger
