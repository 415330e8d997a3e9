import RolloutLedger.Metadata
import RolloutLedger.Proofs.Document.Recasting
import RolloutLedger.Proofs.Document.Room
import RolloutLedger.Proofs.Time.Wire
/-! # Reading metadata

Metadata is read member by member; what was written is read back as it was.
-/

namespace RolloutLedger

open Entries (field fieldIf valueOr keysApart HasNames)

namespace OwnerReference

theorem ofDocument_object (es : Entries) :
    ofDocument (.object es) = .ok
      ⟨(valueOr es "apiVersion" (.text "")).asText, (valueOr es "kind" (.text "")).asText,
        (valueOr es "name" (.text "")).asText, (valueOr es "uid" (.text "")).asText,
        valueOr es "controller" .null, valueOr es "blockOwnerDeletion" .null⟩ := rfl

theorem ofDocument_document (r : OwnerReference) : ofDocument r.document = .ok r := by
  rw [document, ofDocument_object]
  simp [valueOr, Value.asText]

variable {room : Nat} {r : OwnerReference}

structure Fits (room : Nat) (r : OwnerReference) : Prop where
  controller : r.controller.Fits room
  blockOwnerDeletion : r.blockOwnerDeletion.Fits room

theorem fits_of_ofDocument {doc : Value} (h : doc.Fits (room + 1)) (hr : ofDocument doc = .ok r) :
    r.Fits room := by
  obtain ⟨_, hmember, -⟩ := bind_eq_ok_iff.mp hr
  obtain ⟨es, rfl, -⟩ := Value.exists_object_of_memberOr hmember
  rw [ofDocument_object] at hr
  cases hr
  exact ⟨h.valueOr "controller" .null, h.valueOr "blockOwnerDeletion" .null⟩

def members (r : OwnerReference) : Entries :=
  [field "apiVersion" (.text r.apiVersion), field "kind" (.text r.kind),
      field "name" (.text r.name), field "uid" (.text r.uid)] ++
    fieldIf r.controller.present?.isSome "controller" r.controller ++
    fieldIf r.blockOwnerDeletion.present?.isSome "blockOwnerDeletion" r.blockOwnerDeletion

theorem document_eq (r : OwnerReference) : r.document = .object r.members := rfl

theorem keysApart_members (r : OwnerReference) : keysApart r.members = true :=
  ((((((HasNames.field "apiVersion" _).append (.field "kind" _)).append
    (.field "name" _)).append (.field "uid" _)).append (.fieldIf _ "controller" _)).append
    (.fieldIf _ "blockOwnerDeletion" _)).keysApart (by decide)

theorem fits_document (h : r.Fits room) : r.document.Fits (room + 1) := by
  refine Value.Fits.object_iff.mpr ⟨r.keysApart_members, ?_⟩
  simp only [List.forall_mem_append, List.forall_mem_cons, List.not_mem_nil, false_implies,
    implies_true, and_true]
  exact ⟨⟨⟨.text _, .text _, .text _, .text _⟩, Entries.forall_mem_fieldIf h.controller⟩,
    Entries.forall_mem_fieldIf h.blockOwnerDeletion⟩

def ordered (r : OwnerReference) : OwnerReference :=
  { r with
    controller := r.controller.ordered
    blockOwnerDeletion := r.blockOwnerDeletion.ordered }

theorem ofDocument_ordered (r : OwnerReference) :
    ofDocument r.document.ordered = .ok r.ordered := by
  rw [document_eq, Value.ordered_object_eq, ofDocument_object]
  simp only [Entries.valueOr_null_ordered r.keysApart_members,
    Entries.valueOr_text_ordered r.keysApart_members]
  simp [valueOr, members, ordered]

theorem Fits.ordered (h : r.Fits room) : r.ordered.Fits room :=
  ⟨h.controller.ordered, h.blockOwnerDeletion.ordered⟩

theorem ordered_ordered (h : r.Fits room) : r.ordered.ordered = r.ordered := by
  simp only [OwnerReference.ordered, Value.ordered_ordered h.controller.plain,
    Value.ordered_ordered h.blockOwnerDeletion.plain]

theorem alike_ordered (h : r.Fits room) : r.ordered.alike r = true := by
  have hvalue : ∀ {v : Value}, v.isPlain = true → Value.alike true v.ordered v = true :=
    fun hv => Value.alike_of_sameJson true (Value.isPlain_ordered hv) (Value.sameJson_ordered hv)
  simp [alike, ordered, hvalue h.controller.plain, hvalue h.blockOwnerDeletion.plain]

end OwnerReference

namespace Metadata

structure Reads (es : Entries) (m : Metadata) : Prop where
  name : (valueOr es "name" (.text "")).asText = m.name
  ns : (valueOr es "namespace" (.text "")).asText = m.ns
  uid : (valueOr es "uid" (.text "")).asText = m.uid
  labels : (valueOr es "labels" .null).entriesOrNone = .ok m.labels
  annotations : (valueOr es "annotations" .null).entriesOrNone = .ok m.annotations
  owners : ∃ docs, (valueOr es "ownerReferences" .null).itemsOrNone = .ok docs ∧
    docs.mapM OwnerReference.ofDocument = .ok m.owners
  created : (valueOr es "creationTimestamp" .null).toTimestamp? = .ok m.created
  generation : ((valueOr es "generation" .null).orElse (.int 0)).toInteger = .ok m.generation
  resourceVersion : (valueOr es "resourceVersion" (.text "")).asText = m.resourceVersion

theorem ofDocument_iff {doc : Value} {es : Entries} {m : Metadata}
    (hdoc : doc.orEmpty = .object es) : ofDocument doc = .ok m ↔ Reads es m := by
  rw [ofDocument, hdoc]
  simp only [Value.member, Value.memberOr_object, ok_bind]
  constructor
  · intro h
    obtain ⟨labels, hlabels, h⟩ := bind_eq_ok_iff.mp h
    obtain ⟨annotations, hannotations, h⟩ := bind_eq_ok_iff.mp h
    obtain ⟨docs, hdocs, h⟩ := bind_eq_ok_iff.mp h
    obtain ⟨owners, howners, h⟩ := bind_eq_ok_iff.mp h
    obtain ⟨created, hcreated, h⟩ := bind_eq_ok_iff.mp h
    obtain ⟨generation, hgeneration, h⟩ := bind_eq_ok_iff.mp h
    cases h
    exact ⟨rfl, rfl, rfl, hlabels, hannotations, ⟨docs, hdocs, howners⟩, hcreated, hgeneration,
      rfl⟩
  · rintro ⟨hname, hns, huid, hlabels, hannotations, ⟨docs, hdocs, howners⟩, hcreated,
      hgeneration, hresourceVersion⟩
    rw [hname, hns, huid, hlabels, hannotations, hdocs, hresourceVersion]
    simp only [ok_bind, howners, hcreated, hgeneration]
    rfl

theorem ofDocument_object_iff {es : Entries} {m : Metadata} :
    ofDocument (.object es) = .ok m ↔ Reads es m := ofDocument_iff (Value.orEmpty_object es)

/-- Name, namespace, labels and owners are read back as they were written, whatever was put in the
place of the creation time. -/
theorem Reads.of_stamped {m m' : Metadata} {created : Option String} {v : Value}
    (h : Reads (Entries.put (.text "creationTimestamp") v (m.membersWith created)) m') :
    m'.name = m.name ∧ m'.ns = m.ns ∧ m'.labels = m.labels ∧ m'.owners = m.owners := by
  obtain ⟨hname, hns, -, hlabels, -, ⟨docs, hdocs, howners⟩, -⟩ := h
  have hother : ∀ n d, "creationTimestamp" ≠ n →
      valueOr (Entries.put (.text "creationTimestamp") v (m.membersWith created)) n d =
        valueOr (m.membersWith created) n d := by
    intro n d hn
    rw [valueOr, Entries.get?_put, if_neg hn, valueOr]
  rw [hother _ _ (by decide)] at hname hns hlabels hdocs
  have hname : m.name = m'.name := by simpa [valueOr, membersWith] using hname
  have hns : m.ns = m'.ns := by simpa [valueOr, membersWith] using hns
  have hlabels : m.labels = m'.labels := by simpa [valueOr, membersWith] using hlabels
  have hdocs : m.owners.map (·.document) = docs := by simpa [valueOr, membersWith] using hdocs
  rw [← hdocs, mapM_documents OwnerReference.ofDocument_document] at howners
  exact ⟨hname.symm, hns.symm, hlabels.symm, (Except.ok.inj howners).symm⟩

/-! ## Reading back

What is read back has its values in ordered form, and its creation time in universal time. -/

variable {room : Nat} {m : Metadata}

def hasTextKeys (m : Metadata) : Bool := keysApart m.labels && keysApart m.annotations

/-- Whether a creation time is absent, or a whole second that is read back from the wire. -/
def isStampable (m : Metadata) : Bool := m.created.all Time.Timestamp.isWholeSecond

/-- Whether a creation time is absent, or lies in a year of four digits of universal time. -/
def isDated (m : Metadata) : Bool := m.created.all Time.Timestamp.isDated

structure Fits (room : Nat) (m : Metadata) : Prop where
  labels : (Value.object m.labels).Fits (room + 2)
  annotations : (Value.object m.annotations).Fits (room + 2)
  owners : ∀ r ∈ m.owners, r.Fits room
  generation : Decimal.isExchangeable m.generation = true

theorem fits_of_ofDocument {doc : Value} (h : doc.Fits (room + 3)) (hm : ofDocument doc = .ok m)
    (hkeys : m.hasTextKeys = true) : m.Fits room := by
  obtain ⟨_, hmember, -⟩ := bind_eq_ok_iff.mp hm
  obtain ⟨es, hdoc, -⟩ := Value.exists_object_of_memberOr hmember
  have hes := h.orEmpty
  rw [hdoc] at hes
  have hreads := (ofDocument_iff hdoc).mp hm
  have hvalue : ∀ n, (valueOr es n .null).Fits (room + 2) := fun n => hes.valueOr n .null
  obtain ⟨docs, hdocs, howners⟩ := hreads.owners
  obtain ⟨hlabels, hannotations⟩ := (Bool.and_eq_true _ _).mp hkeys
  constructor
  · exact (hvalue "labels").of_entriesOrNone hreads.labels hlabels
  · exact (hvalue "annotations").of_entriesOrNone hreads.annotations hannotations
  · intro r hr
    obtain ⟨d, hd, hread⟩ := exists_of_mapM_eq_ok howners r hr
    exact OwnerReference.fits_of_ofDocument ((hvalue "ownerReferences").of_itemsOrNone hdocs d hd)
      hread
  · have hzero : (Value.int 0).Fits (room + 2) := Value.Fits.int_iff.mpr (by decide +kernel)
    exact ((hvalue "generation").orElse hzero).of_toInteger hreads.generation

theorem keysApart_membersWith (m : Metadata) (created : Option String) :
    keysApart (m.membersWith created) = true :=
  (((((((((HasNames.fieldIf _ "name" _).append (.fieldIf _ "namespace" _)).append
    (.fieldIf _ "uid" _)).append (.fieldIf _ "labels" _)).append
    (.fieldIf _ "annotations" _)).append (.fieldIf _ "ownerReferences" _)).append
    (.fieldIf _ "creationTimestamp" _)).append (.fieldIf _ "generation" _)).append
    (.fieldIf _ "resourceVersion" _)).keysApart (by decide)

theorem fits_membersWith (h : m.Fits room) (created : Option String) :
    (Value.object (m.membersWith created)).Fits (room + 3) := by
  have howners : (Value.list (m.owners.map (·.document))).Fits (room + 2) := by
    refine Value.Fits.list_iff.mpr fun d hd => ?_
    obtain ⟨r, hr, rfl⟩ := List.mem_map.mp hd
    exact OwnerReference.fits_document (h.owners r hr)
  refine Value.Fits.object_iff.mpr ⟨keysApart_membersWith m created, ?_⟩
  simp only [membersWith, List.forall_mem_append]
  refine ⟨⟨⟨⟨⟨⟨⟨⟨?_, ?_⟩, ?_⟩, ?_⟩, ?_⟩, ?_⟩, ?_⟩, ?_⟩, ?_⟩
  · exact Entries.forall_mem_fieldIf (.text _)
  · exact Entries.forall_mem_fieldIf (.text _)
  · exact Entries.forall_mem_fieldIf (.text _)
  · exact Entries.forall_mem_fieldIf h.labels
  · exact Entries.forall_mem_fieldIf h.annotations
  · exact Entries.forall_mem_fieldIf howners
  · exact Entries.forall_mem_fieldIf (.text _)
  · exact Entries.forall_mem_fieldIf (Value.Fits.int_iff.mpr h.generation)
  · exact Entries.forall_mem_fieldIf (.text _)

/-- Metadata as it is read back: its values in ordered form, with a given creation time. -/
def reread (m : Metadata) (created : Option Time.Timestamp) : Metadata :=
  { m with
    labels := Entries.ordered m.labels
    annotations := Entries.ordered m.annotations
    owners := m.owners.map OwnerReference.ordered
    created := created }

theorem Fits.reread (h : m.Fits room) (back : Option Time.Timestamp) :
    (m.reread back).Fits room := by
  constructor
  · rw [Metadata.reread, ← Value.ordered_object_eq]
    exact h.labels.ordered
  · rw [Metadata.reread, ← Value.ordered_object_eq]
    exact h.annotations.ordered
  · intro r hr
    obtain ⟨r, hmem, rfl⟩ := List.mem_map.mp hr
    exact (h.owners r hmem).ordered
  · exact h.generation

theorem reread_reread (h : m.Fits room) (back back' : Option Time.Timestamp) :
    (m.reread back).reread back' = m.reread back' := by
  have hentries : ∀ {es : Entries}, (Value.object es).isPlain = true →
      Entries.ordered (Entries.ordered es) = Entries.ordered es := by
    intro es hes
    have hordered := Value.ordered_ordered hes
    rwa [Value.ordered_object_eq, Value.ordered_object_eq, Value.object.injEq] at hordered
  have howners : (m.owners.map OwnerReference.ordered).map OwnerReference.ordered =
      m.owners.map OwnerReference.ordered := by
    rw [List.map_map]
    exact List.map_congr_left fun r hr => OwnerReference.ordered_ordered (h.owners r hr)
  simp only [Metadata.reread, hentries h.labels.plain, hentries h.annotations.plain, howners]

theorem toTimestamp?_text {s : String} {t : Time.Timestamp}
    (h : Time.Iso.timestamp? s = some t) : (Value.text s).toTimestamp? = .ok (some t) := by
  have hne : s ≠ "" := by
    rintro rfl
    exact nomatch (rfl : Time.Iso.timestamp? "" = none).symm.trans h
  rw [Value.toTimestamp?, Value.isBlank]
  simp only [beq_iff_eq, hne, if_false, h]

theorem exists_stamp (h : m.isStampable = true) :
    ∃ created back, createdText m.created = .ok created ∧
      ((created.map Value.text).getD .null).toTimestamp? = .ok back ∧
      sameInstant back m.created = true := by
  rw [isStampable] at h
  cases hcreated : m.created with
  | none => exact ⟨none, none, rfl, rfl, rfl⟩
  | some t =>
    rw [hcreated] at h
    obtain ⟨s, t', hs, ht', hinstant⟩ := Time.Timestamp.exists_reread h
    exact ⟨some s, some t', by rw [createdText, hs], toTimestamp?_text ht',
      beq_iff_eq.mpr hinstant⟩

theorem exists_restamp (h : m.isDated = true) :
    ∃ created back, createdText m.created = .ok created ∧
      ((created.map Value.text).getD .null).toTimestamp? = .ok back ∧
      createdText back = .ok created := by
  rw [isDated] at h
  cases hcreated : m.created with
  | none => exact ⟨none, none, rfl, rfl, rfl⟩
  | some t =>
    rw [hcreated] at h
    obtain ⟨s, t', hs, ht', hs'⟩ := Time.Timestamp.exists_rewritten h
    exact ⟨some s, some t', by rw [createdText, hs], toTimestamp?_text ht',
      by rw [createdText, hs']⟩

/-- **Metadata is read back as it was written**, apart from the zone of its creation time. -/
theorem reads_membersWith {created : Option String} {back : Option Time.Timestamp}
    (hback : ((created.map Value.text).getD .null).toTimestamp? = .ok back) :
    Reads (m.membersWith created) { m with created := back } := by
  constructor
  · simp [valueOr, membersWith]
  · simp [valueOr, membersWith]
  · simp [valueOr, membersWith]
  · simp [valueOr, membersWith]
  · simp [valueOr, membersWith]
  · exact ⟨m.owners.map (·.document), by simp [valueOr, membersWith],
      mapM_documents OwnerReference.ofDocument_document m.owners⟩
  · rw [← hback]
    cases created <;> simp [valueOr, membersWith]
  · by_cases hzero : m.generation = 0
    · simp [valueOr, membersWith, hzero, Value.orElse, Value.isBlank, Value.toInteger]
    · simp [valueOr, membersWith, hzero, Value.toInteger_int_orElse]
  · simp [valueOr, membersWith]

/-- **Metadata is read back.** -/
theorem reads_ordered {created : Option String} {back : Option Time.Timestamp}
    (hback : ((created.map Value.text).getD .null).toTimestamp? = .ok back) :
    Reads (Entries.ordered (m.membersWith created)) (m.reread back) := by
  have hkeys := keysApart_membersWith m created
  constructor
  · rw [Entries.valueOr_text_ordered hkeys]
    simp [valueOr, membersWith, reread]
  · rw [Entries.valueOr_text_ordered hkeys]
    simp [valueOr, membersWith, reread]
  · rw [Entries.valueOr_text_ordered hkeys]
    simp [valueOr, membersWith, reread]
  · rw [Entries.valueOr_null_ordered hkeys]
    simp [valueOr, membersWith, reread]
  · rw [Entries.valueOr_null_ordered hkeys]
    simp [valueOr, membersWith, reread]
  · rw [Entries.valueOr_null_ordered hkeys]
    exact ⟨m.owners.map fun r => r.document.ordered, by simp [valueOr, membersWith],
      mapM_values fun r _ => r.ofDocument_ordered⟩
  · rw [Entries.valueOr_null_ordered hkeys, reread, ← hback]
    cases created <;> simp [valueOr, membersWith]
  · rw [Entries.valueOr_null_ordered hkeys, reread]
    by_cases hzero : m.generation = 0
    · simp [valueOr, membersWith, hzero, Value.orElse, Value.isBlank, Value.toInteger]
    · simp [valueOr, membersWith, hzero, Value.toInteger_int_orElse]
  · rw [Entries.valueOr_text_ordered hkeys]
    simp [valueOr, membersWith, reread]

theorem alike_reread (h : m.Fits room) {back : Option Time.Timestamp}
    (hback : sameInstant back m.created = true) : (m.reread back).alike m = true := by
  have hentries : ∀ {es : Entries}, (Value.object es).isPlain = true →
      Value.alike true (.object (Entries.ordered es)) (.object es) = true := by
    intro es hes
    rw [← Value.ordered_object_eq]
    exact Value.alike_of_sameJson true (Value.isPlain_ordered hes) (Value.sameJson_ordered hes)
  have howners : ∀ owners : List OwnerReference, (∀ r ∈ owners, r.Fits room) →
      (((owners.map OwnerReference.ordered).zip owners).all fun p => p.1.alike p.2) = true := by
    intro owners
    induction owners with
    | nil => exact fun _ => rfl
    | cons r rest ih =>
      intro hfits
      rw [List.map_cons, List.zip_cons_cons, List.all_cons, Bool.and_eq_true]
      exact ⟨OwnerReference.alike_ordered (hfits r List.mem_cons_self),
        ih fun q hq => hfits q (List.mem_cons_of_mem _ hq)⟩
  simp [alike, reread, hentries h.labels.plain, hentries h.annotations.plain,
    howners _ h.owners, hback]

end Metadata

end RolloutLedger
