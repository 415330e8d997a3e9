import RolloutLedger.Proofs.Document.Closure
/-! # Documents in normal form

What was written for a group keeps the open places of what was read, and is written again as it is.
-/

namespace RolloutLedger

open Entries (field fieldIf valueOr HasNames)

/-! ## Places in a document

A place is reached by names of members and by numbers of items.  In the pods and the containers of a
group some members have a field of their own; every other member stands at an open place.  What is
written for a group holds at an open place what the document held there from which the group was
read, and nothing where that document held nothing: no such member is lost, changed, moved or added.
-/

/-! ### Looking up -/

namespace Value

inductive Hop
  | member (name : String)
  | item (index : Nat)

def at? : Value → List Hop → Option Value
  | v, [] => some v
  | .object es, .member n :: rest => (Entries.get? (.text n) es).bind fun v => v.at? rest
  | .list items, .item i :: rest => items[i]?.bind fun v => v.at? rest
  | _, _ :: _ => none

@[simp] theorem at?_nil (v : Value) : v.at? [] = some v := by
  rw [at?]

@[simp] theorem at?_object (es : Entries) (n : String) (rest : List Hop) :
    (object es).at? (.member n :: rest) =
      (Entries.get? (.text n) es).bind fun v => v.at? rest := by
  rw [at?]

@[simp] theorem at?_list (items : List Value) (i : Nat) (rest : List Hop) :
    (list items).at? (.item i :: rest) = items[i]?.bind fun v => v.at? rest := by
  rw [at?]

@[simp] theorem at?_null (hop : Hop) (rest : List Hop) : null.at? (hop :: rest) = none := by
  cases hop with
  | member n => rfl
  | item i => rfl

/-- Beyond a member nothing is told apart from null if the member is absent. -/
theorem at?_valueOr (es : Entries) (n : String) (hop : Hop) (rest : List Hop) :
    (valueOr es n null).at? (hop :: rest) = (object es).at? (.member n :: hop :: rest) := by
  rw [at?_object, valueOr]
  cases Entries.get? (.text n) es with
  | none => exact at?_null hop rest
  | some v => rfl

theorem at?_orEmpty (v : Value) (n : String) (rest : List Hop) :
    v.orEmpty.at? (.member n :: rest) = v.at? (.member n :: rest) := by
  by_cases hblank : v.isBlank = true
  · rw [orEmpty, orElse, if_pos hblank]
    cases v with
    | object es => rw [List.isEmpty_iff.mp hblank]
    | _ => rfl
  · rw [orEmpty, orElse, if_neg hblank]

/-- The items of a plain value stand in it at their numbers, as far as their members are looked at:
beside lists only texts and keys can be taken for items, and these have no members. -/
theorem at?_itemsOrNone {v : Value} {docs : List Value} (hv : v.isPlain = true)
    (hdocs : v.itemsOrNone = .ok docs) (i : Nat) (n : String) (rest : List Hop) :
    v.at? (.item i :: .member n :: rest) =
      docs[i]?.bind fun d => d.at? (.member n :: rest) := by
  by_cases hlist : ∃ items, v = list items
  · obtain ⟨items, rfl⟩ := hlist
    rw [itemsOrNone_list] at hdocs
    cases hdocs
    exact at?_list _ i _
  · have hnone : v.at? (.item i :: .member n :: rest) = none := by
      cases v with
      | list items => exact absurd ⟨items, rfl⟩ hlist
      | _ => rfl
    rw [hnone, eq_comm, Option.bind_eq_none_iff]
    intro d hd
    rcases eq_text_or_mem_of_toItems (isPlain_orElse hv rfl) hdocs d (List.mem_of_getElem? hd) with
      ⟨s, rfl⟩ | ⟨items, hitems, hmem⟩
    · rfl
    · rw [orElse] at hitems
      split at hitems
      · cases hitems
        exact absurd hmem List.not_mem_nil
      · exact absurd ⟨items, hitems⟩ hlist

/-- What is written for the items that were read holds at a place what these held there. -/
theorem at?_documents {α : Type} {read : Value → Except Error α} {document : α → Value}
    {v : Value} {docs : List Value} {xs : List α} {n : String} {rest : List Hop}
    (hv : v.isPlain = true) (hdocs : v.itemsOrNone = .ok docs) (hxs : docs.mapM read = .ok xs)
    (h : ∀ d ∈ docs, ∀ x, read d = .ok x →
      (document x).at? (.member n :: rest) = d.at? (.member n :: rest)) (i : Nat) :
    (list (xs.map document)).at? (.item i :: .member n :: rest) =
      v.at? (.item i :: .member n :: rest) := by
  rw [at?_itemsOrNone hv hdocs, at?_list, List.getElem?_map]
  rcases getElem?_of_mapM_eq_ok hxs i with ⟨hnone, hnone'⟩ | ⟨d, x, hd, hx, hread⟩
  · rw [hnone, hnone']
    rfl
  · rw [hd, hx]
    exact h d (List.mem_of_getElem? hd) x hread

theorem at?_documents_of_leftOut {α : Type} (document : α → Value) (xs : List α) (i : Nat)
    (rest : List Hop) :
    ((if xs = [] then none else some (list (xs.map document))).getD null).at? (.item i :: rest) =
      (list (xs.map document)).at? (.item i :: rest) := by
  cases xs with
  | nil => rw [if_pos rfl, Option.getD_none, at?_null, at?_list]; rfl
  | cons x xs => rfl

end Value

/-! ### Members without a field -/

theorem Entries.get?_without {names : List String} {n : String} (hn : n ∉ names) (es : Entries) :
    Entries.get? (.text n) (es.without names) = Entries.get? (.text n) es := by
  induction es with
  | nil => rfl
  | cons p es ih =>
    rw [Entries.get?_cons]
    by_cases hp : p.1 = .text n
    · have hkept : (!(names.any fun m => (Key.text m).same p.1)) = true := by
        rw [Bool.not_eq_true', ← Bool.not_eq_true, List.any_eq_true]
        rintro ⟨m, hm, hsame⟩
        have hkey := (Key.same_text_iff.mp hsame).symm.trans hp
        exact hn (Key.text.inj hkey ▸ hm)
      rw [Entries.without, List.filter_cons, if_pos hkept, Entries.get?_cons, if_pos hp, if_pos hp]
    · rw [if_neg hp, ← ih, Entries.without, List.filter_cons]
      split
      · rw [Entries.get?_cons, if_neg hp]
        rfl
      · rfl

theorem Entries.get?_extra {names : List String} {es extra known : Entries} {n : String}
    (hextra : es.without names = extra) (hknown : HasNames names known) (hn : n ∉ names) :
    Entries.get? (.text n) (extra ++ known) = Entries.get? (.text n) es := by
  have hnone : Entries.get? (.text n) known = none := by
    refine Entries.get?_eq_none fun p hp hkey => ?_
    obtain ⟨m, hm, hpm⟩ := hknown.exists_name p hp
    exact hn (Key.text.inj (hkey.symm.trans hpm) ▸ hm)
  rw [Entries.get?_append, hnone, Option.or_none, ← hextra, Entries.get?_without hn]

theorem Container.at?_document {doc : Value} {c : Container} (hc : ofDocument doc = .ok c)
    {n : String} (hn : n ∉ memberNames) :
    c.document.at? [.member n] = doc.at? [.member n] := by
  obtain ⟨es, rfl, hreads⟩ := exists_reads_of_ofDocument hc
  rw [document_eq, Value.at?_object, Value.at?_object,
    Entries.get?_extra hreads.extra c.hasNames_known hn]

/-! ### Open places -/

/-- The open places of a pod: its members without a field, and those of its containers. -/
inductive PodSpec.IsOpen : List Value.Hop → Prop
  | member {n : String} (h : n ∉ PodSpec.memberNames) : IsOpen [.member n]
  | container {kind : String} (hkind : kind = "containers" ∨ kind = "initContainers") (i : Nat)
    {n : String} (h : n ∉ Container.memberNames) : IsOpen [.member kind, .item i, .member n]

/-- What a pod holds at an open place is written as it was read. -/
theorem PodSpec.at?_document {doc : Value} {s : PodSpec} (hdoc : doc.isPlain = true)
    (hs : ofDocument doc = .ok s) {place : List Value.Hop} (hplace : IsOpen place) :
    s.document.at? place = doc.at? place := by
  obtain ⟨es, hes, hreads⟩ := exists_reads_of_ofDocument hs
  have hplain : doc.orEmpty.isPlain = true := Value.isPlain_orElse hdoc rfl
  rw [hes] at hplain
  cases hplace with
  | member hn =>
    rw [← Value.at?_orEmpty doc, hes, document_eq, Value.at?_object, Value.at?_object,
      Entries.get?_extra hreads.extra s.hasNames_known hn]
  | @container kind hkind i n hn =>
    have hvalue : (valueOr es kind .null).isPlain = true := Value.isPlain_valueOr hplain kind rfl
    have hknown : ∀ n ∈ memberNames,
        valueOr (s.extra ++ s.known) n .null = valueOr s.known n .null :=
      fun n hn => Entries.valueOr_append_of_extra (Entries.apart_of_without hreads.extra) hn .null
    rw [← Value.at?_orEmpty doc, hes, document_eq, ← Value.at?_valueOr, ← Value.at?_valueOr]
    rcases hkind with rfl | rfl
    · obtain ⟨docs, hdocs, hcontainers⟩ := hreads.containers
      rw [hknown _ (by decide), ← Value.at?_documents hvalue hdocs hcontainers
        (fun d _ c hc => Container.at?_document hc hn) i]
      simp [valueOr, known]
    · obtain ⟨docs, hdocs, hcontainers⟩ := hreads.initContainers
      rw [hknown _ (by decide), ← Value.at?_documents hvalue hdocs hcontainers
        (fun d _ c hc => Container.at?_document hc hn) i, ← Value.at?_documents_of_leftOut]
      simp [valueOr, known]

theorem PodTemplate.at?_document {doc : Value} {t : PodTemplate} (hdoc : doc.isPlain = true)
    (ht : ofDocument doc = .ok t) {place : List Value.Hop} (hplace : PodSpec.IsOpen place) :
    t.document.at? (.member "spec" :: place) = doc.at? (.member "spec" :: place) := by
  obtain ⟨es, ms, hes, -, -, -, hspec⟩ := exists_of_ofDocument ht
  have hplain : doc.orEmpty.isPlain = true := Value.isPlain_orElse hdoc rfl
  rw [hes] at hplain
  have hread := PodSpec.at?_document (Value.isPlain_valueOr hplain "spec" rfl) hspec hplace
  obtain ⟨hop, rest, rfl⟩ : ∃ hop rest, place = hop :: rest := by
    cases hplace <;> exact ⟨_, _, rfl⟩
  rw [← Value.at?_orEmpty doc, hes, ← Value.at?_valueOr, ← hread, document_eq]
  simp [members]

theorem Role.at?_document {doc : Value} {r : Role} (hdoc : doc.isPlain = true)
    (hr : ofDocument doc = .ok r) {place : List Value.Hop} (hplace : PodSpec.IsOpen place) :
    r.document.at? (.member "template" :: .member "spec" :: place) =
      doc.at? (.member "template" :: .member "spec" :: place) := by
  obtain ⟨es, rfl, hreads⟩ := exists_reads_of_ofDocument hr
  rw [← Value.at?_valueOr, ← PodTemplate.at?_document (Value.isPlain_valueOr hdoc "template" rfl)
    hreads.template hplace, document_eq]
  simp [members]

/-- The open places of a group: those of the pods of its roles. -/
inductive Group.IsOpen : List Value.Hop → Prop
  | role (i : Nat) {place : List Value.Hop} (h : PodSpec.IsOpen place) :
    IsOpen (.member "spec" :: .member "roles" :: .item i :: .member "template" ::
      .member "spec" :: place)

theorem GroupSpec.at?_document {doc : Value} {s : GroupSpec} (hdoc : doc.isPlain = true)
    (hs : ofDocument doc = .ok s) (i : Nat) {place : List Value.Hop}
    (hplace : PodSpec.IsOpen place) :
    s.document.at? (.member "roles" :: .item i :: .member "template" :: .member "spec" :: place) =
      doc.at? (.member "roles" :: .item i :: .member "template" :: .member "spec" :: place) := by
  obtain ⟨es, hes, hreads⟩ := exists_reads_of_ofDocument hs
  have hplain : doc.orEmpty.isPlain = true := Value.isPlain_orElse hdoc rfl
  rw [hes] at hplain
  have hvalue : (valueOr es "roles" .null).isPlain = true :=
    Value.isPlain_valueOr hplain "roles" rfl
  obtain ⟨docs, hdocs, hroles⟩ := hreads.roles
  rw [← Value.at?_orEmpty doc, hes, ← Value.at?_valueOr, ← Value.at?_documents hvalue hdocs hroles
    (fun d hd r hr => Role.at?_document (Value.isPlain_of_itemsOrNone hvalue hdocs d hd) hr hplace)
    i, document_eq]
  simp [members, roleDocuments]

/-- **What a group holds at its open places is written as it was read.** -/
theorem Group.at?_documentWith {doc : Value} {g : Group} (hdoc : doc.isPlain = true)
    (hg : ofDocument doc = .ok g) (metadata : Value) {place : List Value.Hop}
    (hplace : IsOpen place) : (g.documentWith metadata).at? place = doc.at? place := by
  obtain ⟨es, rfl, -, hspec⟩ := exists_object_of_ofDocument hg
  cases hplace with
  | role i hplace =>
    rw [← Value.at?_valueOr, ← GroupSpec.at?_document (Value.isPlain_valueOr hdoc "spec" rfl)
      hspec i hplace, documentWith_eq]
    simp [membersWith]

/-! ## What was written is in normal form

Reading coerces members and fills in defaults, and writing leaves out what is empty.  Still a
document that was written is read and written again as it is.  The only values that are read
otherwise than they were written from are unset values of probes and the zone of the creation time:
the defaults that are read for the former are left out again, and the wire form of the latter is in
universal time already.
-/

open Entries (field fieldIf optionalField valueOr)

/-! ### Writing what was read from what was written -/

/-- An unset value is left out, and so is the default that is read for it. -/
theorem Probe.fieldIf_reread {default : Value} (hdefault : isUnset default = true) (n : String)
    (v : Value) :
    fieldIf (!isUnset (Recasting.unchanged.reread default v)) n
      (Recasting.unchanged.reread default v) = fieldIf (!isUnset v) n v := by
  rw [Recasting.reread]
  by_cases hunset : isUnset v = true
  · rw [if_pos hunset, hdefault, hunset]
    rfl
  · rw [if_neg hunset]
    rfl

theorem Probe.document_recast (p : Probe) : (p.recast .unchanged).document = p.document := by
  have hnull : isUnset .null = true := rfl
  have hzero : isUnset (.int 0) = true := rfl
  rw [document_eq, document_eq]
  simp only [members, values, recast, List.flatMap_cons, List.flatMap_nil, fieldIf_reread hnull,
    fieldIf_reread hzero]

theorem EnvVar.recast_unchanged (v : EnvVar) : v.recast .unchanged = v := rfl

theorem Container.document_recast (c : Container) :
    (c.recast .unchanged).document = c.document := by
  have hitems : ∀ items : List Value, items.map Recasting.unchanged.value = items :=
    fun items => List.map_id' items
  have henv : (c.env.map (EnvVar.recast .unchanged)) = c.env := List.map_id' c.env
  have hprobe : ∀ p : Option Probe,
      (p.map (Probe.recast .unchanged)).map Probe.document = p.map Probe.document := by
    intro p
    rw [Option.map_map]
    exact congrArg (Option.map · p) (funext Probe.document_recast)
  rw [document_eq, document_eq]
  simp only [known, recast, hitems, henv, hprobe]
  rfl

/-- The documents of what was read are those that were written. -/
theorem Value.map_documents_recast {α : Type} {document : α → Value} {recast : α → α}
    (h : ∀ x, document (recast x) = document x) (xs : List α) :
    (xs.map recast).map document = xs.map document := by
  rw [List.map_map]
  exact List.map_congr_left fun x _ => h x

theorem PodSpec.document_recast (s : PodSpec) : (s.recast .unchanged).document = s.document := by
  have hvolumes : s.volumes.map Recasting.unchanged.value = s.volumes := List.map_id' s.volumes
  rw [document_eq, document_eq]
  simp only [known, recast, Value.map_documents_recast Container.document_recast, hvolumes,
    List.isEmpty_map]
  rfl

theorem PodTemplate.document_recast (t : PodTemplate) :
    (t.recast .unchanged).document = t.document := by
  rw [document_eq, document_eq, members, members, recast, PodSpec.document_recast]
  rfl

theorem Role.document_recast (r : Role) : (r.recast .unchanged).document = r.document := by
  have hdependencies : r.dependencies.map Recasting.unchanged.value = r.dependencies :=
    List.map_id' r.dependencies
  rw [document_eq, document_eq, members, members, recast, PodTemplate.document_recast,
    hdependencies]
  rfl

theorem GangPolicy.recast_unchanged (p : GangPolicy) : p.recast .unchanged = p := by
  obtain ⟨kube, volcano⟩ := p
  rw [recast, GangPolicy.mk.injEq]
  exact ⟨Option.map_id', rfl⟩

theorem GroupSpec.document_recast (s : GroupSpec) :
    (s.recast .unchanged).document = s.document := by
  have hpolicy : s.policy.map (GangPolicy.recast .unchanged) = s.policy := by
    rw [funext GangPolicy.recast_unchanged]
    exact Option.map_id'
  rw [document_eq, document_eq, members, members, roleDocuments, roleDocuments, recast,
    Value.map_documents_recast Role.document_recast, hpolicy]

/-! ### Groups -/

namespace Group

variable {doc : Value} {g : Group}

/-- What was written for a group is read, and written again as it is. -/
theorem exists_rewritten (hkeyed : g.spec.Keyed) (hdated : g.metadata.isDated = true) :
    ∃ metadata g', g.document = .ok (g.documentWith metadata) ∧
      ofDocument (g.documentWith metadata) = .ok g' ∧
      g'.document = .ok (g.documentWith metadata) := by
  obtain ⟨created, back, hcreated, hback, hrewritten⟩ := Metadata.exists_restamp hdated
  have hmetadata : Metadata.ofDocument (.object (g.metadata.membersWith created)) =
      .ok { g.metadata with created := back } :=
    Metadata.ofDocument_object_iff.mpr (Metadata.reads_membersWith hback)
  have hspec : GroupSpec.ofDocument g.spec.document = .ok (g.spec.recast .unchanged) := by
    rw [GroupSpec.document_eq]
    exact (GroupSpec.ofDocument_iff (Value.orEmpty_object _)).mpr
      (GroupSpec.reads_recast .unchanged hkeyed)
  refine ⟨.object (g.metadata.membersWith created),
    ⟨{ g.metadata with created := back }, g.spec.recast .unchanged⟩, ?_, ?_, ?_⟩
  · rw [document, Metadata.document, hcreated]
    rfl
  · rw [documentWith_eq, ofDocument_object_iff]
    exact ⟨hmetadata, hspec⟩
  · rw [document, Metadata.document, hrewritten]
    show Except.ok (documentWith ⟨_, g.spec.recast .unchanged⟩ _) = _
    rw [documentWith, documentWith, GroupSpec.document_recast]
    rfl

/-- **What was written is in normal form, and nothing opaque is lost.**  A group that was read from
a document without doubles, with a creation time in a year of four digits of universal time or none,
is written; what is written is read, and written again as it is.  At every open place, for every
member of a pod or a container that has no field of its own, it holds what the document held. -/
theorem document_normal (hdoc : doc.isPlain = true) (hg : ofDocument doc = .ok g)
    (hdated : g.metadata.isDated = true) :
    ∃ e g', g.document = .ok e ∧ ofDocument e = .ok g' ∧ g'.document = .ok e ∧
      ∀ place, IsOpen place → e.at? place = doc.at? place := by
  have hkeyed : g.spec.Keyed := keyed_of_ofDocument trivial
    ((Value.Within.of_isPlain hdoc).mono (Nat.le_add_right _ 8)) hg
  obtain ⟨metadata, g', hwritten, hread, hrewritten⟩ := exists_rewritten hkeyed hdated
  exact ⟨_, g', hwritten, hread, hrewritten, fun place => at?_documentWith hdoc hg metadata⟩

/-- A role whose pod and whose first container have members that nothing is known of, with blank and
coerced members beside them. -/
def opaqueDocument : Value :=
  .object [
    field "metadata" (.object [field "name" (.int 7),
      field "creationTimestamp" (.text "2024-02-29T12:30:00+01:00")]),
    field "spec" (.object [field "roles" (.list [.object [
      field "name" (.text "leader"), field "replicas" (.text "2"),
      field "template" (.object [field "spec" (.object [
        field "nodeName" (.text "n1"),
        field "initContainers" (.list [.object [
          field "image" .null, field "name" (.text "main"),
          field "stdin" (.bool false),
          field "livenessProbe" (.object [field "periodSeconds" (.bool false)])]])])])]])])]

theorem document_normal_opaque :
    ∃ g e g', ofDocument opaqueDocument = .ok g ∧ g.document = .ok e ∧ ofDocument e = .ok g' ∧
      g'.document = .ok e ∧
      e.at? [.member "spec", .member "roles", .item 0, .member "template", .member "spec",
        .member "nodeName"] = some (.text "n1") ∧
      e.at? [.member "spec", .member "roles", .item 0, .member "template", .member "spec",
        .member "initContainers", .item 0, .member "stdin"] = some (.bool false) := by
  have hread : ∃ g, ofDocument opaqueDocument = .ok g ∧ g.metadata.isDated = true :=
    ⟨_, rfl, rfl⟩
  obtain ⟨g, hg, hdated⟩ := hread
  obtain ⟨e, g', he, hg', he', hopen⟩ := document_normal (by decide +kernel) hg hdated
  refine ⟨g, e, g', hg, he, hg', he', ?_, ?_⟩
  · rw [hopen _ (.role 0 (.member (by decide)))]
    rfl
  · rw [hopen _ (.role 0 (.container (Or.inr rfl) 0 (by decide)))]
    rfl

end Group

end RolloutLedger
