import RolloutLedger.Proofs.Revision.LastRestore
/-! # Revisions survive as documents

The cluster keeps a revision as a document: its data is decoded for that and encoded again when the
document is read, and its metadata leaves out whatever is empty.  Still every revision that was
built or read comes back as it was, its data byte for byte.  If it did not, the content of a group
would look changed whenever its history is listed.

For the data this needs a stored form that is canonical: encoding what was decoded from it gives the
same bytes.
-/

namespace RolloutLedger

open Entries (field valueOr)
open Value (Within)

/-! ## Data -/

/-- Data that is not there, or that encoding gives back when it was decoded.  Data that decodes to
null would be taken for data that is not there. -/
inductive RevisionData.IsCanonical : RevisionData → Prop
  | absent : IsCanonical .none
  | stored {raw : Bytes} {v : Value} (decoded : Json.decode raw = .ok v)
    (encoded : Json.encode v = .ok raw) (present : v ≠ .null) : IsCanonical ⟨some raw, .null⟩

namespace Revision

variable {r : Revision} {o : HashOptions} {g : Group} {n : Int} {room : Nat} {doc : Value}

theorem isCanonical_of_build (hdoc : doc.Within .json room) (hg : Group.ofDocument doc = .ok g)
    (hkeys : g.spec.hasTextKeys = true) (hr : build o g n = .ok r) : r.data.IsCanonical := by
  have hsnapshot := Patch.within_snapshot (hdoc.mono (Nat.le_add_right room 10)) hg fun _ => hkeys
  obtain ⟨raw, hraw, hdata, hdecoded⟩ := decode_of_build hsnapshot hr
  rw [hsnapshot.reread_eq_ordered trivial] at hdecoded
  rw [hdata]
  refine .stored hdecoded ?_ ?_
  · rw [Json.encode_ordered_eq (hsnapshot.isJson trivial)]
    exact hraw
  · rw [Patch.ordered_snapshot]
    exact Value.noConfusion

theorem isCanonical_of_ofDocument (hdoc : doc.Within .json (Json.maxDepth + 1))
    (hr : ofDocument doc = .ok r) : r.data.IsCanonical := by
  obtain ⟨payload, hpayload, hr⟩ := bind_eq_ok_iff.mp hr
  obtain ⟨_, -, hr⟩ := bind_eq_ok_iff.mp hr
  obtain ⟨_, -, hr⟩ := bind_eq_ok_iff.mp hr
  obtain ⟨_, -, hr⟩ := bind_eq_ok_iff.mp hr
  obtain ⟨_, -, hr⟩ := bind_eq_ok_iff.mp hr
  obtain ⟨raw, hraw, rfl⟩ := map_eq_ok_iff.mp hr
  obtain ⟨es, rfl, rfl⟩ := Value.exists_object_of_memberOr hpayload
  have hwithin := hdoc.valueOr "data" .null
  generalize valueOr es "data" .null = v at hwithin hraw
  by_cases hnull : v = .null
  · rw [hnull] at hraw
    cases hraw
    exact .absent
  · rw [Value.optional.eq_2 _ _ hnull] at hraw
    obtain ⟨raw, hencoded, rfl⟩ := map_eq_ok_iff.mp hraw
    have hdecoded := Json.decode_of_encode hwithin hencoded
    rw [hwithin.reread_eq_ordered trivial] at hdecoded
    refine .stored hdecoded ?_ (mt Value.ordered_eq_null_iff.mp hnull)
    rw [Json.encode_ordered_eq (hwithin.isJson trivial)]
    exact hencoded

/-! ## Whole revisions -/

def headMembers (metadata : Value) (number : Int) : Entries :=
  [field "apiVersion" (.text "apps/v1"), field "kind" (.text revisionKind),
    field "metadata" metadata, field "revision" (.int number)]

/-- The document of a revision with canonical data: its data is left out, or is there as it was
decoded, and encoding gives it back. -/
theorem exists_document {metadata : Value} (hdata : r.data.IsCanonical)
    (hmetadata : r.metadata.document = .ok metadata) :
    ∃ members, r.document = .ok (.object (headMembers metadata r.number ++ members)) ∧
      (valueOr (headMembers metadata r.number ++ members) "data" .null).optional Json.encode =
        .ok r.data.raw ∧ r.data.object = .null := by
  obtain ⟨m, i, data⟩ := r
  cases hdata with
  | absent =>
    refine ⟨[], ?_, ?_, rfl⟩
    · rw [document, hmetadata]
      rfl
    · simp [valueOr, headMembers, Value.optional]
  | @stored raw v decoded encoded present =>
    have hnonempty : ¬ RevisionData.bytes ⟨some raw, .null⟩ = [] := ne_nil_of_decode decoded
    refine ⟨[field "data" v], ?_, ?_, rfl⟩
    · rw [document, hmetadata, ok_bind]
      simp only [List.isEmpty_iff, hnonempty, if_false]
      show (Json.decode raw).bind _ = _
      rw [decoded]
      rfl
    · have hvalue : valueOr (headMembers metadata i ++ [field "data" v]) "data" .null = v := by
        simp [valueOr, headMembers]
      rw [hvalue, Value.optional.eq_2 _ _ present, encoded]
      rfl

theorem ofDocument_headMembers_append {metadata : Value} {m : Metadata} {i : Int}
    {members : Entries} {raw : Option Bytes} (hm : Metadata.ofDocument metadata = .ok m)
    (hraw : (valueOr (headMembers metadata i ++ members) "data" .null).optional Json.encode =
      .ok raw) :
    ofDocument (.object (headMembers metadata i ++ members)) = .ok ⟨m, i, ⟨raw, .null⟩⟩ := by
  have hmetadata : valueOr (headMembers metadata i ++ members) "metadata" .null = metadata := by
    simp [valueOr, headMembers]
  have hnumber : valueOr (headMembers metadata i ++ members) "revision" .null = .int i := by
    simp [valueOr, headMembers]
  rw [ofDocument]
  simp only [Value.member, Value.memberOr_object, ok_bind, hmetadata, hm, hnumber,
    Value.toInteger_int_orElse, hraw]
  rfl

/-- **A revision with canonical data is read back as it was**, with its creation time in universal
time. -/
theorem exists_reread_of_isCanonical (hdata : r.data.IsCanonical)
    (hstampable : r.metadata.isStampable = true) :
    ∃ doc back, r.document = .ok doc ∧
      ofDocument doc = .ok { r with metadata := { r.metadata with created := back } } ∧
      Metadata.sameInstant back r.metadata.created = true := by
  obtain ⟨created, back, hcreated, hback, hinstant⟩ := Metadata.exists_stamp hstampable
  have hmetadata : r.metadata.document = .ok (.object (r.metadata.membersWith created)) := by
    rw [Metadata.document, hcreated]
    rfl
  have hread : Metadata.ofDocument (.object (r.metadata.membersWith created)) =
      .ok { r.metadata with created := back } :=
    Metadata.ofDocument_object_iff.mpr (Metadata.reads_membersWith hback)
  obtain ⟨members, hdocument, hraw, hobject⟩ := exists_document hdata hmetadata
  refine ⟨_, back, hdocument, ?_, hinstant⟩
  rw [ofDocument_headMembers_append hread hraw, ← hobject]

/-- How revisions come about: they are built, for a group that was read from a document of JSON such
that the keys of labels, annotations and resources are texts; or they are read, from a document of
JSON whose data is nested no deeper than what can be read, with a creation time that is absent or a
whole second in a year of four digits of universal time. -/
inductive Arises : Revision → Prop
  | built {room : Nat} {doc : Value} {g : Group} {o : HashOptions} {n : Int} {r : Revision}
    (document : doc.Within .json room) (group : Group.ofDocument doc = .ok g)
    (keys : g.spec.hasTextKeys = true) (building : build o g n = .ok r) : Arises r
  | read {doc : Value} {r : Revision} (document : doc.Within .json (Json.maxDepth + 1))
    (reading : ofDocument doc = .ok r) (stampable : r.metadata.isStampable = true) : Arises r

theorem Arises.isCanonical (h : r.Arises) : r.data.IsCanonical := by
  cases h with
  | built document group keys building => exact isCanonical_of_build document group keys building
  | read document reading stampable => exact isCanonical_of_ofDocument document reading

theorem Arises.isStampable (h : r.Arises) : r.metadata.isStampable = true := by
  cases h with
  | built document group keys building =>
    -- what is built has no creation time yet
    obtain ⟨raw, roleHashes, -, -, rfl⟩ := exists_assemble_of_build building
    rfl
  | read document reading stampable => exact stampable

/-- **Revisions survive as documents.**  However a revision comes about, it has a document, and the
document is read as the revision: with the same name, labels, owners and all other metadata, the
same number, and the same data byte for byte.  Its creation time is the same instant, in universal
time. -/
theorem reread_of_arises (h : r.Arises) :
    ∃ doc back, r.document = .ok doc ∧
      ofDocument doc = .ok { r with metadata := { r.metadata with created := back } } ∧
      Metadata.sameInstant back r.metadata.created = true :=
  exists_reread_of_isCanonical h.isCanonical h.isStampable

/-- A revision as a cluster may hand it over, with a creation time in another zone and its data in
no order. -/
def keptDocument : Value :=
  .object [
    field "data" (.object [
      field "spec" (.object [field "roles" (.list []), field "note" (.text "größer")]),
      field "apart" (.list [.null, .int (-3), .bool false])]),
    field "metadata" (.object [
      field "name" (.text "web-7"),
      field "labels" (.object [field "tier" (.text "front"), field "app" (.text "web")]),
      field "ownerReferences" (.list [.object [field "name" (.text "web"), field "uid" (.text "u"),
        field "controller" (.bool true)]]),
      field "creationTimestamp" (.text "2026-02-18T13:00:01+01:00"),
      field "generation" (.int 2)]),
    field "revision" (.int 7)]

/-- One revision that was built, and one that was read. -/
theorem reread_of_arises_built_and_read :
    ∃ g built kept, Group.ofDocument recordedDocument = .ok g ∧ build .standard g 7 = .ok built ∧
      ofDocument keptDocument = .ok kept ∧ ∀ r ∈ [built, kept], ∃ doc back, r.document = .ok doc ∧
        ofDocument doc = .ok { r with metadata := { r.metadata with created := back } } ∧
        Metadata.sameInstant back r.metadata.created = true := by
  have hgroup : ∃ g, Group.ofDocument recordedDocument = .ok g ∧ g.spec.hasTextKeys = true ∧
      g.spec.isNamed = true := ⟨_, rfl, rfl, rfl⟩
  have hread : (ofDocument keptDocument).toOption.any (·.metadata.isStampable) = true := by
    decide +kernel
  have hkept : ∃ r, ofDocument keptDocument = .ok r ∧ r.metadata.isStampable = true := by
    cases h : ofDocument keptDocument with
    | error e =>
      rw [h] at hread
      exact Bool.noConfusion hread
    | ok r =>
      rw [h] at hread
      exact ⟨r, rfl, hread⟩
  obtain ⟨g, hg, hkeys, hnamed⟩ := hgroup
  obtain ⟨kept, hkept, hstampable⟩ := hkept
  have hfits : recordedDocument.Fits (980 + 10) := ⟨rfl, by decide +kernel, by decide +kernel⟩
  have hnumber : Decimal.isExchangeable 7 = true := by decide +kernel
  obtain ⟨_, built, -, -, -, hbuilt⟩ := @exists_built _ _ .standard 7
    (Group.fits_spec_of_ofDocument hfits hg hkeys) (by decide) hnamed
  rw [if_pos hnumber] at hbuilt
  have hkeptFits : keptDocument.Fits (Json.maxDepth + 1) :=
    ⟨rfl, by decide +kernel, by decide +kernel⟩
  refine ⟨g, built, kept, hg, hbuilt, hkept, fun r hr => reread_of_arises ?_⟩
  rcases List.mem_cons.mp hr with rfl | hr
  · exact .built (.of_fits hfits) hg hkeys hbuilt
  · rw [List.mem_singleton.mp hr]
    exact .read (.of_fits hkeptFits) hkept hstampable

end Revision

end RolloutLedger
