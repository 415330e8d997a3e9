import RolloutLedger.Proofs.Patch.Stored
import RolloutLedger.Revision
/-! # Restoring what was built

A revision is built from one group and restored onto another.  Both go through their documents and
the stored forms of these, so what comes back has its values in ordered form, and its creation time
in universal time.  Up to that, roles and policy are those of the first group, less what they hold
under the name of a directive, and all else is that of the second.
-/

namespace RolloutLedger

open Entries (field valueOr keysApart)

variable {room : Nat} {live recorded : Group} {o : HashOptions} {n : Int}

/-! ## The declaration that is restored -/

namespace GroupSpec

/-- The roles and the policy of one declaration as they are read back, with the history limit of
another. -/
def restored (s recorded : GroupSpec) : GroupSpec where
  roles := recorded.roles.map Role.ordered
  policy := recorded.policy.map GangPolicy.ordered
  historyLimit := s.historyLimit

variable {s t : GroupSpec}

theorem fits_restored (hs : s.Fits room) (ht : t.Fits room) : (s.restored t).Fits room :=
  ⟨(fits_recast .ordering ht).roles, (fits_recast .ordering ht).policy, hs.historyLimit⟩

/-- A declaration with the roles and the policy of another one put over its own is read as the
latter, with its own history limit. -/
theorem reads_overwritten (f : Recasting) {target : Entries} {limit : Option Int}
    (ht : t.Keyed) (htarget : keysApart target = true)
    (hlimit : (valueOr target "revisionHistoryLimit" .null).optional Value.toInteger =
      .ok limit) :
    Reads (Patch.overwritten (f.value (GangPolicy.documentOrNull t.policy))
      (.list (t.roleDocuments.map f.value)) target)
      { t.recast f with historyLimit := limit } := by
  constructor
  · rw [Patch.valueOr_roles_overwritten]
    exact ⟨_, Value.itemsOrNone_list _, mapM_roles f ht⟩
  · rw [Patch.valueOr_policy_overwritten htarget]
    exact optional_policy f t
  · rw [Patch.valueOr_other_overwritten (by decide) (by decide)]
    exact hlimit

/-- Without directives there is nothing to strip. -/
theorem recast_stripping (h : t.Fits room)
    (hroles : ∀ d ∈ t.roleDocuments, Patch.isDirectiveFree d = true)
    (hpolicy : Patch.isDirectiveFree (GangPolicy.documentOrNull t.policy) = true) :
    t.recast Patch.stripping = t.recast .ordering := by
  have hrole : ∀ r ∈ t.roles, r.recast Patch.stripping = r.recast .ordering := by
    intro r hr
    have hfits := h.roles r hr
    have hread := Role.ofDocument_recast Patch.stripping hfits.keyed
    rw [Patch.value_stripping (Role.fits_document hfits).plain
      (hroles _ (List.mem_map_of_mem hr))] at hread
    exact Except.ok.inj (hread.symm.trans (Role.ofDocument_recast .ordering hfits.keyed))
  have hgang : t.policy.map (GangPolicy.recast Patch.stripping) =
      t.policy.map (GangPolicy.recast .ordering) := by
    have hread := optional_policy Patch.stripping t
    rw [Patch.value_stripping (fits_documentOrNull h).plain hpolicy] at hread
    exact Except.ok.inj (hread.symm.trans (optional_policy .ordering t))
  rw [recast, recast, List.map_congr_left hrole, hgang]

end GroupSpec

/-- The snapshot of a group with a restored declaration has the same ordered form. -/
theorem Patch.ordered_snapshot_restored (h : recorded.spec.Fits room) (m : Metadata) :
    (snapshot ⟨m, live.spec.restored recorded.spec⟩).ordered = (snapshot recorded).ordered := by
  rw [ordered_snapshot, ordered_snapshot, GroupSpec.restored,
    GroupSpec.documentOrNull_ordered h, GroupSpec.roleDocuments, GroupSpec.roleDocuments_ordered h]

namespace Revision

/-! ## Building -/

theorem ne_nil_of_decode {raw : Bytes} {v : Value} (h : Json.decode raw = .ok v) : raw ≠ [] := by
  rintro rfl
  exact nomatch (rfl : Json.decode [] = .error .undecodable).symm.trans h

theorem exists_roleHashes {raw : Bytes} (h : recorded.spec.Fits room)
    (hnamed : recorded.spec.isNamed = true)
    (hraw : Json.decode raw = .ok (Patch.snapshot recorded).ordered) :
    ∃ hashes, Digest.roleHashes o raw = .ok hashes := by
  have hne : ¬ raw.isEmpty = true := fun hempty =>
    ne_nil_of_decode hraw (List.isEmpty_iff.mp hempty)
  rw [Digest.roleHashes, if_neg hne, Patch.decode_snapshot hraw, if_pos hnamed, ok_bind]
  refine @Digest.exists_hashRoles o (room + 7) _ (fun es hes => ?_) []
  obtain ⟨r, hr, rfl⟩ := List.mem_map.mp hes
  rw [← Value.ordered_object_eq, ← Role.document_eq]
  exact .of_fits (Role.fits_document (h.roles r hr)).ordered

/-- **What building gives.**  A group that fits and names its roles has a revision for every number
that can be written as a numeral. -/
theorem exists_built (h : recorded.spec.Fits room) (hroom : room + 10 ≤ Json.maxDepth)
    (hnamed : recorded.spec.isNamed = true) :
    ∃ raw r, Patch.encodeSnapshot recorded = .ok raw ∧
      Json.decode raw = .ok (Patch.snapshot recorded).ordered ∧ r.data = ⟨some raw, .null⟩ ∧
      build o recorded n = if Decimal.isExchangeable n then .ok r else .error .unreadable := by
  obtain ⟨raw, hraw, hdecode⟩ := Json.decode_encode ((Patch.fits_snapshot h).mono hroom)
  obtain ⟨hashes, hhashes⟩ := @exists_roleHashes _ _ o _ h hnamed hdecode
  refine ⟨raw, assemble recorded n raw (Digest.shown (Digest.ofBytes raw)) hashes, hraw, hdecode,
    rfl, ?_⟩
  have hhash : Digest.contentHash o raw .null = .ok (Digest.shown (Digest.ofBytes raw)) := rfl
  rw [build, Patch.encodeSnapshot, hraw, ok_bind, hhash, ok_bind, hhashes, ok_bind]
  rfl

/-! ## Restoring -/

theorem storedDocument_eq {created : Option String}
    (hcreated : Metadata.createdText live.metadata.created = .ok created)
    (h : (live.documentWith (.object (live.metadata.membersWith created))).Within .exchange
      Json.maxDepth) :
    storedDocument live = .ok (.object (Entries.ordered
      (live.membersWith (.object (live.metadata.membersWith created))))) := by
  obtain ⟨raw, hraw, hdecode⟩ := Json.decode_encode_of_within h
  have hdocument : live.document =
      .ok (live.documentWith (.object (live.metadata.membersWith created))) := by
    rw [Group.document, Metadata.document, hcreated]
    rfl
  rw [storedDocument, hdocument, ok_bind, hraw, ok_bind, hdecode, Group.documentWith_eq,
    Value.ordered_object_eq]

theorem exists_storedDocument (h : live.Fits room) (hroom : room + 10 ≤ Json.maxDepth)
    (hstamp : live.metadata.isStampable = true) :
    ∃ created back, ((created.map Value.text).getD .null).toTimestamp? = .ok back ∧
      Metadata.sameInstant back live.metadata.created = true ∧
      storedDocument live = .ok (.object (Entries.ordered
        (live.membersWith (.object (live.metadata.membersWith created))))) := by
  obtain ⟨created, back, hcreated, hback, hsame⟩ := Metadata.exists_stamp hstamp
  have hfits := Group.fits_documentWith (Metadata.fits_membersWith h.metadata created) h.spec
  exact ⟨created, back, hback, hsame, storedDocument_eq hcreated (.of_fits (hfits.mono hroom))⟩

theorem patch_eq {raw : Bytes} {r : Revision} {v : Value} (hdata : r.data = ⟨some raw, .null⟩)
    (hraw : Json.decode raw = .ok v) : r.patch = .ok v := by
  have hbytes : r.data.bytes = raw := by
    rw [hdata]
    rfl
  rw [patch, hbytes, if_neg fun hempty => ne_nil_of_decode hraw (List.isEmpty_iff.mp hempty), hraw]

theorem keysApart_of_storedDocument {es : Entries} (h : storedDocument live = .ok (.object es)) :
    keysApart (Patch.membersOf (valueOr es "spec" .null)) = true := by
  obtain ⟨document, -, h⟩ := bind_eq_ok_iff.mp h
  obtain ⟨raw, -, h⟩ := bind_eq_ok_iff.mp h
  cases Json.isJson_of_decode h with
  | object _ hvalues =>
    rw [valueOr]
    cases hget : Entries.get? (.text "spec") es with
    | none => rfl
    | some v =>
      have hv := hvalues _ (Entries.mem_of_get? hget)
      rw [Option.getD_some]
      cases hv with
      | object hkeys _ => exact hkeys
      | _ => rfl

/-- **What restoring gives.**  Roles and policy are those that the revision puts in place, and all
else is that of the live group as it comes back from storage. -/
theorem restore_of_overwrites {stored policy : Value} {docs : List Value} {back : Group}
    {r : Revision} {f : Recasting} (hstored : storedDocument live = .ok stored)
    (hback : Group.ofDocument stored = .ok back) (hkeyed : recorded.spec.Keyed)
    (h : Patch.Overwrites f recorded policy docs)
    (hpatch : r.patch = .ok (.object [field "spec" (.object
      (Patch.overwriting policy (.list docs)))])) :
    restore live r = .ok ⟨back.metadata, { recorded.spec.recast f with
      historyLimit := back.spec.historyLimit }⟩ := by
  obtain ⟨es, rfl, hmetadata, hspec⟩ := Group.exists_object_of_ofDocument hback
  obtain ⟨fs, hfs, hreads⟩ := GroupSpec.exists_reads_of_ofDocument hspec
  have htarget := keysApart_of_storedDocument hstored
  rw [Patch.membersOf_of_orEmpty hfs] at htarget
  rw [restore, hstored, ok_bind, hpatch, ok_bind, Patch.apply_overwriting h.kept, h.policy,
    h.roles, Patch.membersOf_of_orEmpty hfs]
  refine mapError_eq_ok_iff.mpr (Group.ofDocument_object_iff.mpr ⟨?_, ?_⟩)
  · rw [valueOr, Entries.get?_put, if_neg (by decide), ← valueOr]
    exact hmetadata
  · rw [valueOr, Entries.get?_put, if_pos rfl, Option.getD_some]
    exact (GroupSpec.ofDocument_iff (Value.orEmpty_object _)).mpr
      (GroupSpec.reads_overwritten f hkeyed htarget hreads.historyLimit)

/-- A stored snapshot in its ordered form gives roles and policy in ordered form, less the
directives in them. -/
theorem restore_of_stored {stored : Value} {back : Group} {raw : Bytes} {r : Revision}
    (hstored : storedDocument live = .ok stored) (hback : Group.ofDocument stored = .ok back)
    (h : recorded.spec.Fits room) (hdata : r.data = ⟨some raw, .null⟩)
    (hraw : Json.decode raw = .ok (Patch.snapshot recorded).ordered) :
    restore live r = .ok ⟨back.metadata, { recorded.spec.recast Patch.stripping with
      historyLimit := back.spec.historyLimit }⟩ := by
  rw [Patch.ordered_snapshot] at hraw
  exact restore_of_overwrites hstored hback h.keyed (Patch.overwrites_ordered recorded)
    (patch_eq hdata hraw)

/-- A group that comes back from storage has its values in ordered form, and its creation time in
universal time. -/
theorem ofDocument_stored {created : Option String} {back : Option Time.Timestamp}
    (h : live.spec.Keyed)
    (hback : ((created.map Value.text).getD .null).toTimestamp? = .ok back) :
    Group.ofDocument (.object (Entries.ordered
      (live.membersWith (.object (live.metadata.membersWith created))))) =
      .ok ⟨live.metadata.reread back, live.spec.recast .ordering⟩ := by
  have hvalue := Entries.valueOr_null_ordered
    (live.keysApart_membersWith (.object (live.metadata.membersWith created)))
  refine Group.ofDocument_object_iff.mpr ⟨?_, ?_⟩
  · rw [hvalue]
    simp only [valueOr, Group.membersWith, Entries.get?_cons_field, String.reduceEq, if_false,
      if_true, Option.getD_some, Value.ordered_object_eq]
    exact Metadata.ofDocument_object_iff.mpr (Metadata.reads_ordered hback)
  · rw [hvalue]
    simp only [valueOr, Group.membersWith, Entries.get?_cons_field, String.reduceEq, if_false,
      if_true, Option.getD_some, GroupSpec.document_eq, Value.ordered_object_eq]
    exact (GroupSpec.ofDocument_iff (Value.orEmpty_object _)).mpr
      (GroupSpec.reads_recast .ordering h)

/-- **What restoring gives without directives.**  Roles and policy are those of the revision, all
else is that of the live group. -/
theorem restore_eq {raw : Bytes} {r : Revision} (hlive : live.Fits room)
    (hstamp : live.metadata.isStampable = true) (h : recorded.spec.Fits room)
    (hroom : room + 10 ≤ Json.maxDepth)
    (hroles : ∀ d ∈ recorded.spec.roleDocuments, Patch.isDirectiveFree d = true)
    (hpolicy : Patch.isDirectiveFree (GangPolicy.documentOrNull recorded.spec.policy) = true)
    (hdata : r.data = ⟨some raw, .null⟩)
    (hraw : Json.decode raw = .ok (Patch.snapshot recorded).ordered) :
    ∃ back, Metadata.sameInstant back live.metadata.created = true ∧
      restore live r = .ok ⟨live.metadata.reread back, live.spec.restored recorded.spec⟩ := by
  obtain ⟨created, back, hback, hsame, hstored⟩ := exists_storedDocument hlive hroom hstamp
  refine ⟨back, hsame, ?_⟩
  rw [restore_of_stored hstored (ofDocument_stored hlive.spec.keyed hback) h hdata hraw,
    GroupSpec.recast_stripping h hroles hpolicy]
  rfl

/-! ## The round trip -/

/-- **Build, then restore.**  Let two groups be read from documents without doubles, within the
limits of the runtime, such that the keys of labels, annotations and resources are texts; let the
live one have a creation time that is absent or a whole second, and let every role of the recorded
one have a name and no directive stand in its documents.  Then a revision is built from the recorded
group for every number that has a numeral, and restoring it onto the live group gives the recorded
roles and policy, the live metadata and history limit, and a group whose snapshot is the data of the
revision. -/
theorem restore_build {liveDoc doc : Value} (hliveDoc : liveDoc.Fits Json.maxDepth)
    (hlive : Group.ofDocument liveDoc = .ok live) (hliveKeys : live.hasTextKeys = true)
    (hstamp : live.metadata.isStampable = true) (hdoc : doc.Fits Json.maxDepth)
    (hrecorded : Group.ofDocument doc = .ok recorded) (hkeys : recorded.hasTextKeys = true)
    (hnamed : recorded.spec.isNamed = true)
    (hroles : ∀ d ∈ recorded.spec.roleDocuments, Patch.isDirectiveFree d = true)
    (hpolicy : Patch.isDirectiveFree (GangPolicy.documentOrNull recorded.spec.policy) = true) :
    ∃ r restored,
      build o recorded n = (if Decimal.isExchangeable n then .ok r else .error .unreadable) ∧
      restore live r = .ok restored ∧ restored.declaresSame recorded = true ∧
      restored.metadata.alike live.metadata = true ∧
      restored.spec.historyLimit = live.spec.historyLimit ∧
      Patch.encodeSnapshot restored = .ok r.data.bytes := by
  obtain ⟨room, hroom⟩ : ∃ room, Json.maxDepth = room + 10 := ⟨980, rfl⟩
  have hle : room + 10 ≤ Json.maxDepth := Nat.le_of_eq hroom.symm
  rw [hroom] at hliveDoc hdoc
  have hliveFits := Group.fits_of_ofDocument hliveDoc hlive hliveKeys
  have hfits := (Group.fits_of_ofDocument hdoc hrecorded hkeys).spec
  obtain ⟨raw, r, hraw, hdecode, hdata, hbuild⟩ := @exists_built _ _ o n hfits hle hnamed
  obtain ⟨back, hsame, hrestore⟩ :=
    restore_eq hliveFits hstamp hfits hle hroles hpolicy hdata hdecode
  have hordered := @Patch.ordered_snapshot_restored _ live _ hfits (live.metadata.reread back)
  have hplain := (Patch.fits_snapshot hfits).plain
  have hrestoredFits := Patch.fits_snapshot
    (g := ⟨live.metadata.reread back, live.spec.restored recorded.spec⟩)
    (GroupSpec.fits_restored hliveFits.spec hfits)
  -- the snapshots of what was recorded and of what is restored differ in the order of members only
  have hsnapshots := (Value.sameJson_iff_ordered_eq hrestoredFits.plain hplain).mpr hordered
  refine ⟨r, _, hbuild, hrestore, ?_, Metadata.alike_reread hliveFits.metadata hsame, rfl, ?_⟩
  · rw [← Patch.sameJson_snapshot]
    exact hsnapshots
  · obtain ⟨raw', hraw', -⟩ := Json.decode_encode (hrestoredFits.mono hle)
    have heq := (Json.encode_eq_iff_sameJson hrestoredFits.plain hplain hraw' hraw).mpr hsnapshots
    rw [hdata, Patch.encodeSnapshot, hraw', heq]
    rfl

def liveDocument : Value :=
  .object [
    field "metadata" (.object [field "name" (.text "web"),
      field "creationTimestamp" (.text "2024-02-29T12:30:00+01:00")]),
    field "spec" (.object [
      field "roles" (.list [.object [field "name" (.text "old")]]),
      field "podGroupPolicy" (.object [field "kubeScheduling" (.object [])]),
      field "revisionHistoryLimit" (.int 3)])]

def recordedDocument : Value :=
  .object [
    field "metadata" (.object [field "name" (.text "web")]),
    field "spec" (.object [field "roles" (.list [.object [field "name" (.text "leader"),
      field "replicas" (.int 2), field "template" (.object [
        field "metadata" (.object [field "labels" (.object [field "tier" (.text "front")])]),
        field "spec" (.object [field "containers" (.list [.object [
          field "name" (.text "main"), field "tty" (.bool true)]])])])]])])]

theorem restore_build_without_policy :
    ∃ live recorded r restored, Group.ofDocument liveDocument = .ok live ∧
      Group.ofDocument recordedDocument = .ok recorded ∧
      build .standard recorded 7 = .ok r ∧ restore live r = .ok restored ∧
      restored.declaresSame recorded = true ∧ restored.metadata.alike live.metadata = true ∧
      restored.spec.historyLimit = live.spec.historyLimit ∧
      Patch.encodeSnapshot restored = .ok r.data.bytes := by
  have hlive : ∃ live, Group.ofDocument liveDocument = .ok live ∧ live.hasTextKeys = true ∧
      live.metadata.isStampable = true := ⟨_, rfl, rfl, rfl⟩
  have hrecorded : ∃ recorded, Group.ofDocument recordedDocument = .ok recorded ∧
      recorded.hasTextKeys = true ∧ recorded.spec.isNamed = true ∧
      recorded.spec.roleDocuments.all Patch.isDirectiveFree = true ∧
      Patch.isDirectiveFree (GangPolicy.documentOrNull recorded.spec.policy) = true :=
    ⟨_, rfl, rfl, rfl, rfl, rfl⟩
  obtain ⟨live, hlive, hliveKeys, hstamp⟩ := hlive
  obtain ⟨recorded, hrecorded, hkeys, hnamed, hroles, hpolicy⟩ := hrecorded
  have hnumber : Decimal.isExchangeable 7 = true := by decide +kernel
  obtain ⟨r, restored, hbuild, hrestored⟩ := restore_build (o := .standard) (n := 7)
    ⟨rfl, by decide +kernel, by decide +kernel⟩ hlive hliveKeys hstamp
    ⟨rfl, by decide +kernel, by decide +kernel⟩ hrecorded hkeys hnamed
    (List.all_eq_true.mp hroles) hpolicy
  rw [if_pos hnumber] at hbuild
  exact ⟨live, recorded, r, restored, hlive, hrecorded, hbuild, hrestored⟩

end Revision

end RolloutLedger
