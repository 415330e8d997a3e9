import RolloutLedger.Proofs.Document.Content
import RolloutLedger.Proofs.Revision.Restore
/-! # Directives in recorded content

A revision records the free-form content of a group as it is.  Restoring takes every member with
the name of a directive for one, at every depth of that content, and drops it.  So a piece of
content comes back as it was exactly if it holds no such member, and the restored group encodes to
the data of the revision exactly if no piece does.
-/

namespace RolloutLedger

open Entries (field)
open Patch (isDirectiveFree)

variable {room : Nat} {live recorded back : Group} {o : HashOptions} {n : Int}

/-! ## What is restored, piece by piece -/

namespace GroupSpec

variable {s : GroupSpec}

/-- A piece of content that is restored is the same JSON exactly if it carries no directive. -/
theorem content_stripping (h : s.Fits room) :
    List.Forall₂ (fun v w => Value.sameJson w v = true ↔ isDirectiveFree v = true)
      s.content (s.recast Patch.stripping).content := by
  rw [content_recast, List.forall₂_map_right_iff, List.forall₂_same]
  intro v hv
  exact Patch.sameJson_stripping_iff (fits_of_mem_content h v hv)

theorem isDirectiveFree_of_mem_content_stripping :
    ∀ w ∈ (s.recast Patch.stripping).content, isDirectiveFree w = true := by
  rw [content_recast, List.forall_mem_map]
  exact fun v _ => Patch.isDirectiveFree_strip v.ordered

end GroupSpec

/-! ## What is encoded again -/

namespace Patch

theorem isDirectiveFree_iff_of_ordered_eq {v w : Value} (hv : v.isPlain = true)
    (hw : w.isPlain = true) (h : v.ordered = w.ordered) :
    isDirectiveFree v = true ↔ isDirectiveFree w = true := by
  rw [← isDirectiveFree_ordered_iff hv, h, isDirectiveFree_ordered_iff hw]

/-- The snapshot of a stripped declaration has the same ordered form exactly if there was nothing
to strip. -/
theorem ordered_snapshot_stripping_iff (h : recorded.spec.Fits room) (m : Metadata) :
    (snapshot ⟨m, recorded.spec.recast stripping⟩).ordered = (snapshot recorded).ordered ↔
      ∀ v ∈ recorded.spec.content, isDirectiveFree v = true := by
  rw [← GroupSpec.isDirectiveFree_documents_iff]
  constructor
  · intro heq
    rw [ordered_snapshot, ordered_snapshot] at heq
    have hparts : (GangPolicy.documentOrNull (recorded.spec.recast stripping).policy).ordered =
          (GangPolicy.documentOrNull recorded.spec.policy).ordered ∧
        (recorded.spec.recast stripping).roleDocuments.map Value.ordered =
          recorded.spec.roleDocuments.map Value.ordered := by
      simpa [overwriting, field] using heq
    obtain ⟨hpolicy, hroles⟩ := hparts
    have hfits := GroupSpec.fits_recast stripping h
    obtain ⟨hrolesFree, hpolicyFree⟩ := (GroupSpec.isDirectiveFree_documents_iff _).mpr
      GroupSpec.isDirectiveFree_of_mem_content_stripping
    rw [← isDirectiveFree_list_iff] at hrolesFree ⊢
    constructor
    · refine (isDirectiveFree_iff_of_ordered_eq (GroupSpec.fits_roleDocuments hfits).plain
        (GroupSpec.fits_roleDocuments h).plain ?_).mp hrolesFree
      rw [Value.ordered_list, Value.ordered_list, hroles]
    · exact (isDirectiveFree_iff_of_ordered_eq (GroupSpec.fits_documentOrNull hfits).plain
        (GroupSpec.fits_documentOrNull h).plain hpolicy).mp hpolicyFree
  · rintro ⟨hroles, hpolicy⟩
    rw [GroupSpec.recast_stripping h hroles hpolicy]
    exact @ordered_snapshot_restored _ recorded _ h m

/-- A restored group encodes to what was recorded exactly if no content carries a directive. -/
theorem encodeSnapshot_stripping_iff (h : recorded.spec.Fits room)
    (hroom : room + 10 ≤ Json.maxDepth) {raw : Bytes} (hraw : encodeSnapshot recorded = .ok raw)
    (m : Metadata) (limit : Option Int) :
    encodeSnapshot ⟨m, { recorded.spec.recast stripping with historyLimit := limit }⟩ = .ok raw ↔
      ∀ v ∈ recorded.spec.content, isDirectiveFree v = true := by
  have hfits := fits_snapshot (g := ⟨m, recorded.spec.recast stripping⟩)
    (GroupSpec.fits_recast stripping h)
  have hplain := (fits_snapshot h).plain
  obtain ⟨raw', hraw', -⟩ := Json.decode_encode (hfits.mono hroom)
  rw [← ordered_snapshot_stripping_iff h m, ← Value.sameJson_iff_ordered_eq hfits.plain hplain,
    ← Json.encode_eq_iff_sameJson hfits.plain hplain hraw' hraw, encodeSnapshot]
  -- the history limit is no part of a snapshot
  show Json.encode (snapshot ⟨m, recorded.spec.recast stripping⟩) = .ok raw ↔ _
  rw [hraw', Except.ok.injEq]

end Patch

namespace Revision

/-- **What becomes of directives in content.**  Let a group be read from a document without
doubles, within the limits of the runtime, whose labels, annotations and resources have texts for
keys and whose roles have names; let a live group come back from storage.  Then a revision is built
from the former for every number that has a numeral.  Restoring it onto the latter gives the
recorded roles and policy in ordered form and without the members that are named like directives.
A piece of free-form content is restored as it was exactly if it had no such member at any depth,
and the restored group encodes to the data of the revision exactly if no piece had one. -/
theorem restored_content_iff {doc stored : Value} (hdoc : doc.Fits Json.maxDepth)
    (hrecorded : Group.ofDocument doc = .ok recorded) (hkeys : recorded.spec.hasTextKeys = true)
    (hnamed : recorded.spec.isNamed = true) (hstored : storedDocument live = .ok stored)
    (hback : Group.ofDocument stored = .ok back) :
    ∃ r restored,
      build o recorded n = (if Decimal.isExchangeable n then .ok r else .error .unreadable) ∧
      restore live r = .ok restored ∧ restored.metadata = back.metadata ∧
      restored.spec = { recorded.spec.recast Patch.stripping with
        historyLimit := back.spec.historyLimit } ∧
      List.Forall₂ (fun v w => Value.sameJson w v = true ↔ isDirectiveFree v = true)
        recorded.spec.content restored.spec.content ∧
      (Patch.encodeSnapshot restored = .ok r.data.bytes ↔
        ∀ v ∈ recorded.spec.content, isDirectiveFree v = true) := by
  obtain ⟨room, hroom⟩ : ∃ room, Json.maxDepth = room + 10 := ⟨980, rfl⟩
  have hle : room + 10 ≤ Json.maxDepth := Nat.le_of_eq hroom.symm
  rw [hroom] at hdoc
  have hfits := Group.fits_spec_of_ofDocument hdoc hrecorded hkeys
  obtain ⟨raw, r, hraw, hdecode, hdata, hbuild⟩ := @exists_built _ _ o n hfits hle hnamed
  refine ⟨r, _, hbuild, restore_of_stored hstored hback hfits hdata hdecode, rfl, rfl,
    GroupSpec.content_stripping hfits, ?_⟩
  rw [hdata]
  exact Patch.encodeSnapshot_stripping_iff hfits hle hraw _ _

theorem exists_stored (h : live.Fits room) (hroom : room + 10 ≤ Json.maxDepth)
    (hstamp : live.metadata.isStampable = true) :
    ∃ stored back, storedDocument live = .ok stored ∧ Group.ofDocument stored = .ok back := by
  obtain ⟨_, _, hback, -, hstored⟩ := exists_storedDocument h hroom hstamp
  exact ⟨_, _, hstored, ofDocument_stored h.spec.keyed hback⟩

/-- Settings that patch the template of a leader, with an instruction for whoever applies them. -/
def leaderSettings : Value :=
  .object [field "patchLeaderTemplate" (.object [
    field "$patch" (.text "delete"), field "metadata" (.object [])])]

def directedDocument : Value :=
  .object [
    field "metadata" (.object [field "name" (.text "web")]),
    field "spec" (.object [field "roles" (.list [.object [field "name" (.text "leader"),
      field "leaderWorkerSet" leaderSettings]])])]

theorem fits_directedDocument : directedDocument.Fits Json.maxDepth :=
  ⟨rfl, by decide +kernel, by decide +kernel⟩

theorem exists_live : ∃ live stored back, Group.ofDocument liveDocument = .ok live ∧
    storedDocument live = .ok stored ∧ Group.ofDocument stored = .ok back := by
  have hlive : ∃ live, Group.ofDocument liveDocument = .ok live ∧ live.hasTextKeys = true ∧
      live.metadata.isStampable = true := ⟨_, rfl, rfl, rfl⟩
  obtain ⟨live, hlive, hkeys, hstamp⟩ := hlive
  have hfits : liveDocument.Fits (980 + 10) := ⟨rfl, by decide +kernel, by decide +kernel⟩
  obtain ⟨stored, back, hstored, hback⟩ :=
    exists_stored (Group.fits_of_ofDocument hfits hlive hkeys) (by decide) hstamp
  exact ⟨live, stored, back, hlive, hstored, hback⟩

theorem restored_content_iff_leaderSettings :
    ∃ live stored back recorded r restored, Group.ofDocument liveDocument = .ok live ∧
      storedDocument live = .ok stored ∧ Group.ofDocument stored = .ok back ∧
      Group.ofDocument directedDocument = .ok recorded ∧
      build .standard recorded 7 = .ok r ∧ restore live r = .ok restored ∧
      restored.metadata = back.metadata ∧
      restored.spec = { recorded.spec.recast Patch.stripping with
        historyLimit := back.spec.historyLimit } ∧
      List.Forall₂ (fun v w => Value.sameJson w v = true ↔ isDirectiveFree v = true)
        recorded.spec.content restored.spec.content ∧
      (Patch.encodeSnapshot restored = .ok r.data.bytes ↔
        ∀ v ∈ recorded.spec.content, isDirectiveFree v = true) := by
  have hrecorded : ∃ recorded, Group.ofDocument directedDocument = .ok recorded ∧
      recorded.spec.hasTextKeys = true ∧ recorded.spec.isNamed = true := ⟨_, rfl, rfl, rfl⟩
  obtain ⟨live, stored, back, hlive, hstored, hback⟩ := exists_live
  obtain ⟨recorded, hrecorded, hkeys, hnamed⟩ := hrecorded
  have hnumber : Decimal.isExchangeable 7 = true := by decide +kernel
  obtain ⟨r, restored, hbuild, hrestored⟩ := restored_content_iff (o := .standard) (n := 7)
    fits_directedDocument hrecorded hkeys hnamed hstored hback
  rw [if_pos hnumber] at hbuild
  exact ⟨live, stored, back, recorded, r, restored, hlive, hstored, hback, hrecorded, hbuild,
    hrestored⟩

/-- The settings come back without the instruction in them, and encoding the restored group does
not give the data of the revision. -/
theorem settings_lose_instruction :
    ∃ live recorded r restored, Group.ofDocument liveDocument = .ok live ∧
      Group.ofDocument directedDocument = .ok recorded ∧
      recorded.spec.roles.map (·.leaderWorkerSet) = [leaderSettings] ∧
      build .standard recorded 7 = .ok r ∧ restore live r = .ok restored ∧
      restored.spec.roles.map (·.leaderWorkerSet) = [.object [
        field "patchLeaderTemplate" (.object [field "metadata" (.object [])])]] ∧
      Patch.encodeSnapshot restored ≠ .ok r.data.bytes := by
  have hrecorded : ∃ recorded, Group.ofDocument directedDocument = .ok recorded ∧
      recorded.spec.hasTextKeys = true ∧ recorded.spec.isNamed = true ∧
      recorded.spec.roles.map (·.leaderWorkerSet) = [leaderSettings] ∧
      (recorded.spec.recast Patch.stripping).roles.map (·.leaderWorkerSet) = [.object [
        field "patchLeaderTemplate" (.object [field "metadata" (.object [])])]] ∧
      recorded.spec.content.all isDirectiveFree = false := ⟨_, rfl, rfl, rfl, rfl, rfl, rfl⟩
  obtain ⟨live, stored, back, hlive, hstored, hback⟩ := exists_live
  obtain ⟨recorded, hrecorded, hkeys, hnamed, hsettings, hstripped, hcontent⟩ := hrecorded
  have hle : 980 + 10 ≤ Json.maxDepth := by decide
  have hfits := Group.fits_spec_of_ofDocument
    (fits_directedDocument.mono (show Json.maxDepth ≤ 980 + 10 by decide)) hrecorded hkeys
  have hnumber : Decimal.isExchangeable 7 = true := by decide +kernel
  obtain ⟨raw, r, hraw, hdecode, hdata, hbuild⟩ := @exists_built _ _ .standard 7 hfits hle hnamed
  rw [if_pos hnumber] at hbuild
  refine ⟨live, recorded, r, _, hlive, hrecorded, hsettings, hbuild,
    restore_of_stored hstored hback hfits hdata hdecode, hstripped, fun hbytes => ?_⟩
  rw [hdata] at hbytes
  have hfree := (Patch.encodeSnapshot_stripping_iff hfits hle hraw _ _).mp hbytes
  rw [← List.all_eq_true, hcontent] at hfree
  exact Bool.noConfusion hfree

end Revision

end RolloutLedger
