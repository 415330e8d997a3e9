import RolloutLedger.Proofs.Revision.Build
import RolloutLedger.Proofs.Revision.Restore
/-! # The last restore wins

What restoring a built revision gives can be restored onto again: it is written, its creation time
keeps its wire form, and its metadata is read back as it is.  Of an earlier revision nothing is
left, since roles and policy are overwritten as a whole.  So whatever revisions were restored
before, restoring one gives what it gives on the group that was there first.
-/

namespace RolloutLedger

open Entries (field valueOr)
open Value (Within)

variable {room : Nat} {live recorded : Group} {o : HashOptions} {n : Int} {r : Revision}
  {created : Option String} {back : Option Time.Timestamp}

/-! ## What a revision holds -/

namespace Patch

theorem ofDocument_rereading {g : Group} (h : g.spec.Keyed) :
    GroupSpec.ofDocument (.object [
      field "podGroupPolicy" (rereading.value (GangPolicy.documentOrNull g.spec.policy)),
      field "roles" (.list (g.spec.roleDocuments.map rereading.value))]) =
        .ok { g.spec.recast rereading with historyLimit := none } := by
  refine (GroupSpec.ofDocument_iff (Value.orEmpty_object _)).mpr ⟨?_, ?_, ?_⟩
  · exact ⟨g.spec.roleDocuments.map rereading.value,
      by simp [valueOr, Value.itemsOrNone_list], GroupSpec.mapM_roles rereading h⟩
  · exact GroupSpec.optional_policy rereading g.spec
  · rfl

/-- Roles and policy from a snapshot within terms are within them, and their extra members have keys
of their own. -/
theorem within_rereading {t : Terms} {g : Group} (hapart : t.apart) (hkeyed : g.spec.Keyed)
    (h : (snapshot g).reread.Within t (room + 10)) :
    (Value.list (g.spec.recast rereading).roleDocuments).Within t (room + 8) ∧
      (GangPolicy.documentOrNull (g.spec.recast rereading).policy).Within t (room + 8) ∧
      (g.spec.recast rereading).Keyed := by
  rw [reread_snapshot] at h
  have hspec := (Within.object_iff.mp h).2 _ List.mem_cons_self
  obtain ⟨-, hmembers⟩ := Within.object_iff.mp hspec
  simp only [overwriting, List.forall_mem_cons, List.not_mem_nil, false_implies, implies_true,
    and_true] at hmembers
  obtain ⟨-, hpolicy, hroles⟩ := hmembers
  -- what is put in place, as the document of a declaration
  have hdoc : (Value.object [
      field "podGroupPolicy" (rereading.value (GangPolicy.documentOrNull g.spec.policy)),
      field "roles" (.list (g.spec.roleDocuments.map rereading.value))]).Within t (room + 9) := by
    have hkeys : ∀ v w : Value,
        Entries.keysApart [field "podGroupPolicy" v, field "roles" w] = true := fun _ _ => rfl
    refine .object (.of_keysApart (hkeys _ _)) ?_
    simp only [List.forall_mem_cons, List.not_mem_nil, false_implies, implies_true, and_true]
    refine ⟨within_strip hpolicy, ?_⟩
    have hstripped : (strip (.list (g.spec.roleDocuments.map Value.reread))).Within t (room + 8) :=
      within_strip hroles
    rwa [strip_list, List.map_map] at hstripped
  have hread := ofDocument_rereading hkeyed
  obtain ⟨hroles, hpolicy, -⟩ := GroupSpec.within_parts hdoc hread fun _ =>
    hasTextKeys_rereading g.spec
  have hkeyed : GroupSpec.Keyed { g.spec.recast rereading with historyLimit := none } :=
    GroupSpec.keyed_of_ofDocument hapart hdoc hread
  exact ⟨hroles, hpolicy, hkeyed⟩

end Patch

namespace Revision

/-- Whether the patch of a revision is the snapshot of a group as it is read from its stored form,
and the extra members of the group have keys of their own. -/
structure Holds (r : Revision) (recorded : Group) : Prop where
  patch : r.patch = .ok (Patch.snapshot recorded).reread
  keyed : recorded.spec.Keyed

theorem Holds.within (h : r.Holds recorded) :
    (Patch.snapshot recorded).reread.Within .exchange Json.maxDepth := by
  have hpatch := h.patch
  unfold Revision.patch at hpatch
  split at hpatch
  · exact nomatch hpatch
  · exact Json.within_of_decode hpatch

/-- The data of a built revision can be decoded: the digests of the roles were taken of it. -/
theorem decode_of_build {t : Terms} (hsnapshot : (Patch.snapshot recorded).Within t room)
    (hr : build o recorded n = .ok r) :
    ∃ raw, Patch.encodeSnapshot recorded = .ok raw ∧ r.data = ⟨some raw, .null⟩ ∧
      Json.decode raw = .ok (Patch.snapshot recorded).reread := by
  obtain ⟨raw, roleHashes, hraw, hroles, rfl⟩ := exists_assemble_of_build hr
  have hne := Json.ne_nil_of_encode hsnapshot hraw
  rw [Digest.roleHashes, if_neg (mt List.isEmpty_iff.mp hne)] at hroles
  obtain ⟨_, hdecode, -⟩ := bind_eq_ok_iff.mp hroles
  obtain ⟨w, hw, -⟩ := bind_eq_ok_iff.mp hdecode
  have hw := mapError_eq_ok_iff.mp hw
  rw [Json.eq_reread_of_decode hsnapshot hraw hw] at hw
  exact ⟨raw, hraw, rfl, hw⟩

/-- **A built revision holds its group**, whatever kind of document the group was read from. -/
theorem holds_of_build {doc : Value} (hdoc : doc.Within .json room)
    (hrecorded : Group.ofDocument doc = .ok recorded) (hr : build o recorded n = .ok r) :
    r.Holds recorded := by
  refine ⟨?_, Group.keyed_of_ofDocument trivial (hdoc.mono (Nat.le_add_right room 8)) hrecorded⟩
  -- labels, annotations and resources may have been given by pairs, with any scalars as keys
  have hpaired : doc.Within .paired room := hdoc.weaken (fun _ h => h) False.elim
  have hsnapshot := Patch.within_snapshot (hpaired.mono (Nat.le_add_right room 10)) hrecorded
    False.elim
  obtain ⟨raw, -, hdata, hw⟩ := decode_of_build hsnapshot hr
  exact patch_eq hdata hw

end Revision

/-! ## Groups onto which revisions can be restored -/

namespace Group

/-- A group with the roles and the policy of a revision in place of its own, as it is read back. -/
def overwritten (live recorded : Group) (back : Option Time.Timestamp) : Group where
  metadata := live.metadata.reread back
  spec := { recorded.spec.recast Patch.rereading with historyLimit := live.spec.historyLimit }

/-- Whether a group can be written and read back, with a given wire form of its creation time. -/
structure Restorable (room : Nat) (created : Option String) (g : Group) : Prop where
  metadata : g.metadata.Fits (room + 6)
  created : Metadata.createdText g.metadata.created = .ok created
  spec : g.spec.document.Within .exchange (room + 9)
  keyed : g.spec.Keyed
  historyLimit : ∀ i, g.spec.historyLimit = some i → Decimal.isExchangeable i = true

theorem Fits.restorable (h : live.Fits room)
    (hcreated : Metadata.createdText live.metadata.created = .ok created) :
    live.Restorable room created where
  metadata := h.metadata
  created := hcreated
  spec := .of_fits (GroupSpec.fits_document h.spec)
  keyed := h.spec.keyed
  historyLimit := h.spec.historyLimit

/-- **What is restored can be restored onto.** -/
theorem Restorable.overwritten (h : live.Restorable room created)
    (hroom : Json.maxDepth = room + 10) (hr : r.Holds recorded)
    (hback : Metadata.createdText back = .ok created) :
    (live.overwritten recorded back).Restorable room created := by
  have hwithin := hr.within
  rw [hroom] at hwithin
  obtain ⟨hroles, hpolicy, hkeyed⟩ := Patch.within_rereading trivial hr.keyed hwithin
  exact ⟨h.metadata.reread back, hback,
    GroupSpec.within_document_of_parts hroles hpolicy h.historyLimit, hkeyed, h.historyLimit⟩

/-- Of what was restored before, nothing is left. -/
theorem overwritten_overwritten {earlier : Group} (h : live.metadata.Fits room)
    (recorded : Group) (back : Option Time.Timestamp) :
    (live.overwritten earlier back).overwritten recorded back = live.overwritten recorded back := by
  rw [overwritten, overwritten, overwritten, Metadata.reread_reread h]

end Group

namespace Revision

/-- **What restoring gives.** -/
theorem restore_of_holds (hlive : live.Restorable room created)
    (hroom : Json.maxDepth = room + 10) (hr : r.Holds recorded)
    (hback : ((created.map Value.text).getD .null).toTimestamp? = .ok back) :
    restore live r = .ok (live.overwritten recorded back) := by
  have hmetadata : (Value.object (live.metadata.membersWith created)).Within .exchange
      (room + 9) := .of_fits (Metadata.fits_membersWith hlive.metadata created)
  have hdocument := Group.within_documentWith hmetadata hlive.spec
  rw [← hroom] at hdocument
  have hpatch := hr.patch
  rw [Patch.reread_snapshot] at hpatch
  exact restore_of_overwrites (storedDocument_eq hlive.created hdocument)
    (ofDocument_stored hlive.keyed hback) hr.keyed (Patch.overwrites_reread recorded) hpatch

/-- **The last of any number of restores wins.** -/
theorem foldlM_restore {rs : List Revision} (hlive : live.Restorable room created)
    (hroom : Json.maxDepth = room + 10)
    (hback : ((created.map Value.text).getD .null).toTimestamp? = .ok back)
    (hagain : Metadata.createdText back = .ok created) (hrs : ∀ r ∈ rs, ∃ g, r.Holds g)
    (hr : r.Holds recorded) :
    (rs ++ [r]).foldlM restore live = .ok (live.overwritten recorded back) := by
  induction rs generalizing live with
  | nil =>
    rw [List.nil_append, List.foldlM_cons, restore_of_holds hlive hroom hr hback]
    rfl
  | cons r' rest ih =>
    obtain ⟨earlier, hr'⟩ := hrs r' List.mem_cons_self
    have hrest := ih (hlive.overwritten hroom hr' hagain) fun r hmem =>
      hrs r (List.mem_cons_of_mem _ hmem)
    rw [List.cons_append, List.foldlM_cons, restore_of_holds hlive hroom hr' hback, ok_bind, hrest,
      Group.overwritten_overwritten hlive.metadata]

/-- **The last restore wins.**  Let a live group be read from a document without doubles, within the
limits of the runtime, such that the keys of labels, annotations and resources are texts and the
creation time is absent or in a year of four digits of universal time.  Let two revisions be built,
with whatever options and numbers, from groups that were read from documents of JSON.  Then both can
be restored one after the other, and the second one without the first, and that gives the same
group.  Its roles and its policy are those of the second revision alone, as they are read from their
stored form and less the directives in them; its metadata is what the first restore left, and its
history limit is that of the live group. -/
theorem restore_restore {liveDoc doc₁ doc₂ : Value} {room₁ room₂ : Nat} {g₁ g₂ : Group}
    {o₁ o₂ : HashOptions} {n₁ n₂ : Int} {r₁ r₂ : Revision} (hliveDoc : liveDoc.Fits Json.maxDepth)
    (hlive : Group.ofDocument liveDoc = .ok live) (hliveKeys : live.hasTextKeys = true)
    (hdated : live.metadata.isDated = true) (hdoc₁ : doc₁.Within .json room₁)
    (hg₁ : Group.ofDocument doc₁ = .ok g₁) (hr₁ : build o₁ g₁ n₁ = .ok r₁)
    (hdoc₂ : doc₂.Within .json room₂) (hg₂ : Group.ofDocument doc₂ = .ok g₂)
    (hr₂ : build o₂ g₂ n₂ = .ok r₂) :
    ∃ between restored, restore live r₁ = .ok between ∧ restore between r₂ = .ok restored ∧
      restore live r₂ = .ok restored ∧
      restored.spec.roles = g₂.spec.roles.map (Role.recast Patch.rereading) ∧
      restored.spec.policy = g₂.spec.policy.map (GangPolicy.recast Patch.rereading) ∧
      restored.metadata = between.metadata ∧
      restored.spec.historyLimit = live.spec.historyLimit := by
  obtain ⟨room, hroom⟩ : ∃ room, Json.maxDepth = room + 10 := ⟨980, rfl⟩
  rw [hroom] at hliveDoc
  obtain ⟨created, back, hcreated, hback, hagain⟩ := Metadata.exists_restamp hdated
  have hlive := (Group.fits_of_ofDocument hliveDoc hlive hliveKeys).restorable hcreated
  have hholds₁ := holds_of_build hdoc₁ hg₁ hr₁
  have hholds₂ := holds_of_build hdoc₂ hg₂ hr₂
  have hbetween := restore_of_holds hlive hroom hholds₁ hback
  have hrestored := restore_of_holds hlive hroom hholds₂ hback
  have hrun := @foldlM_restore _ _ _ _ _ _ [r₁] hlive hroom hback hagain
    (fun r hr => ⟨g₁, List.mem_singleton.mp hr ▸ hholds₁⟩) hholds₂
  rw [List.singleton_append, List.foldlM_cons, hbetween, ok_bind, List.foldlM_cons] at hrun
  obtain ⟨restored, hlast, hrun⟩ := bind_eq_ok_iff.mp hrun
  cases hrun
  exact ⟨_, _, hbetween, hlast, hrestored, rfl, rfl, rfl, rfl⟩

def earlierDocument : Value :=
  .object [
    field "metadata" (.object [field "name" (.text "web")]),
    field "spec" (.object [
      field "roles" (.list [
        .object [field "name" (.text "leader"), field "restartPolicy" (.text "Always"),
          field "template" (.object [field "metadata" (.object [
            field "labels" (.list [.list [.text "tier", .text "back"]])])])],
        .object [field "name" (.text "worker"), field "dependencies" (.list [.text "leader"])]]),
      field "podGroupPolicy" (.object [field "kubeScheduling" (.object [])])])]

theorem restore_restore_after_earlier :
    ∃ live g₁ g₂ r₁ r₂ between restored, Group.ofDocument liveDocument = .ok live ∧
      Group.ofDocument earlierDocument = .ok g₁ ∧ Group.ofDocument recordedDocument = .ok g₂ ∧
      build .standard g₁ 7 = .ok r₁ ∧ build .standard g₂ 8 = .ok r₂ ∧
      restore live r₁ = .ok between ∧ restore between r₂ = .ok restored ∧
      restore live r₂ = .ok restored ∧ restored.spec.roles.map (·.name) = ["leader"] ∧
      restored.spec.policy.isNone = true := by
  have hlive : ∃ live, Group.ofDocument liveDocument = .ok live ∧ live.hasTextKeys = true ∧
      live.metadata.isDated = true := ⟨_, rfl, rfl, rfl⟩
  have hearlier : ∃ g, Group.ofDocument earlierDocument = .ok g ∧ g.spec.hasTextKeys = true ∧
      g.spec.isNamed = true := ⟨_, rfl, rfl, rfl⟩
  have hrecorded : ∃ g, Group.ofDocument recordedDocument = .ok g ∧ g.spec.hasTextKeys = true ∧
      g.spec.isNamed = true ∧ g.spec.roles.map (·.name) = ["leader"] ∧
      g.spec.policy.isNone = true := ⟨_, rfl, rfl, rfl, rfl, rfl⟩
  obtain ⟨live, hlive, hliveKeys, hdated⟩ := hlive
  obtain ⟨g₁, hg₁, hkeys₁, hnamed₁⟩ := hearlier
  obtain ⟨g₂, hg₂, hkeys₂, hnamed₂, hnames, hpolicy⟩ := hrecorded
  have hfits₁ : earlierDocument.Fits (980 + 10) := ⟨rfl, by decide +kernel, by decide +kernel⟩
  have hfits₂ : recordedDocument.Fits (980 + 10) := ⟨rfl, by decide +kernel, by decide +kernel⟩
  have hseven : Decimal.isExchangeable 7 = true := by decide +kernel
  have height : Decimal.isExchangeable 8 = true := by decide +kernel
  obtain ⟨_, r₁, -, -, -, hr₁⟩ := @exists_built _ _ .standard 7
    (Group.fits_spec_of_ofDocument hfits₁ hg₁ hkeys₁) (by decide) hnamed₁
  obtain ⟨_, r₂, -, -, -, hr₂⟩ := @exists_built _ _ .standard 8
    (Group.fits_spec_of_ofDocument hfits₂ hg₂ hkeys₂) (by decide) hnamed₂
  rw [if_pos hseven] at hr₁
  rw [if_pos height] at hr₂
  obtain ⟨between, restored, hbetween, hlast, hrestored, hroles, hpolicies, -⟩ := restore_restore
    ⟨rfl, by decide +kernel, by decide +kernel⟩ hlive hliveKeys hdated (.of_fits hfits₁) hg₁ hr₁
    (.of_fits hfits₂) hg₂ hr₂
  refine ⟨live, g₁, g₂, r₁, r₂, between, restored, hlive, hg₁, hg₂, hr₁, hr₂, hbetween, hlast,
    hrestored, ?_, ?_⟩
  · rw [hroles, List.map_map, ← hnames]
    rfl
  · rw [hpolicies, Option.isNone_map, hpolicy]

end Revision

end RolloutLedger
