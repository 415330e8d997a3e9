import RolloutLedger.Proofs.Revision.Restore
/-! # Sorting keys makes no difference

Digests may be taken of content with its keys sorted or as they stand.  A revision is digested from
its stored data, which was written with sorted keys and is read in the order of its text, so both
ways give the same text, the same digests and the same revision.
-/

namespace RolloutLedger

open Entries (field)

/-! ## Digests -/

namespace Digest

variable {g : Group} {raw : Bytes} {indent : Option Int}

theorem valueHash_ordered_sortKeys {v : Value} (h : v.IsJson) :
    valueHash ⟨false, indent⟩ v.ordered = valueHash ⟨true, indent⟩ v.ordered := by
  rw [valueHash_ordered ⟨false, indent⟩ h, valueHash_ordered ⟨true, indent⟩ h]

theorem hashRoles_congr {o o' : HashOptions} {roles : List Entries}
    (h : ∀ role ∈ roles, valueHash o (.object role) = valueHash o' (.object role))
    (known : List (String × String)) : hashRoles o known roles = hashRoles o' known roles := by
  induction roles generalizing known with
  | nil => rfl
  | cons role rest ih =>
    rw [hashRoles, hashRoles, h role List.mem_cons_self]
    refine congrArg _ (funext fun hash => ?_)
    exact ih (fun role hrole => h role (List.mem_cons_of_mem _ hrole)) _

theorem isJson_roleDocuments (h : (Patch.snapshot g).IsJson) :
    ∀ d ∈ g.spec.roleDocuments, d.IsJson := by
  rw [Patch.snapshot_eq] at h
  cases h with
  | object _ h =>
  cases h _ List.mem_cons_self with
  | object _ h =>
  -- the roles are the last member of a snapshot
  cases h (field "roles" (.list g.spec.roleDocuments)) (by simp [Patch.overwriting]) with
  | list h => exact h

theorem roleHashes_sortKeys {room : Nat} (h : (Patch.snapshot g).Within .json room)
    (hraw : Patch.encodeSnapshot g = .ok raw) :
    roleHashes ⟨false, indent⟩ raw = roleHashes ⟨true, indent⟩ raw := by
  rw [roleHashes, roleHashes]
  split
  · rfl
  cases hdecode : Patch.Snapshot.decode raw with
  | error e => rfl
  | ok s =>
    rw [ok_bind, ok_bind]
    refine hashRoles_congr (fun role hrole => ?_) []
    obtain ⟨-, hroles⟩ := Patch.roles_of_decode h hraw hdecode
    rw [hroles] at hrole
    obtain ⟨r, hr, rfl⟩ := List.mem_map.mp hrole
    rw [← Value.ordered_object_eq, ← Role.document_eq]
    exact valueHash_ordered_sortKeys
      (isJson_roleDocuments (h.isJson trivial) _ (List.mem_map_of_mem hr))

end Digest

namespace Revision

/-- **Sorting keys makes no difference.**  Let a group be read from a document of JSON such that the
keys of labels, annotations and resources are texts, whatever the order of its members.  Then what
is built for it, under whatever number and with whatever indent, or why nothing is built, is the
same whether digests are taken with sorted keys or not. -/
theorem build_sortKeys {doc : Value} {room : Nat} {g : Group} (hdoc : doc.Within .json room)
    (hg : Group.ofDocument doc = .ok g) (hkeys : g.spec.hasTextKeys = true) (indent : Option Int)
    (n : Int) : build ⟨false, indent⟩ g n = build ⟨true, indent⟩ g n := by
  have hsnapshot := Patch.within_snapshot (hdoc.mono (Nat.le_add_right room 10)) hg fun _ => hkeys
  rw [build, build]
  cases hraw : Patch.encodeSnapshot g with
  | error e => rfl
  | ok raw =>
    rw [ok_bind, ok_bind, Digest.roleHashes_sortKeys hsnapshot hraw]
    rfl

def unsortedDocument : Value :=
  .object [
    field "spec" (.object [
      field "roles" (.list [.object [
        field "template" (.object [
          field "spec" (.object [field "containers" (.list [.object [
            field "tty" (.bool true), field "name" (.text "main"),
            field "lifecycle" (.object [field "preStop" (.int 5), field "postStart" (.int 1)])]])]),
          field "metadata" (.object [field "labels" (.object [
            field "tier" (.text "front"), field "app" (.text "web")])])]),
        field "name" (.text "leader")]])]),
    field "metadata" (.object [field "name" (.text "web")])]

theorem build_sortKeys_unsorted :
    ∃ g r, Group.ofDocument unsortedDocument = .ok g ∧ build ⟨false, some 2⟩ g 7 = .ok r ∧
      build ⟨true, some 2⟩ g 7 = .ok r := by
  have hfits : unsortedDocument.Fits (10 + 10) := ⟨rfl, by decide +kernel, by decide +kernel⟩
  have hread : ∃ g, Group.ofDocument unsortedDocument = .ok g ∧ g.spec.hasTextKeys = true ∧
      g.spec.isNamed = true := ⟨_, rfl, rfl, rfl⟩
  obtain ⟨g, hg, hkeys, hnamed⟩ := hread
  have hspec := Group.fits_spec_of_ofDocument hfits hg hkeys
  obtain ⟨raw, r, -, -, -, hbuild⟩ :=
    @exists_built _ _ ⟨true, some 2⟩ 7 hspec (by decide) hnamed
  have hnumber : Decimal.isExchangeable 7 = true := by decide +kernel
  rw [if_pos hnumber] at hbuild
  refine ⟨g, r, hg, ?_, hbuild⟩
  rw [build_sortKeys (.of_fits hfits) hg hkeys, hbuild]

end Revision

end RolloutLedger
