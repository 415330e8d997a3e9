import RolloutLedger.Proofs.Patch.Members
import RolloutLedger.Proofs.Patch.Merge
/-! # Merge patches

The merge patches of RFC 7386 know no directives.  A patch that is an object merges its members
into the target one after the other, where a target that is no object counts as an empty one: null
takes a member out, and any other value is merged into what the target has there.  A patch that is
no object takes the place of the target as it is.

A patch without directives does the same: no map in it asks for anything, and a value that loses
its directives stays what it was.
-/

namespace RolloutLedger.Patch

open Entries (field keysApart)

variable {es target : Entries} {n : String} {v patch : Value}

/-! ## The reference -/

mutual

/-- The target with a merge patch applied. -/
def mergePatch (target : Value) : Value → Value
  | .object es => .object (mergePatchMembers (membersOf target) es)
  | patch => patch
termination_by structural patch => patch

/-- The members of a target with those of a merge patch applied, one after the other. -/
def mergePatchMembers (target : Entries) : List (Key × Value) → Entries
  | [] => target
  | (k, .null) :: rest => mergePatchMembers (Entries.drop k target) rest
  | (k, v) :: rest =>
    let merged := mergePatch ((Entries.get? k target).getD .null) v
    mergePatchMembers (Entries.put k merged target) rest
termination_by structural es => es

end

theorem mergePatch_other (target : Value) (h : ∀ es, patch ≠ .object es) :
    mergePatch target patch = patch := by
  cases patch with
  | object es => exact absurd rfl (h es)
  | _ => rfl

def patched (held : Option Value) : Value → Option Value
  | .null => none
  | v => some (mergePatch (held.getD .null) v)

theorem mergePatchMembers_cons (target : Entries) (k : Key) (v : Value) (rest : Entries) :
    mergePatchMembers target ((k, v) :: rest) =
      mergePatchMembers (Entries.assign k (patched (Entries.get? k target) v) target) rest := by
  cases v <;> rfl

/-- **What a merge patch says of a name.**  A name that the patch does not give keeps its value, and
what becomes of the others does not depend on the order of the members. -/
theorem get?_mergePatchMembers (hes : keysApart es = true) (htarget : keysApart target = true) :
    Entries.get? (.text n) (mergePatchMembers target es) =
      match Entries.get? (.text n) es with
      | none => Entries.get? (.text n) target
      | some v => patched (Entries.get? (.text n) target) v := by
  induction es generalizing target with
  | nil => rfl
  | cons p rest ih =>
    obtain ⟨k, v⟩ := p
    obtain ⟨m, rfl⟩ := Entries.text_of_keysApart hes List.mem_cons_self
    rw [mergePatchMembers_cons, ih (Entries.keysApart_tail hes) (Entries.keysApart_assign htarget),
      Entries.get?_assign htarget, Entries.get?_cons]
    by_cases hm : m = n
    · subst hm
      rw [Entries.get?_tail_eq_none hes rfl, if_pos rfl, if_pos rfl]
    · rw [if_neg hm, if_neg fun hkey => hm (Key.text.inj hkey)]

/-! ## Patches without directives -/

theorem removes_eq_false (hv : v ≠ .null) (hfree : isDirectiveFree v = true) :
    removes v = .ok false := by
  cases v with
  | null => exact absurd rfl hv
  | object es => exact removes_object fun p hp => (isDirectiveFree_object_iff.mp hfree p hp).1
  | _ => rfl

theorem memberUnder_eq_patched (hfree : isDirectiveFree v = true)
    (hv : ∀ target, merge target v = .ok (mergePatch target v)) (held : Option Value) :
    memberUnder false held v = .ok (patched held v) := by
  by_cases hnull : v = .null
  · rw [hnull]
    rfl
  · have hpatched : patched held v = some (mergePatch (held.getD .null) v) := by
      rw [patched]
      exact hnull
    rw [memberUnder, removes_eq_false hnull hfree, hpatched, hv]
    rfl

theorem mergeMembers_eq_mergePatchMembers
    (hfree : ∀ p ∈ es, p.1 ≠ directiveKey ∧ isDirectiveFree p.2 = true)
    (hes : ∀ p ∈ es, ∀ target, merge target p.2 = .ok (mergePatch target p.2))
    (target : Entries) :
    mergeMembers false target es = .ok (mergePatchMembers target es) := by
  induction es generalizing target with
  | nil => rfl
  | cons p rest ih =>
    obtain ⟨k, v⟩ := p
    obtain ⟨⟨hk, hv⟩, hrest⟩ := List.forall_mem_cons.mp hfree
    obtain ⟨hmerge, hmerges⟩ := List.forall_mem_cons.mp hes
    rw [mergeMembers_cons hk, memberUnder_eq_patched hv hmerge, ok_bind, ih hrest hmerges,
      mergePatchMembers_cons]

/-- A value that is no object loses no directives and takes the place of the target. -/
theorem merge_eq_mergePatch_other (hobject : ∀ es, v ≠ .object es)
    (hfree : isDirectiveFree v = true) (target : Value) :
    merge target v = .ok (mergePatch target v) := by
  rw [merge_other target hobject, strip_eq_self hfree, mergePatch_other target hobject]

theorem merge_eq_mergePatch (hfree : isDirectiveFree patch = true) (target : Value) :
    merge target patch = .ok (mergePatch target patch) := by
  induction patch using Value.induction generalizing target with
  | list items _ => exact merge_eq_mergePatch_other (fun _ => Value.noConfusion) hfree target
  | object es ih =>
    have hmembers := isDirectiveFree_object_iff.mp hfree
    have hmerge : ∀ p ∈ es, ∀ target, merge target p.2 = .ok (mergePatch target p.2) :=
      fun p hp => ih p hp (hmembers p hp).2
    rw [merge_object, directiveOf_eq_none fun p hp => (hmembers p hp).1, ok_bind, mergePatch,
      show ((none : Option Directive) == some .replace) = false from rfl,
      mergeMembers_eq_mergePatchMembers hmembers hmerge]
    rfl
  | other v _ hobject => exact merge_eq_mergePatch_other hobject hfree target

/-- **A patch without directives is a merge patch.**  It can be applied to every document, and makes
of it what RFC 7386 says. -/
theorem apply_eq_mergePatch (hfree : isDirectiveFree (.object es) = true) (document : Value) :
    apply document (.object es) = .ok (mergePatch document (.object es)) := by
  have hnone : directiveOf es = .ok none :=
    directiveOf_eq_none fun p hp => (isDirectiveFree_object_iff.mp hfree p hp).1
  rw [apply_object, hnone, ok_bind, if_neg (by decide)]
  exact merge_eq_mergePatch hfree document

/-- The members of a patch that takes one member out, keeps a null inside a list, and merges maps
into a text, a list and nothing. -/
def sparseMembers : Entries :=
  [field "owner" .null, field "ports" (.list [.null, .int 80]),
    field "spec" (.object [field "name" .null,
      field "image" (.object [field "tag" (.text "v2"), field "pin" .null])]),
    field "status" (.object [field "ready" (.bool true)]), field "labels" (.object [])]

def mixedDocument : Value :=
  .object [field "owner" (.int 7), field "ports" (.object [field "http" (.int 80)]),
    field "spec" (.object [field "name" (.text "web"), field "image" (.text "v1"),
      field "size" (.int 3)]),
    field "status" (.list [.bool false])]

theorem apply_eq_mergePatch_mixed :
    isDirectiveFree (.object sparseMembers) = true ∧
      apply mixedDocument (.object sparseMembers) = .ok (.object [
        field "ports" (.list [.null, .int 80]),
        field "spec" (.object [field "image" (.object [field "tag" (.text "v2")]),
          field "size" (.int 3)]),
        field "status" (.object [field "ready" (.bool true)]), field "labels" (.object [])]) := by
  have hfree : isDirectiveFree (.object sparseMembers) = true := by decide
  exact ⟨hfree, (apply_eq_mergePatch hfree mixedDocument).trans rfl⟩

end RolloutLedger.Patch
