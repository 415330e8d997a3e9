import RolloutLedger.Patch.Snapshot
import RolloutLedger.Proofs.Patch.Strip
/-! # What a snapshot overwrites

A snapshot overwrites the roles of a document, overwrites or removes its policy, and leaves every
other member alone.  What it puts in place has lost its directives.
-/

namespace RolloutLedger.Patch

open Entries (field valueOr keysApart)

/-! ## Overwriting roles and policy -/

def overwriting (policy roles : Value) : Entries :=
  [(directiveKey, .text Directive.replace.text), field "podGroupPolicy" policy,
    field "roles" roles]

theorem snapshot_eq (g : Group) :
    snapshot g = .object [field "spec" (.object
      (overwriting (GangPolicy.documentOrNull g.spec.policy) (.list g.spec.roleDocuments)))] := rfl

/-- The members of a declaration with the roles put in and the policy put in, or taken out if there
is none. -/
def overwritten (policy roles : Value) (target : Entries) : Entries :=
  Entries.put (.text "roles") roles <|
    if policy.present?.isSome then Entries.put (.text "podGroupPolicy") policy target
    else Entries.drop (.text "podGroupPolicy") target

variable {policy roles : Value} {target : Entries}

theorem valueOr_roles_overwritten (d : Value) :
    valueOr (overwritten policy roles target) "roles" d = roles := by
  simp [valueOr, overwritten]

theorem valueOr_policy_overwritten (h : keysApart target = true) :
    valueOr (overwritten policy roles target) "podGroupPolicy" .null = policy := by
  cases policy <;> simp [valueOr, overwritten, Value.present?, Entries.get?_drop_self h]

theorem valueOr_other_overwritten {n : String} (hroles : "roles" ≠ n)
    (hpolicy : "podGroupPolicy" ≠ n) (d : Value) :
    valueOr (overwritten policy roles target) n d = valueOr target n d := by
  rw [valueOr, overwritten, Entries.get?_put, if_neg hroles, valueOr]
  split
  · rw [Entries.get?_put, if_neg hpolicy]
  · rw [Entries.get?_drop_of_ne hpolicy]

theorem membersOf_of_orEmpty {v : Value} {es : Entries} (h : v.orEmpty = .object es) :
    membersOf v = es := by
  rw [Value.orEmpty, Value.orElse] at h
  split at h
  · rename_i hblank
    rw [← Value.object.inj h]
    cases v with
    | object fs => exact List.isEmpty_iff.mp hblank
    | _ => rfl
  · rw [h]
    rfl

theorem directiveOf_eq_none {es : Entries} (h : ∀ p ∈ es, p.1 ≠ directiveKey) :
    directiveOf es = .ok none := by
  rw [directiveOf, Directive.ofEntries, directiveKey, Entries.get?_eq_none h]
  rfl

theorem removes_object {es : Entries} (h : ∀ p ∈ es, p.1 ≠ directiveKey) :
    removes (.object es) = .ok false := by
  rw [removes, directiveOf_eq_none h]
  rfl

theorem mergeMembers_overwriting {items : List Value}
    (hpolicy : policy = .null ∨ removes policy = .ok false) (target : Entries) :
    mergeMembers true target (overwriting policy (.list items)) =
      .ok (overwritten (strip policy) (.list (items.map strip)) target) := by
  have hroles : ∀ target, mergeMembers true target [field "roles" (.list items)] =
      .ok (Entries.put (.text "roles") (.list (items.map strip)) target) := by
    intro target
    rw [field, mergeMembers, if_neg (by decide), strip_list]
    rfl
  rw [overwriting, mergeMembers, if_pos (by rfl), field, mergeMembers, if_neg (by decide)]
  by_cases hnull : policy = .null
  -- null takes the policy out of the declaration, everything else is put in
  · rw [hnull]
    exact hroles _
  · have hpresent : (strip policy).present?.isSome = true := by
      cases policy <;> first | rfl | exact absurd rfl hnull
    rw [hpolicy.resolve_left hnull, overwritten, if_pos hpresent]
    exact hroles _

/-- **What applying a snapshot gives.**  The declaration in the document is overwritten, and all
else stays as it is. -/
theorem apply_overwriting {es : Entries} {items : List Value}
    (hpolicy : policy = .null ∨ removes policy = .ok false) :
    apply (.object es) (.object [field "spec" (.object (overwriting policy (.list items)))]) =
      .ok (.object (Entries.put (.text "spec") (.object (overwritten (strip policy)
        (.list (items.map strip)) (membersOf (valueOr es "spec" .null)))) es)) := by
  have hreplace : directiveOf (overwriting policy (.list items)) = .ok (some .replace) := rfl
  have hnone : ∀ v, directiveOf [field "spec" v] = .ok none := fun _ => rfl
  have hspec : mergeMembers false es
      [field "spec" (.object (overwriting policy (.list items)))] =
        .ok (Entries.put (.text "spec") (.object (overwritten (strip policy)
          (.list (items.map strip)) (membersOf (valueOr es "spec" .null)))) es) := by
    rw [field, mergeMembers, if_neg (by decide), removes, hreplace, merge, hreplace, ok_bind,
      show ((some Directive.replace == some Directive.replace) = true) from rfl,
      mergeMembers_overwriting hpolicy]
    rfl
  rw [apply, hnone, ok_bind, if_neg (by decide), merge, hnone, ok_bind]
  show (do return Value.object (← mergeMembers false es _) : Except PatchFault Value) = _
  rw [hspec]
  rfl

end Patch

end RolloutLedger
