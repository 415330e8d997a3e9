import RolloutLedger.Proofs.Document.Within
import RolloutLedger.Proofs.Patch.Members
/-! # What patches do to documents

Whether a patch can be applied is decided by its directives, and every one of them is read whatever
the document holds.  So a patch fails on all documents alike.

Where it succeeds, a name that the patch gives is looked up to what the patch makes of it, so
applying the patch again makes the same of it once more.

And what a patch puts into a document has lost its directives on each of the ways it can get there:
as a member of a map that was merged, or stripped as a whole.
-/

namespace RolloutLedger.Patch

open Entries (field)
open Value (Within)

variable {replaces : Bool} {es target fs : Entries} {held held' : Option Value} {v patch : Value}
  {room room' : Nat}

/-! ## Which patches fail -/

theorem failAlike_memberUnder (h : ∀ target other, FailAlike (merge target v) (merge other v))
    (held held' : Option Value) :
    FailAlike (memberUnder replaces held v) (memberUnder replaces held' v) := by
  rw [memberUnder, memberUnder]
  refine .bind_same (removes v) fun gone => ?_
  cases gone with
  | true => exact .of_ok none none
  | false =>
    cases replaces with
    | true => exact .refl _
    | false => exact (h _ _).bind fun w w' => .of_ok (some w) (some w')

theorem failAlike_mergeMembers
    (h : ∀ p ∈ es, ∀ target other, FailAlike (merge target p.2) (merge other p.2))
    (target other : Entries) :
    FailAlike (mergeMembers replaces target es) (mergeMembers replaces other es) := by
  induction es generalizing target other with
  | nil =>
    rw [mergeMembers, mergeMembers]
    exact .of_ok target other
  | cons p rest ih =>
    obtain ⟨k, v⟩ := p
    obtain ⟨hhead, hrest⟩ := List.forall_mem_cons.mp h
    by_cases hk : k = directiveKey
    · rw [hk, mergeMembers_directive, mergeMembers_directive]
      exact ih hrest target other
    · rw [mergeMembers_cons hk, mergeMembers_cons hk]
      exact (failAlike_memberUnder hhead _ _).bind fun held held' => ih hrest _ _

theorem failAlike_merge (patch target other : Value) :
    FailAlike (merge target patch) (merge other patch) := by
  induction patch using Value.induction generalizing target other with
  | list items _ => exact .refl _
  | object es ih =>
    rw [merge_object, merge_object]
    exact .bind_same (directiveOf es) fun directive =>
      (failAlike_mergeMembers ih (membersOf target) (membersOf other)).map _ _
  | other v _ hobject =>
    rw [merge_other target hobject, merge_other other hobject]
    exact .refl _

/-- **A patch fails on every document or on none.** -/
theorem failAlike_apply (patch document other : Value) :
    FailAlike (apply document patch) (apply other patch) := by
  cases patch with
  | object es =>
    rw [apply_object, apply_object]
    refine .bind_same (directiveOf es) fun directive => ?_
    split
    · exact .of_error _
    · exact failAlike_merge (.object es) document other
  | _ => exact .refl _

/-! ## Applying a patch twice -/

/-- What a member became stays as it is under the same value. -/
theorem memberUnder_again
    (hv : ∀ result, merge (held.getD .null) v = .ok result → merge result v = .ok result)
    (h : memberUnder replaces held v = .ok held') :
    memberUnder replaces held' v = .ok held' := by
  rw [memberUnder] at h ⊢
  obtain ⟨gone, hgone, h⟩ := bind_eq_ok_iff.mp h
  rw [hgone, ok_bind]
  cases gone with
  | true => exact h
  | false =>
    cases replaces with
    | true => exact h
    | false =>
      obtain ⟨result, hresult, h⟩ := bind_eq_ok_iff.mp h
      cases h
      exact bind_eq_ok_iff.mpr ⟨result, hv result hresult, rfl⟩

theorem within_membersOf {target : Value} (h : target.Within .json room) :
    (Value.object (membersOf target)).Within .json (room + 1) := by
  have hnone : (Value.object []).Within .json (room + 1) :=
    .object (.of_keysApart rfl) fun _ hp => absurd hp List.not_mem_nil
  cases h with
  | object keys h => exact (Within.object keys h).mono (Nat.le_succ _)
  | list _ => exact hnone
  | scalar h => cases h <;> exact hnone

theorem merge_again {target result : Value} (hpatch : patch.Within .json room)
    (htarget : target.Within .json room') (h : merge target patch = .ok result) :
    merge result patch = .ok result := by
  induction hpatch generalizing target result with
  | scalar hscalar =>
    cases hscalar <;> exact h
  | list _ => exact h
  | @object _ es keys _ ih =>
    have hes := keys.apart trivial
    have hwithin := within_membersOf htarget
    have hmembers := (Within.object_iff.mp hwithin).1.apart trivial
    rw [merge_object] at h ⊢
    obtain ⟨directive, hdirective, h⟩ := bind_eq_ok_iff.mp h
    obtain ⟨fs, hfs, h⟩ := map_eq_ok_iff.mp h
    subst h
    rw [hdirective, ok_bind, membersOf]
    -- every member of the patch finds what it made of the target
    have hagain : mergeMembers (directive == some .replace) fs es = .ok fs := by
      refine mergeMembers_eq_self fun p hp hkey => ?_
      obtain ⟨n, hn⟩ := Entries.text_of_keysApart hes hp
      rw [hn] at hkey ⊢
      have hgiven : Entries.get? (.text n) es = some p.2 := Entries.get?_of_mem hes (hn ▸ hp)
      have hmember := (get?_of_mergeMembers hes hmembers hfs hkey).1 _ hgiven
      exact memberUnder_again (fun _ => ih p hp (hwithin.valueOr n .null)) hmember
    rw [hagain]
    rfl

/-- **Applying a patch.**  Whether a patch fails, and how, does not depend on the document, and a
document to which it was applied stays as it is when it is applied again. -/
theorem apply_apply {document : Value} (hpatch : patch.Within .json room)
    (hdocument : document.Within .json room') (other : Value) :
    FailAlike (apply document patch) (apply other patch) ∧
      ∀ result, apply document patch = .ok result → apply result patch = .ok result := by
  refine ⟨failAlike_apply patch document other, fun result h => ?_⟩
  cases patch with
  | object es =>
    rw [apply_object] at h ⊢
    obtain ⟨directive, hdirective, h⟩ := bind_eq_ok_iff.mp h
    rw [hdirective, ok_bind]
    split at h
    · exact nomatch h
    · rw [if_neg ‹_›]
      exact merge_again hpatch hdocument h
  | _ => exact nomatch h

/-- A patch with every kind of directive: it overwrites one map, deletes another, and merges a third
one, which names no directive for its labels. -/
def layeredPatch : Value :=
  .object [
    field "spec" (.object [(directiveKey, .text "replace"),
      field "roles" (.list [.object [(directiveKey, .text "merge"), field "name" (.text "web")]])]),
    field "status" (.object [(directiveKey, .text "delete")]),
    field "metadata" (.object [(directiveKey, .text "merge"), field "owner" .null,
      field "labels" (.object [(directiveKey, .null), field "tier" (.int 1)])])]

def flatDocument : Value :=
  .object [field "spec" (.list [.int 1]), field "status" (.text "ready")]

theorem apply_apply_layered :
    FailAlike (apply flatDocument layeredPatch) (apply .null layeredPatch) ∧
      ∃ result, apply flatDocument layeredPatch = .ok result ∧
        apply result layeredPatch = .ok result := by
  have hpatch : layeredPatch.Within .json layeredPatch.depth := Within.of_isPlain (by decide)
  have hdocument : flatDocument.Within .json flatDocument.depth := Within.of_isPlain (by decide)
  obtain ⟨halike, hagain⟩ := apply_apply hpatch hdocument .null
  obtain ⟨result, h⟩ : ∃ result, apply flatDocument layeredPatch = .ok result := ⟨_, rfl⟩
  exact ⟨halike, result, h, hagain result h⟩

/-! ## What becomes of directives -/

theorem isDirectiveFree_assign {k : Key} (hk : k ≠ directiveKey)
    (htarget : isDirectiveFree (.object target) = true)
    (hheld : ∀ v, held = some v → isDirectiveFree v = true) :
    isDirectiveFree (.object (Entries.assign k held target)) = true := by
  rw [isDirectiveFree_object_iff] at htarget ⊢
  intro q hq
  cases held with
  | none => exact htarget q ((Entries.drop_sublist k target).subset hq)
  | some v =>
    constructor
    · rcases Entries.key_of_mem_put hq with hkey | ⟨w, hw⟩
      · exact hkey ▸ hk
      · exact (htarget _ hw).1
    · rcases Entries.mem_of_mem_put hq with hvalue | hq
      · exact hvalue ▸ hheld v rfl
      · exact (htarget q hq).2

/-- Merging a value into whatever has no directives leaves none. -/
def LeavesNone (v : Value) : Prop :=
  ∀ target result, isDirectiveFree target = true → merge target v = .ok result →
    isDirectiveFree result = true

theorem isDirectiveFree_memberUnder (hv : LeavesNone v)
    (hheld : isDirectiveFree (held.getD .null) = true)
    (h : memberUnder replaces held v = .ok held') :
    ∀ w, held' = some w → isDirectiveFree w = true := by
  rintro w rfl
  rw [memberUnder] at h
  obtain ⟨gone, -, h⟩ := bind_eq_ok_iff.mp h
  cases gone with
  | true => cases h
  | false =>
    cases replaces with
    | true =>
      cases h
      exact isDirectiveFree_strip v
    | false =>
      obtain ⟨result, hresult, h⟩ := bind_eq_ok_iff.mp h
      cases h
      exact hv _ _ hheld hresult

theorem isDirectiveFree_getD_get? (k : Key) (h : isDirectiveFree (.object target) = true) :
    isDirectiveFree ((Entries.get? k target).getD .null) = true := by
  cases hget : Entries.get? k target with
  | none => rfl
  | some w =>
    obtain ⟨p, hp, rfl⟩ := Entries.exists_mem_of_get? hget
    exact (isDirectiveFree_object_iff.mp h p hp).2

theorem isDirectiveFree_mergeMembers (hes : ∀ p ∈ es, LeavesNone p.2)
    (htarget : isDirectiveFree (.object target) = true)
    (h : mergeMembers replaces target es = .ok fs) : isDirectiveFree (.object fs) = true := by
  induction es generalizing target with
  | nil =>
    rw [mergeMembers] at h
    cases h
    exact htarget
  | cons p rest ih =>
    obtain ⟨k, v⟩ := p
    obtain ⟨hhead, hrest⟩ := List.forall_mem_cons.mp hes
    by_cases hk : k = directiveKey
    · rw [hk, mergeMembers_directive] at h
      exact ih hrest htarget h
    · rw [mergeMembers_cons hk] at h
      obtain ⟨held, hheld, h⟩ := bind_eq_ok_iff.mp h
      have hmember := isDirectiveFree_memberUnder hhead (isDirectiveFree_getD_get? k htarget) hheld
      exact ih hrest (isDirectiveFree_assign hk htarget hmember) h

theorem leavesNone (patch : Value) : LeavesNone patch := by
  induction patch using Value.induction with
  | list items _ =>
    intro target result _ h
    cases h
    exact isDirectiveFree_strip _
  | object es ih =>
    intro target result htarget h
    rw [merge_object] at h
    obtain ⟨directive, -, h⟩ := bind_eq_ok_iff.mp h
    obtain ⟨fs, hfs, rfl⟩ := map_eq_ok_iff.mp h
    have hmembers : isDirectiveFree (.object (membersOf target)) = true := by
      cases target with
      | object ts => exact htarget
      | _ => rfl
    exact isDirectiveFree_mergeMembers ih hmembers hfs
  | other v _ hobject =>
    intro target result _ h
    rw [merge_other target hobject] at h
    cases h
    exact isDirectiveFree_strip _

/-- **Directives stay in the patch.**  A document without directives has none after any patch that
could be applied to it. -/
theorem isDirectiveFree_of_apply {document result : Value}
    (hdocument : isDirectiveFree document = true) (h : apply document patch = .ok result) :
    isDirectiveFree result = true := by
  cases patch with
  | object es =>
    rw [apply_object] at h
    obtain ⟨directive, -, h⟩ := bind_eq_ok_iff.mp h
    split at h
    · exact nomatch h
    · exact leavesNone (.object es) document result hdocument h
  | _ => exact nomatch h

theorem isDirectiveFree_of_apply_layered :
    isDirectiveFree layeredPatch = false ∧ ∃ result,
      apply flatDocument layeredPatch = .ok result ∧ isDirectiveFree result = true := by
  have hdocument : isDirectiveFree flatDocument = true := by decide
  obtain ⟨result, h⟩ : ∃ result, apply flatDocument layeredPatch = .ok result := ⟨_, rfl⟩
  exact ⟨by decide, result, h, isDirectiveFree_of_apply hdocument h⟩

end RolloutLedger.Patch
