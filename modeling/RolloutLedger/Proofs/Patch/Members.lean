import RolloutLedger.Proofs.Patch.Strip
/-! # What a patch does to one member

A patch goes through its members one after the other and either sets the member of its target with
that name or takes it out.  Which of the two, and what is set, depends on what the target held under
this name and on nothing else (`memberUnder`).  So as long as no name stands twice, the patched
members can be looked up without following the patch: a name that the patch has is looked up to
what the patch makes of the member, and every other name to what was there.

If the target holds under every name what the patch would make of it, then the patch changes
nothing.
-/

namespace RolloutLedger

/-! ## Setting a member or taking it out -/

namespace Entries

/-- The members with the one of this key set, or taken out. -/
def assign (k : Key) : Option Value → Entries → Entries
  | some v => put k v
  | none => drop k

variable {k : Key} {n m : String} {es : Entries} {held : Option Value}

theorem get?_assign (h : keysApart es = true) :
    get? (.text n) (assign (.text m) held es) = if m = n then held else get? (.text n) es := by
  cases held with
  | some v => exact get?_put n m v es
  | none =>
    rw [assign]
    by_cases hm : m = n
    · rw [if_pos hm, hm, get?_drop_self h]
    · rw [if_neg hm, get?_drop_of_ne hm es]

theorem keysApart_assign (h : keysApart es = true) :
    keysApart (assign (.text m) held es) = true := by
  cases held with
  | some v => exact keysApart_put h
  | none => exact keysApart_drop h

theorem assign_eq_self (h : get? k es = held) : assign k held es = es := by
  cases held with
  | some v => exact put_eq_self h
  | none => exact drop_eq_self h

end Entries

namespace Patch

variable {replaces : Bool} {target es fs : Entries} {k : Key} {n : String}

/-! ## One member -/

/-- What is held under a name once a patch has given a value for it. -/
def memberUnder (replaces : Bool) (held : Option Value) (v : Value) :
    Except PatchFault (Option Value) := do
  if ← removes v then return none
  else if replaces then return some (strip v)
  else return some (← merge (held.getD .null) v)

theorem mergeMembers_directive (replaces : Bool) (target : Entries) (v : Value) (rest : Entries) :
    mergeMembers replaces target ((directiveKey, v) :: rest) =
      mergeMembers replaces target rest := by
  rw [mergeMembers, if_pos (by decide)]

/-- **One step of a patch.** -/
theorem mergeMembers_cons (hk : k ≠ directiveKey) (replaces : Bool) (target : Entries) (v : Value)
    (rest : Entries) :
    mergeMembers replaces target ((k, v) :: rest) =
      memberUnder replaces (Entries.get? k target) v >>= fun held =>
        mergeMembers replaces (Entries.assign k held target) rest := by
  rw [mergeMembers, if_neg (mt same_directiveKey_iff.mp hk), memberUnder]
  cases removes v with
  | error fault => rfl
  | ok gone =>
    cases gone with
    | true => rfl
    | false =>
      cases replaces with
      | true => rfl
      | false =>
        rw [ok_bind, ok_bind]
        cases merge ((Entries.get? k target).getD .null) v <;> rfl

/-! ## All members -/

/-- **What is looked up after a patch.**  A name that the patch has is looked up to what the patch
makes of it, and every other one to what it was looked up to before. -/
theorem get?_of_mergeMembers (hes : Entries.keysApart es = true)
    (htarget : Entries.keysApart target = true) (h : mergeMembers replaces target es = .ok fs)
    (hn : Key.text n ≠ directiveKey) :
    (∀ v, Entries.get? (.text n) es = some v →
      memberUnder replaces (Entries.get? (.text n) target) v = .ok (Entries.get? (.text n) fs)) ∧
    (Entries.get? (.text n) es = none →
      Entries.get? (.text n) fs = Entries.get? (.text n) target) := by
  induction es generalizing target with
  | nil =>
    rw [mergeMembers] at h
    cases h
    exact ⟨fun v hv => (nomatch hv), fun _ => rfl⟩
  | cons p rest ih =>
    obtain ⟨k, v⟩ := p
    have hrest := Entries.keysApart_tail hes
    by_cases hk : k = directiveKey
    · rw [hk, mergeMembers_directive] at h
      rw [Entries.get?_cons, if_neg (hk ▸ hn.symm)]
      exact ih hrest htarget h
    obtain ⟨m, rfl⟩ := Entries.text_of_keysApart hes List.mem_cons_self
    rw [mergeMembers_cons hk] at h
    obtain ⟨held, hheld, h⟩ := bind_eq_ok_iff.mp h
    obtain ⟨hsome, hnone⟩ := ih hrest (Entries.keysApart_assign htarget) h
    rw [Entries.get?_assign htarget] at hsome hnone
    rw [Entries.get?_cons]
    by_cases hm : m = n
    · subst hm
      rw [if_pos rfl] at hnone ⊢
      refine ⟨fun w hw => ?_, fun hw => nomatch hw⟩
      cases hw
      rw [hnone (Entries.get?_tail_eq_none hes rfl)]
      exact hheld
    · rw [if_neg hm] at hsome hnone
      rw [if_neg fun hkey => hm (Key.text.inj hkey)]
      exact ⟨hsome, hnone⟩

/-- A patch that would leave every member as it is changes nothing. -/
theorem mergeMembers_eq_self
    (h : ∀ p ∈ es, p.1 ≠ directiveKey →
      memberUnder replaces (Entries.get? p.1 target) p.2 = .ok (Entries.get? p.1 target)) :
    mergeMembers replaces target es = .ok target := by
  induction es with
  | nil => rw [mergeMembers]
  | cons p rest ih =>
    obtain ⟨k, v⟩ := p
    obtain ⟨hhead, hrest⟩ := List.forall_mem_cons.mp h
    by_cases hk : k = directiveKey
    · rw [hk, mergeMembers_directive, ih hrest]
    · rw [mergeMembers_cons hk, hhead hk, ok_bind, Entries.assign_eq_self rfl, ih hrest]

/-! ## Whole values -/

theorem merge_object (target : Value) (es : Entries) :
    merge target (.object es) = directiveOf es >>= fun directive =>
      (mergeMembers (directive == some .replace) (membersOf target) es).map Value.object := by
  rw [merge]
  cases directiveOf es with
  | error fault => rfl
  | ok directive =>
    rw [ok_bind, ok_bind]
    cases mergeMembers (directive == some .replace) (membersOf target) es <;> rfl

theorem merge_other (target : Value) {patch : Value} (h : ∀ es, patch ≠ .object es) :
    merge target patch = .ok (strip patch) := by
  cases patch with
  | object es => exact absurd rfl (h es)
  | _ => rfl

theorem apply_object (document : Value) (es : Entries) :
    apply document (.object es) = directiveOf es >>= fun directive =>
      if directive == some .delete then .error .deletesDocument
      else merge document (.object es) := by
  rw [apply]
  cases directiveOf es with
  | error fault => rfl
  | ok directive =>
    rw [ok_bind, ok_bind]
    split <;> rfl

end Patch

end RolloutLedger
