import RolloutLedger.Proofs.Document.Misreading
import RolloutLedger.Proofs.Revision.Build
/-! # What restoring fails with

Restoring declares that it fails when the live group cannot be encoded, when a document cannot be
decoded, and when a patch cannot be applied.  Apart from the limits of the decoder, to digits and to
nesting, one failure escapes this contract: a number or a time out of range.  It has two sources, a
live group whose creation time has no form on the wire, and an infinite double where the patched
document should have an integer.
-/

namespace RolloutLedger

/-- A group whose creation time lies outside the calendar of universal time. -/
def Group.IsUndatable (g : Group) : Prop :=
  ∃ t, g.metadata.created = some t ∧ t.wireText? = none

theorem Group.document_error {g : Group} {e : Error} (h : g.document = .error e) :
    g.IsUndatable ∧ e = .outOfRange := by
  unfold Group.document Metadata.document at h
  cases hcreated : Metadata.createdText g.metadata.created with
  | ok created =>
    rw [hcreated] at h
    cases h
  | error e' =>
    rw [hcreated] at h
    cases h
    unfold Metadata.createdText at hcreated
    split at hcreated
    · cases hcreated
    · rename_i t ht
      split at hcreated
      · cases hcreated
      · cases hcreated
        exact ⟨⟨t, ht, by assumption⟩, rfl⟩

theorem Group.IsUndatable.document {g : Group} (h : g.IsUndatable) :
    g.document = .error .outOfRange := by
  obtain ⟨t, hcreated, hwire⟩ := h
  unfold Group.document Metadata.document Metadata.createdText
  rw [hcreated]
  dsimp only
  rw [hwire]
  rfl

/-! ## Infinite numbers are not accepted -/

section Infinite

theorem Value.IsInfinite.optional {v : Value} (h : v.IsInfinite) :
    v.optional Value.toInteger = .error .outOfRange := by
  obtain ⟨negative, rfl⟩ := h
  rfl

theorem Role.AsksInfinity.ne_ok {doc : Value} (h : Role.AsksInfinity doc) (r : Role) :
    Role.ofDocument doc ≠ .ok r := by
  intro hread
  obtain ⟨v, hmember, hinfinite⟩ := h
  unfold Role.ofDocument at hread
  obtain ⟨replicas, hreplicas, hread⟩ := bind_eq_ok_iff.mp hread
  cases hmember.symm.trans hreplicas
  obtain ⟨name, -, hread⟩ := bind_eq_ok_iff.mp hread
  obtain ⟨count, hcount, -⟩ := bind_eq_ok_iff.mp hread
  rw [hinfinite.optional] at hcount
  cases hcount

theorem Metadata.AsksInfinity.ne_ok {doc : Value} (h : Metadata.AsksInfinity doc) (m : Metadata) :
    Metadata.ofDocument doc ≠ .ok m := by
  intro hread
  obtain ⟨v, hmember, hinfinite⟩ := h
  unfold Metadata.ofDocument at hread
  -- what is read before the generation
  iterate 3 obtain ⟨_, -, hread⟩ := bind_eq_ok_iff.mp hread
  iterate 4
    obtain ⟨_, -, hread⟩ := bind_eq_ok_iff.mp hread
    obtain ⟨_, -, hread⟩ := bind_eq_ok_iff.mp hread
  obtain ⟨_, -, hread⟩ := bind_eq_ok_iff.mp hread
  obtain ⟨generation, hgeneration, hread⟩ := bind_eq_ok_iff.mp hread
  cases hmember.symm.trans hgeneration
  obtain ⟨n, hn, -⟩ := bind_eq_ok_iff.mp hread
  obtain ⟨negative, rfl⟩ := hinfinite
  cases hn

theorem GroupSpec.AsksInfinity.ne_ok {doc : Value} (h : GroupSpec.AsksInfinity doc)
    (s : GroupSpec) : GroupSpec.ofDocument doc ≠ .ok s := by
  intro hread
  unfold GroupSpec.ofDocument at hread
  obtain ⟨limit, hlimit, hread⟩ := bind_eq_ok_iff.mp hread
  obtain ⟨v, hv, hread⟩ := bind_eq_ok_iff.mp hread
  obtain ⟨docs, hdocs, hread⟩ := bind_eq_ok_iff.mp hread
  obtain ⟨roles, hroles, hread⟩ := bind_eq_ok_iff.mp hread
  cases h with
  | history member infinite =>
    cases member.symm.trans hlimit
    iterate 2 obtain ⟨_, -, hread⟩ := bind_eq_ok_iff.mp hread
    obtain ⟨n, hn, -⟩ := bind_eq_ok_iff.mp hread
    rw [infinite.optional] at hn
    cases hn
  | role member items mem infinite =>
    cases member.symm.trans hv
    cases items.symm.trans hdocs
    obtain ⟨r, hr⟩ := exists_of_mem_of_mapM_eq_ok hroles _ mem
    exact infinite.ne_ok r hr

theorem Group.AsksInfinity.ne_ok {doc : Value} (h : Group.AsksInfinity doc) (g : Group) :
    Group.ofDocument doc ≠ .ok g := by
  intro hread
  unfold Group.ofDocument at hread
  obtain ⟨metadata, hmetadata, hread⟩ := bind_eq_ok_iff.mp hread
  obtain ⟨m, hm, hread⟩ := bind_eq_ok_iff.mp hread
  obtain ⟨spec, hspec, hread⟩ := bind_eq_ok_iff.mp hread
  obtain ⟨s, hs, -⟩ := bind_eq_ok_iff.mp hread
  rcases h with ⟨v, hv, h⟩ | ⟨v, hv, h⟩
  · cases hv.symm.trans hmetadata
    exact h.ne_ok m hm
  · cases hv.symm.trans hspec
    exact h.ne_ok s hs

end Infinite

namespace Revision

/-! ## The contract -/

inductive RestoreFailure : Error → Prop
  | unencodable : RestoreFailure .unencodable
  | undecodable : RestoreFailure .undecodable
  | noPatchData (name : String) : RestoreFailure (.noPatchData name)
  | notAGroup : RestoreFailure .notAGroup
  | patch (cause : PatchFault) : RestoreFailure (.patch cause)

/-- What restoring fails with besides, and why. -/
inductive Escape (live : Group) (r : Revision) : Error → Prop
  | undatable (h : live.IsUndatable) : Escape live r .outOfRange
  | infinite {stored patch patched : Value} (storing : storedDocument live = .ok stored)
    (reading : r.patch = .ok patch) (applying : Patch.apply stored patch = .ok patched)
    (h : Group.AsksInfinity patched) : Escape live r .outOfRange
  /-- The text of the live group, or of the revision, has too many digits or levels. -/
  | limit {raw : Bytes} {e : Error}
    (source : raw = r.data.bytes ∨ ∃ doc, live.document = .ok doc ∧ Json.encode doc = .ok raw)
    (decoding : Json.decode raw = .error e) (h : e = .unreadable ∨ e = .tooDeep) :
    Escape live r e

section Contract

variable {live : Group} {r : Revision} {e : Error}

theorem failure_of_decode {raw : Bytes}
    (source : raw = r.data.bytes ∨ ∃ doc, live.document = .ok doc ∧ Json.encode doc = .ok raw)
    (h : Json.decode raw = .error e) : RestoreFailure e ∨ Escape live r e := by
  cases (Json.meets_decode raw).of_error h with
  | undecodable => exact Or.inl .undecodable
  | unreadable => exact Or.inr (.limit source h (Or.inl rfl))
  | tooDeep => exact Or.inr (.limit source h (Or.inr rfl))

theorem failure_of_storedDocument (h : storedDocument live = .error e) :
    RestoreFailure e ∨ Escape live r e := by
  unfold storedDocument at h
  cases hdocument : live.document with
  | error e' =>
    rw [hdocument] at h
    cases h
    obtain ⟨hundatable, rfl⟩ := Group.document_error hdocument
    exact Or.inr (.undatable hundatable)
  | ok doc =>
    rw [hdocument, ok_bind] at h
    cases hraw : Json.encode doc with
    | error e' =>
      rw [hraw] at h
      cases h
      have hwritten : Json.IsWritten (Json.encode doc) :=
        (Json.isWritten_write .stored false 0 doc (Or.inl rfl)).map fun _ _ => trivial
      cases hwritten.of_error hraw
      exact Or.inl .unencodable
    | ok raw =>
      rw [hraw, ok_bind] at h
      exact failure_of_decode (Or.inr ⟨doc, hdocument, hraw⟩) h

theorem failure_of_patch (h : r.patch = .error e) : RestoreFailure e ∨ Escape live r e := by
  unfold patch at h
  split at h
  · cases h
    exact Or.inl (.noPatchData r.name)
  · exact failure_of_decode (Or.inl rfl) h

/-- Whatever restoring fails with is declared or has one of the causes of an escape. -/
theorem failure_of_restore (h : restore live r = .error e) :
    RestoreFailure e ∨ Escape live r e := by
  unfold restore at h
  cases hstored : storedDocument live with
  | error e' =>
    rw [hstored] at h
    cases h
    exact failure_of_storedDocument hstored
  | ok stored =>
  cases hpatch : r.patch with
  | error e' =>
    rw [hstored, ok_bind, hpatch] at h
    cases h
    exact failure_of_patch hpatch
  | ok p =>
  cases happly : Patch.apply stored p with
  | error fault =>
    rw [hstored, ok_bind, hpatch, ok_bind, happly] at h
    cases h
    exact Or.inl (.patch fault)
  | ok patched =>
  cases hgroup : Group.ofDocument patched with
  | ok g =>
    rw [hstored, ok_bind, hpatch, ok_bind, happly, Except.mapError, ok_bind, hgroup] at h
    cases h
  | error e' =>
    rw [hstored, ok_bind, hpatch, ok_bind, happly, Except.mapError, ok_bind, hgroup] at h
    cases h
    cases (Group.isRead_ofDocument patched).of_error hgroup with
    | wrongType => exact Or.inl .notAGroup
    | noMembers => exact Or.inl .notAGroup
    | unreadable => exact Or.inl .notAGroup
    | outOfRange h => exact Or.inr (.infinite hstored hpatch happly h)

theorem documents_of_restore {g : Group} (h : restore live r = .ok g) :
    ∃ stored p patched, storedDocument live = .ok stored ∧ r.patch = .ok p ∧
      Patch.apply stored p = .ok patched ∧ Group.ofDocument patched = .ok g := by
  unfold restore at h
  obtain ⟨stored, hstored, h⟩ := bind_eq_ok_iff.mp h
  obtain ⟨p, hpatch, h⟩ := bind_eq_ok_iff.mp h
  obtain ⟨patched, happly, h⟩ := bind_eq_ok_iff.mp h
  exact ⟨stored, p, patched, hstored, hpatch, mapError_eq_ok_iff.mp happly,
    mapError_eq_ok_iff.mp h⟩

/-- **The contract of restoring, and how far it holds.**  For every live group and every revision,
restoring either answers or fails.  If it answers, the live group has a creation time with a form on
the wire or none, and the patched document asks for no infinite number.  If it fails, the failure is
declared, or one of these is the cause, or the limits of the decoder are.  A live group that cannot
be dated makes every restoring fail outside of the contract. -/
theorem restore_contract (live : Group) (r : Revision) :
    Meets
      (fun _ => ¬ live.IsUndatable ∧ ∀ stored p patched, storedDocument live = .ok stored →
        r.patch = .ok p → Patch.apply stored p = .ok patched → ¬ Group.AsksInfinity patched)
      (fun e => RestoreFailure e ∨ Escape live r e) (restore live r) ∧
    (live.IsUndatable → restore live r = .error .outOfRange) := by
  have hundatable : live.IsUndatable → restore live r = .error .outOfRange := by
    intro h
    unfold restore storedDocument
    rw [h.document]
    rfl
  refine ⟨?_, hundatable⟩
  cases hrestore : restore live r with
  | error e => exact .error (failure_of_restore hrestore)
  | ok g =>
    refine .ok ⟨fun h => ?_, ?_⟩
    · rw [hundatable h] at hrestore
      cases hrestore
    · intro stored p patched hstored hpatch happly hinfinite
      obtain ⟨stored', p', patched', hstored', hpatch', happly', hg⟩ :=
        documents_of_restore hrestore
      cases hstored.symm.trans hstored'
      cases hpatch.symm.trans hpatch'
      cases happly.symm.trans happly'
      exact hinfinite.ne_ok g hg

end Contract

/-! ### An infinite number of replicas -/

def blankGroup : Group := ⟨{ Metadata.empty with name := "g" }, ⟨[], none, none⟩⟩

def infiniteRevision : Revision where
  metadata := { Metadata.empty with name := "r" }
  number := 1
  data := ⟨some (Utf8.encode
    "\x7b\"spec\":\x7b\"roles\":[\x7b\"name\":\"a\",\"replicas\":1e999\x7d]\x7d\x7d".toList),
    .null⟩

/-- Restoring fails, and not in a declared way. -/
theorem escape_of_infinite_replicas :
    ∃ e, restore blankGroup infiniteRevision = .error e ∧ e = .outOfRange ∧ ¬ RestoreFailure e := by
  have hfails : (match restore blankGroup infiniteRevision with
      | .error e => decide (e = .outOfRange)
      | .ok _ => false) = true := by decide +kernel
  cases h : restore blankGroup infiniteRevision with
  | ok g =>
    rw [h] at hfails
    exact Bool.noConfusion hfails
  | error e =>
    rw [h] at hfails
    have he : e = .outOfRange := of_decide_eq_true hfails
    subst he
    refine ⟨.outOfRange, rfl, rfl, ?_⟩
    intro hdeclared
    cases hdeclared

end Revision

end RolloutLedger
