import RolloutLedger.Proofs.Json.Data
import RolloutLedger.Proofs.Store.Lawful
/-! # Built revisions

Whatever group and number a revision was built for, it holds the group's snapshot, has the number,
and belongs to the group, as does every stored copy of it.
-/

namespace RolloutLedger

/-! ## What a built revision is -/

namespace Revision

variable {o : HashOptions} {g : Group} {n : Int} {r copy : Revision}

theorem exists_assemble_of_build (h : build o g n = .ok r) :
    ∃ raw roleHashes, Patch.encodeSnapshot g = .ok raw ∧
      Digest.roleHashes o raw = .ok roleHashes ∧
        r = assemble g n raw (Digest.shown (Digest.ofBytes raw)) roleHashes := by
  obtain ⟨raw, hraw, h⟩ := bind_eq_ok_iff.mp h
  obtain ⟨hash, hhash, h⟩ := bind_eq_ok_iff.mp h
  obtain ⟨roleHashes, hroles, h⟩ := bind_eq_ok_iff.mp h
  refine ⟨raw, roleHashes, hraw, hroles, ?_⟩
  cases hhash
  split at h
  · exact (Except.ok.inj h).symm
  · exact nomatch h

theorem number_of_build (h : build o g n = .ok r) : r.number = n := by
  obtain ⟨raw, roleHashes, -, -, rfl⟩ := exists_assemble_of_build h
  rfl

theorem owners_of_build (h : build o g n = .ok r) :
    r.metadata.owners = [OwnerReference.controlling g.metadata groupVersion groupKind] := by
  obtain ⟨raw, roleHashes, -, -, rfl⟩ := exists_assemble_of_build h
  rfl

/-- The data of a built revision is the group's snapshot, and nothing else. -/
theorem data_of_build (h : build o g n = .ok r) :
    ∃ raw, Patch.encodeSnapshot g = .ok raw ∧ r.data = ⟨some raw, .null⟩ := by
  obtain ⟨raw, roleHashes, hraw, -, rfl⟩ := exists_assemble_of_build h
  exact ⟨raw, hraw, rfl⟩

theorem IsCopyOf.controller? (hcopy : copy.IsCopyOf r) (h : build o g n = .ok r) :
    copy.metadata.controller? =
      some (OwnerReference.controlling g.metadata groupVersion groupKind) := by
  rw [Metadata.controller?, hcopy.owners, owners_of_build h]
  rfl

/-- A copy of a revision built for a group belongs to every group of the same name, namespace and
identity. -/
theorem IsCopyOf.belongs {g' : Group} (hcopy : copy.IsCopyOf r) (h : build o g n = .ok r)
    (hname : g'.metadata.name = g.metadata.name) (hns : g'.metadata.ns = g.metadata.ns)
    (huid : g'.metadata.uid = g.metadata.uid) :
    Store.belongs g'.metadata g'.revisionSelector copy = true := by
  have hcontroller := hcopy.controller? h
  obtain ⟨raw, roleHashes, -, -, rfl⟩ := exists_assemble_of_build h
  have hisIn : Store.isIn g'.metadata.ns copy = true := by
    rw [Store.isIn, hcopy.ns, hns, Bool.or_eq_true, beq_iff_eq, beq_iff_eq]
    exact Or.inr rfl
  have hselects : g'.revisionSelector.selects copy.metadata.labels = true := by
    have hlabel : Selector.hasLabel copy.metadata.labels
        (Entries.field nameLabel (.text g'.metadata.name)) = true := by
      rw [hcopy.labels, hname]
      show Value.same (Value.text g.metadata.name) (Value.text g.metadata.name) = true
      rw [Value.same, Value.alike]
      exact beq_self_eq_true _
    simp [Selector.selects, Group.revisionSelector, Selector.ofLabels, hlabel]
  have hmayOwn : Store.mayOwn g'.metadata copy = true := by
    rw [Store.mayOwn, hcontroller]
    exact beq_iff_eq.mpr huid.symm
  rw [Store.belongs, hisIn, hselects, hmayOwn]
  rfl

end Revision

/-! ## Why revisions are not built

Building a revision encodes a snapshot, decodes it again for the digests of the roles, and puts a
number into a name.  Each of these may fail in a few ways; none of them is a failure of a store.
-/

/-! ### Snapshots -/

namespace Patch

theorem isWritten_encodeSnapshot (g : Group) : Json.IsWritten (encodeSnapshot g) :=
  (Json.isWritten_write .stored false 0 _ (Or.inl rfl)).map fun _ _ => trivial

inductive Snapshot.DecodeFailure : Error → Prop
  | malformed (cause : MalformedPatch) : DecodeFailure (.malformed cause)
  | unreadable : DecodeFailure .unreadable
  | tooDeep : DecodeFailure .tooDeep

/-- The roles of a snapshot that was read from data of JSON are data of JSON. -/
theorem Snapshot.meets_ofDocument {doc : Value} (h : doc.IsJson) :
    Meets (fun s => ∀ role ∈ s.roles, (Value.object role).IsJson) (fun _ => True)
      (ofDocument doc) := by
  unfold ofDocument
  split
  swap
  · exact .error trivial
  cases h with
  | object _ hmembers =>
  split
  swap
  · exact .error trivial
  rename_i hspec
  cases hmembers _ (Entries.mem_of_get? hspec) with
  | object _ hmembers =>
  split
  swap
  · exact .error trivial
  rename_i hroles
  cases hmembers _ (Entries.mem_of_get? hroles) with
  | list hitems =>
  -- what is left is read from the roles one by one
  refine (Meets.mapM (R := fun role => (Value.object role).IsJson) fun v hv => ?_).bind
    fun roles hroles => ?_
  · unfold roleOf
    split
    · split
      · exact .ok (hitems _ hv)
      · exact .error trivial
    · exact .error trivial
  · refine (Meets.any _).bind fun policy _ => (Meets.any _).bind fun directive _ => ?_
    exact .ok hroles

theorem Snapshot.meets_decode (raw : Bytes) :
    Meets (fun s => ∀ role ∈ s.roles, (Value.object role).IsJson) DecodeFailure (decode raw) := by
  unfold decode
  have hdocument : Meets Value.IsJson DecodeFailure ((Json.decode raw).mapError dataError) := by
    refine ((Json.meets_decode raw).mono (fun _ h => h.isJson trivial) fun _ h => h).mapError
      fun e he => ?_
    cases he with
    | undecodable => exact .malformed _
    | unreadable => exact .unreadable
    | tooDeep => exact .tooDeep
  refine hdocument.bind fun doc hdoc => ?_
  exact (meets_ofDocument hdoc).mapError fun cause _ => .malformed cause

end Patch

/-! ### Revisions -/

inductive Revision.BuildFailure : Error → Prop
  | unencodable : BuildFailure .unencodable
  | malformed (cause : MalformedPatch) : BuildFailure (.malformed cause)
  | unreadable : BuildFailure .unreadable
  | tooDeep : BuildFailure .tooDeep
  | notCanonical (kind : String) : BuildFailure (.notCanonical kind)

namespace Digest

open Revision (BuildFailure)

theorem meets_valueHash (o : HashOptions) {v : Value} (h : v.IsJson) :
    Meets (fun _ => True) BuildFailure (valueHash o v) := by
  unfold valueHash canonical
  refine Meets.map (P := fun _ => True) ?_ fun _ _ => trivial
  have hwritten : Json.IsWritten (Json.encodeWith o.layout v) :=
    (Json.isWritten_write o.layout false 0 v (Or.inr h)).map fun _ _ => trivial
  refine hwritten.mapError fun e he => ?_
  subst he
  exact .notCanonical v.kind

theorem meets_hashRoles (o : HashOptions) {roles : List Entries}
    (h : ∀ role ∈ roles, (Value.object role).IsJson) (known : List (String × String)) :
    Meets (fun _ => True) BuildFailure (hashRoles o known roles) := by
  induction roles generalizing known with
  | nil => exact .ok trivial
  | cons role rest ih =>
    rw [hashRoles]
    refine (meets_valueHash o (h role List.mem_cons_self)).bind fun hash _ => ?_
    exact ih (fun role hrole => h role (List.mem_cons_of_mem _ hrole)) _

theorem meets_roleHashes (o : HashOptions) (raw : Bytes) :
    Meets (fun _ => True) BuildFailure (roleHashes o raw) := by
  unfold roleHashes
  split
  · exact .ok trivial
  · have hsnapshot : Meets (fun s => ∀ role ∈ s.roles, (Value.object role).IsJson) BuildFailure
        (Patch.Snapshot.decode raw) := by
      refine (Patch.Snapshot.meets_decode raw).mono (fun _ h => h) fun e he => ?_
      cases he with
      | malformed cause => exact .malformed cause
      | unreadable => exact .unreadable
      | tooDeep => exact .tooDeep
    exact hsnapshot.bind fun s hs => meets_hashRoles o hs []

end Digest

namespace Revision

/-- **Why a revision is not built.** -/
theorem meets_build (o : HashOptions) (g : Group) (n : Int) :
    Meets (fun _ => True) BuildFailure (build o g n) := by
  unfold build
  have hraw : Meets (fun _ => True) BuildFailure (Patch.encodeSnapshot g) := by
    refine (Patch.isWritten_encodeSnapshot g).mono (fun _ h => h) fun e he => ?_
    subst he
    exact .unencodable
  refine hraw.bind fun raw _ => ?_
  have hhash : Digest.contentHash o raw .null = .ok (Digest.shown (Digest.ofBytes raw)) := rfl
  rw [hhash, ok_bind]
  refine (Digest.meets_roleHashes o raw).bind fun roleHashes _ => ?_
  split
  · exact .ok trivial
  · exact .error .unreadable

/-- Building never fails as a store does. -/
theorem build_ne_store (o : HashOptions) (g : Group) (n : Int) (f : StoreFailure) :
    build o g n ≠ .error (.store f) := by
  intro h
  cases (meets_build o g n).of_error h

end Revision

end RolloutLedger
