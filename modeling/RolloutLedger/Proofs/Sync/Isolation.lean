import RolloutLedger.Proofs.Sync.InMemory
import RolloutLedger.Proofs.Sync.Survival
/-! # Groups do not disturb each other

A store in memory shows everything to everyone, and deletions go by namespace and name.  Still a
sync never touches what is none of its group's, whatever calls fail: it deletes only what it has
picked out of the listing, no two revisions are at one address, and a creation at an address that
is taken is refused.
-/

namespace RolloutLedger

/-- Whether a revision is none of a group's: somebody else controls it, it is in another namespace,
or it is not labelled with the name of the group. -/
def Revision.IsForeignTo (g : Group) (r : Revision) : Prop :=
  (∃ ref, r.metadata.controller? = some ref ∧ ref.uid ≠ g.metadata.uid) ∨
    (r.ns ≠ "" ∧ r.ns ≠ g.metadata.ns) ∨
      Entries.get? (.text nameLabel) r.metadata.labels ≠ some (.text g.metadata.name)

section Foreign

variable {g : Group} {r : Revision}

theorem Store.mayOwn_eq_false_iff :
    Store.mayOwn g.metadata r = false ↔
      ∃ ref, r.metadata.controller? = some ref ∧ ref.uid ≠ g.metadata.uid := by
  unfold Store.mayOwn
  cases r.metadata.controller? with
  | none => simp
  | some ref => simp

theorem Group.selects_eq_true_iff {labels : Entries} :
    g.revisionSelector.selects labels = true ↔
      Entries.get? (.text nameLabel) labels = some (.text g.metadata.name) := by
  have hlabel : g.revisionSelector.selects labels =
      ((Entries.get? (.text nameLabel) labels).getD .null).same (.text g.metadata.name) := by
    unfold Selector.selects
    exact (Bool.and_true _).trans (Bool.and_true _)
  rw [hlabel, Value.same_text_iff]
  cases Entries.get? (.text nameLabel) labels with
  | none => exact ⟨fun h => (nomatch h), fun h => (nomatch h)⟩
  | some v => exact Option.some_inj.symm

/-- The foreign revisions are those that a sync does not pick out of a listing. -/
theorem Revision.isForeignTo_iff :
    r.IsForeignTo g ↔ Store.belongs g.metadata g.revisionSelector r = false := by
  have hisIn : Store.isIn g.metadata.ns r = false ↔ r.ns ≠ "" ∧ r.ns ≠ g.metadata.ns := by
    simp [Store.isIn]
  unfold Revision.IsForeignTo Store.belongs
  rw [Bool.and_eq_false_iff, Bool.and_eq_false_iff, Store.mayOwn_eq_false_iff, hisIn,
    ← Bool.not_eq_true, Group.selects_eq_true_iff, or_comm, ne_eq]

end Foreign

namespace Memory

variable {φ : Type} [FaultSource φ]

/-- **A sync leaves alone what is none of its group's.**  However it ends, every foreign revision
is still there as it was, and no deletion of it was asked for; and nothing that was there is
replaced by something else. -/
theorem foreign_left_alone {m : Manager} {g : Group} {s s' : Memory φ} {j : Journal}
    {a : Except Error SyncResult} (h : m.sync g s = ⟨a, s', j⟩) :
    (∀ r ∈ s.revisions.items, r.IsForeignTo g →
      r ∈ s'.revisions.items ∧ r.deletion ∉ j.calls) ∧
    ∀ r ∈ s.revisions.items, ∀ r' ∈ s'.revisions.items, r'.address = r.address → r' = r := by
  have hdeletions : ∀ r : Revision, r.deletion ∈ j.calls → r.deletion ∈ j.deletions :=
    fun r hr => List.mem_filter.mpr ⟨hr, rfl⟩
  cases ran_of_sync h with
  | stopped reason revisions clock notes =>
    rw [revisions]
    constructor
    · intro r hr _
      refine ⟨hr, fun hcall => ?_⟩
      have hcall := hdeletions r hcall
      rw [notes.deletions] at hcall
      exact absurd hcall List.not_mem_nil
    · intro r hr r' hr' haddress
      exact List.inj_on_of_nodup_map s.revisions.distinct hr' hr haddress
  | @settled added current created n b _ settles reached ends notes =>
    constructor
    · intro r hr hforeign
      have hmem : r ∈ s.revisions.items ++ added := List.mem_append_left _ hr
      have hkept : r ∉ History.expired (s.own g ++ added) (m.limitFor g) := by
        intro hexpired
        have hbelongs := (settles.mem_of_mem_expired hexpired).2
        rw [Revision.isForeignTo_iff.mp hforeign] at hbelongs
        exact Bool.noConfusion hbelongs
      refine ⟨(reached.mem_items_iff settles hmem).mpr fun htake => ?_, fun hcall => ?_⟩
      · exact hkept (List.mem_of_mem_take htake)
      -- a deletion asked for at this address would be that of an expired revision
      · have hcall := hdeletions r hcall
        rw [notes.deletions] at hcall
        obtain ⟨d, hd, hdr⟩ := List.mem_map.mp hcall
        have hd := List.mem_of_mem_take hd
        have hsame : d = r := List.inj_on_of_nodup_map settles.distinct
          (settles.mem_of_mem_expired hd).1 hmem (Revision.address_eq_of_deletion_eq hdr)
        exact hkept (hsame ▸ hd)
    · intro r hr r' hr' haddress
      rw [reached.items] at hr'
      exact List.inj_on_of_nodup_map settles.distinct (Store.mem_remaining_iff.mp hr').1
        (List.mem_append_left _ hr) haddress

def formerRevision : Revision :=
  { firstRevision "former" "\x7b\x7d" with
    metadata := { (firstRevision "former" "\x7b\x7d").metadata with
      owners :=
        [.controlling { bareGroup.metadata with uid := "former" } groupVersion groupKind] } }

/-- The revision of a former group among two of the bare group, in a store that fails to delete
once. -/
def inheritedStore : Memory (List FaultRule) :=
  (((empty .earliest [⟨.delete, none, some 1, .failed "delete" "try again"⟩]).seed
    (firstRevision "z" "\x7b\x7d")).seed formerRevision).seed (firstRevision "a" "\x7b\x7d")

theorem foreign_left_alone_former :
    ∃ a s' j, keepingOne.sync bareGroup inheritedStore = ⟨a, s', j⟩ ∧
      formerRevision ∈ s'.revisions.items ∧ formerRevision.deletion ∉ j.calls := by
  rcases h : keepingOne.sync bareGroup inheritedStore with ⟨a, s', j⟩
  obtain ⟨hkept, -⟩ := foreign_left_alone h
  refine ⟨a, s', j, rfl, hkept formerRevision ?_ (Or.inl ⟨_, rfl, by decide⟩)⟩
  exact List.mem_cons_of_mem _ List.mem_cons_self

end Memory

end RolloutLedger
