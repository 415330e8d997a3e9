import Mathlib.Data.List.Nodup
import RolloutLedger.Proofs.Store.Steps
/-! # What is relied on in a store

A lawful store holds a list of revisions, no two of them at one address.  Listing shows the list,
creating adds a copy at its end, and deleting takes out what is at an address; a deletion that
fails takes out nothing.  In an atomic store no failed call changes the list.

A store need not take every revision: copies are promised of those it accepts.
-/

namespace RolloutLedger

/-! ## Copies -/

/-- A stored copy of a revision says the same as the revision, apart from when it was created. -/
structure Revision.IsCopyOf (copy r : Revision) : Prop where
  number : copy.number = r.number
  name : copy.name = r.name
  ns : copy.ns = r.ns
  labels : copy.metadata.labels = r.metadata.labels
  owners : copy.metadata.owners = r.metadata.owners
  bytes : copy.data.bytes = r.data.bytes
  object : copy.data.object = r.data.object

theorem Revision.IsCopyOf.refl (r : Revision) : r.IsCopyOf r := ⟨rfl, rfl, rfl, rfl, rfl, rfl, rfl⟩

theorem Revision.IsCopyOf.address {copy r : Revision} (h : copy.IsCopyOf r) :
    copy.address = r.address := by
  rw [Revision.address, Revision.address, h.ns, h.name]

/-! ## What is left after deletions -/

/-- Some revisions without those at the addresses of others. -/
def Store.remaining (revisions deleted : List Revision) : List Revision :=
  revisions.filter fun r => !(deleted.map Revision.address).contains r.address

namespace Store

theorem mem_remaining_iff {revisions deleted : List Revision} {r : Revision} :
    r ∈ remaining revisions deleted ↔
      r ∈ revisions ∧ r.address ∉ deleted.map Revision.address := by
  rw [remaining, List.mem_filter, Bool.not_eq_true', ← Bool.not_eq_true,
    List.contains_iff_mem]

theorem remaining_nil (revisions : List Revision) : remaining revisions [] = revisions := by
  rw [remaining]
  simp

theorem remaining_cons (revisions deleted : List Revision) (d : Revision) :
    remaining (revisions.filter fun r => r.address != d.address) deleted =
      remaining revisions (d :: deleted) := by
  rw [remaining, remaining, List.filter_filter]
  refine List.filter_congr fun r _ => ?_
  rw [List.map_cons, List.contains_cons, Bool.not_or, Bool.and_comm]
  rfl

theorem filter_remaining (p : Revision → Bool) (revisions deleted : List Revision) :
    (remaining revisions deleted).filter p = remaining (revisions.filter p) deleted :=
  List.filter_comm _ _ _

theorem remaining_remaining (revisions deleted deleted' : List Revision) :
    remaining (remaining revisions deleted) deleted' =
      remaining revisions (deleted ++ deleted') := by
  unfold remaining
  rw [List.filter_filter]
  refine List.filter_congr fun r _ => ?_
  rw [List.map_append, Bool.eq_iff_iff]
  simp [and_comm]

section Deleting

variable {revisions deleted : List Revision}

theorem remaining_eq_self (h : ∀ r ∈ revisions, r.address ∉ deleted.map Revision.address) :
    remaining revisions deleted = revisions := by
  refine List.filter_eq_self.mpr fun r hr => ?_
  rw [Bool.not_eq_true', ← Bool.not_eq_true, List.contains_iff_mem]
  exact h r hr

/-- Where no address is used twice, exactly the deleted revisions are gone. -/
theorem mem_remaining_iff_of_distinct (h : (revisions.map Revision.address).Nodup)
    (hdeleted : ∀ d ∈ deleted, d ∈ revisions) {r : Revision} (hr : r ∈ revisions) :
    r ∈ remaining revisions deleted ↔ r ∉ deleted := by
  rw [mem_remaining_iff, and_iff_right hr]
  refine not_congr ⟨fun hmem => ?_, fun hmem => List.mem_map_of_mem hmem⟩
  obtain ⟨d, hd, haddress⟩ := List.mem_map.mp hmem
  rwa [← List.inj_on_of_nodup_map h (hdeleted d hd) hr haddress]

/-- Of revisions at different addresses, those behind the deleted front stay. -/
theorem remaining_take (h : (revisions.map Revision.address).Nodup) (n : Nat) :
    remaining revisions (revisions.take n) = revisions.drop n := by
  have hsplit := List.take_append_drop n revisions
  rw [← hsplit, List.map_append] at h
  obtain ⟨-, -, hdisjoint⟩ := List.nodup_append.mp h
  have hfront : remaining (revisions.take n) (revisions.take n) = [] := by
    refine List.eq_nil_iff_forall_not_mem.mpr fun r hr => ?_
    obtain ⟨hr, hnot⟩ := mem_remaining_iff.mp hr
    exact hnot (List.mem_map_of_mem hr)
  have hback : remaining (revisions.drop n) (revisions.take n) = revisions.drop n :=
    remaining_eq_self fun r hr hmem => hdisjoint _ hmem _ (List.mem_map_of_mem hr) rfl
  calc remaining revisions (revisions.take n)
      = remaining (revisions.take n ++ revisions.drop n) (revisions.take n) := by rw [hsplit]
    _ = revisions.drop n := by
      rw [remaining, List.filter_append, ← remaining, ← remaining, hfront, hback,
        List.nil_append]

end Deleting

end Store

/-! ## Calls that create -/

def Call.isCreation : Call → Bool
  | .create _ _ | .submit _ _ => true
  | _ => false

/-- The calls that hand over something to be stored. -/
def Journal.creations (j : Journal) : List Call := j.calls.filter Call.isCreation

theorem Journal.creations_append (i j : Journal) :
    creations (i ++ j) = creations i ++ creations j := by
  rw [creations, calls_append, List.filter_append]
  rfl

/-! ## Lawful stores -/

/-- Stores whose states hold revisions. -/
class LawfulStore (σ : Type) [RevisionStore σ] where
  /-- Whether a state holds just these revisions, in this order. -/
  Holds : σ → List Revision → Prop
  /-- Whether the store can keep a revision as it is. -/
  Accepts : Revision → Prop
  distinct : ∀ {s rs}, Holds s rs → (rs.map Revision.address).Nodup
  list_ok : ∀ {s s' rs ns selector listed j}, Holds s rs →
    RevisionStore.list ns selector s = ⟨.ok listed, s', j⟩ → listed = rs ∧ Holds s' rs
  create_ok : ∀ {s s' rs r copy j}, Holds s rs → Accepts r →
    RevisionStore.create r s = ⟨.ok copy, s', j⟩ → copy.IsCopyOf r ∧ Holds s' (rs ++ [copy])
  delete_ok : ∀ {s s' rs r u j}, Holds s rs → RevisionStore.delete r s = ⟨.ok u, s', j⟩ →
    Holds s' (rs.filter fun x => x.address != r.address)
  delete_error : ∀ {s s' rs r e j}, Holds s rs →
    RevisionStore.delete r s = ⟨.error e, s', j⟩ → Holds s' rs
  list_creations : ∀ {s s' ns selector a j},
    RevisionStore.list ns selector (s : σ) = ⟨a, s', j⟩ → j.creations = []
  delete_creations : ∀ {s s' r a j},
    RevisionStore.delete r (s : σ) = ⟨a, s', j⟩ → j.creations = []

/-- Stores in which a failed call leaves the revisions as they are. -/
class AtomicStore (σ : Type) [RevisionStore σ] extends LawfulStore σ where
  list_error : ∀ {s s' rs ns selector e j}, Holds s rs →
    RevisionStore.list ns selector s = ⟨.error e, s', j⟩ → Holds s' rs
  create_error : ∀ {s s' rs r e j}, Holds s rs →
    RevisionStore.create r s = ⟨.error e, s', j⟩ → Holds s' rs

end RolloutLedger
