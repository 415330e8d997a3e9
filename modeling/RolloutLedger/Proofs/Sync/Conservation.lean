import RolloutLedger.Proofs.Sync.Retry
/-! # Conservation of revisions

A store in memory gains the revisions that are counted as created and loses those that are counted
as pruned, and no others, whichever syncs go through it and whichever of their calls fail.

The counters are raised in different places, each after a call has answered.  What ties them to
the store is that a creation which answers has added a revision at an address of its own, and that
no revision is picked for deletion twice or without being there.
-/

namespace RolloutLedger

open Store (remaining)
open History (expired sorted)
open scoped List

/-- Revisions that were there, taken together with what remains without them, are all of it. -/
theorem Store.remaining_append_perm {revisions deleted : List Revision}
    (h : (revisions.map Revision.address).Nodup) (hdeleted : ∀ d ∈ deleted, d ∈ revisions)
    (honce : deleted.Nodup) : (remaining revisions deleted ++ deleted).Perm revisions := by
  have hnodup : revisions.Nodup := List.Nodup.of_map _ h
  have hgone : ∀ r ∈ remaining revisions deleted, r ∉ deleted := fun r hr =>
    (mem_remaining_iff_of_distinct h hdeleted (mem_remaining_iff.mp hr).1).mp hr
  refine (List.perm_ext_iff_of_nodup ?_ hnodup).mpr fun r => ?_
  · refine List.nodup_append.mpr ⟨hnodup.filter _, honce, ?_⟩
    rintro r hr d hd rfl
    exact hgone r hr hd
  · rw [List.mem_append]
    constructor
    · rintro (hr | hr)
      · exact (mem_remaining_iff.mp hr).1
      · exact hdeleted r hr
    · intro hr
      by_cases hr' : r ∈ deleted
      · exact Or.inr hr'
      · exact Or.inl ((mem_remaining_iff_of_distinct h hdeleted hr).mpr hr')

theorem History.nodup_expired {history : List Revision} {limit : Int}
    (h : (history.map Revision.address).Nodup) : (expired history limit).Nodup := by
  unfold expired
  split
  · exact List.nodup_nil
  · have hsorted : (sorted history).Nodup :=
      (sorted_perm history).nodup_iff.mpr (List.Nodup.of_map _ h)
    exact hsorted.sublist (List.take_sublist _ _)

namespace Memory

section Accounts

variable {φ : Type} {s t u : Memory φ} {gained lost gained' lost' : List Revision} {i j : Journal}

/-- What a store gains and loses on the way to another, and that the counters of the journal tell
how much. -/
structure Accounts (s t : Memory φ) (j : Journal) (gained lost : List Revision) : Prop where
  balance : (t.revisions.items ++ lost).Perm (s.revisions.items ++ gained)
  created : j.count .created = gained.length
  pruned : j.count .pruned = lost.length

theorem accounts_of_unchanged {deletions : List Call} (h : t.revisions = s.revisions)
    (hnotes : j.Tells deletions 0 0) : Accounts s t j [] [] where
  balance := by rw [h]
  created := hnotes.created
  pruned := hnotes.pruned

theorem Accounts.trans (h : Accounts s t i gained lost) (h' : Accounts t u j gained' lost') :
    Accounts s u (i ++ j) (gained ++ gained') (lost ++ lost') where
  balance := calc
    u.revisions.items ++ (lost ++ lost') ~ u.revisions.items ++ lost' ++ lost := by
      rw [List.append_assoc]
      exact List.perm_append_comm.append_left _
    _ ~ t.revisions.items ++ gained' ++ lost := h'.balance.append_right _
    _ ~ t.revisions.items ++ lost ++ gained' := by
      rw [List.append_assoc, List.append_assoc]
      exact List.perm_append_comm.append_left _
    _ ~ s.revisions.items ++ gained ++ gained' := h.balance.append_right _
    _ = s.revisions.items ++ (gained ++ gained') := List.append_assoc _ _ _
  created := by rw [Journal.count_append, h.created, h'.created, List.length_append]
  pruned := by rw [Journal.count_append, h.pruned, h'.pruned, List.length_append]

theorem Accounts.length_sub (h : Accounts s t j gained lost) :
    (t.revisions.items.length : Int) - s.revisions.items.length =
      j.count .created - j.count .pruned := by
  have hlength := h.balance.length_eq
  rw [List.length_append, List.length_append] at hlength
  rw [h.created, h.pruned]
  omega

theorem Reached.accounts {m : Manager} {g : Group} {current : Revision} {created : Bool} {n : Nat}
    {deletions : List Call} (h : Reached m g s gained n t)
    (hsettles : Settles m g s gained current created)
    (hnotes : j.Tells deletions gained.length n) :
    Accounts s t j gained ((expired (s.own g ++ gained) (m.limitFor g)).take n) where
  balance := by
    rw [h.items]
    refine Store.remaining_append_perm hsettles.distinct (fun d hd => ?_) ?_
    · exact (hsettles.mem_of_mem_expired (List.mem_of_mem_take hd)).1
    · exact (History.nodup_expired hsettles.distinct_own).sublist (List.take_sublist _ _)
  created := hnotes.created
  pruned := by rw [hnotes.pruned, List.length_take, Nat.min_eq_left h.le]

end Accounts

variable {φ : Type} [FaultSource φ]

/-- **One sync.**  However it ends, the store has gained what was counted as created and lost what
was counted as pruned. -/
theorem exists_accounts_sync (m : Manager) (g : Group) (s : Memory φ) :
    ∃ gained lost, Accounts s (m.sync g s).state (m.sync g s).journal gained lost := by
  rcases hsync : m.sync g s with ⟨a, s', j⟩
  cases ran_of_sync hsync with
  | stopped reason revisions clock notes => exact ⟨[], [], accounts_of_unchanged revisions notes⟩
  | settled settles reached ends notes => exact ⟨_, _, reached.accounts settles notes⟩

theorem exists_accounts_run (s : Memory φ) (syncs : List (Manager × Group)) :
    ∃ gained lost, Accounts s (Sync.run s syncs) (Sync.journal s syncs) gained lost := by
  induction syncs generalizing s with
  | nil => exact ⟨[], [], accounts_of_unchanged rfl ⟨rfl, rfl, rfl⟩⟩
  | cons p rest ih =>
    obtain ⟨gained, lost, hfirst⟩ := exists_accounts_sync p.1 p.2 s
    obtain ⟨gained', lost', hrest⟩ := ih (p.1.sync p.2 s).state
    exact ⟨gained ++ gained', lost ++ lost', hfirst.trans hrest⟩

/-- **Revisions are conserved.**  At every point of a run of syncs, of any groups by any managers
and with any calls failing, the store has as many revisions more than at the start as were counted
as created, less those counted as pruned. -/
theorem length_run_sub_length (s : Memory φ) (syncs : List (Manager × Group)) (k : Nat) :
    ((Sync.run s (syncs.take k)).revisions.items.length : Int) - s.revisions.items.length =
      (Sync.journal s (syncs.take k)).count .created -
        (Sync.journal s (syncs.take k)).count .pruned := by
  obtain ⟨gained, lost, h⟩ := exists_accounts_run s (syncs.take k)
  exact h.length_sub

end Memory

end RolloutLedger
