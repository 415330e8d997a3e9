import RolloutLedger.Proofs.History.Retention
import RolloutLedger.Proofs.Store.Memory
/-! # Retention in memory, step by step

On a store in memory it is known exactly what retention does: which deletions it asks for, in which
order, which of them take effect, what is counted, and how it ends.  It asks for one deletion more
than take effect, unless all of them do.
-/

namespace RolloutLedger

open Store (remaining)

namespace History

variable {history : List Revision} {limit : Int}

/-! ## What retention leaves to do -/

section Repeated

variable {n : Nat}

/-- A history without its first revisions in order is what stood behind them, in some order. -/
theorem remaining_take_perm (haddresses : (history.map Revision.address).Nodup) (n : Nat) :
    (remaining history ((sorted history).take n)).Perm ((sorted history).drop n) := by
  have hperm := sorted_perm history
  rw [← Store.remaining_take ((hperm.map Revision.address).nodup_iff.mpr haddresses)]
  exact hperm.symm.filter _

/-- What is expired in a history without the first of its expired revisions are the others. -/
theorem expired_eq_drop {rest : List Revision} (h : Separated history) (hlimit : 1 ≤ limit)
    (hn : n ≤ (expired history limit).length) (hrest : rest.Perm ((sorted history).drop n)) :
    expired rest limit = (expired history limit).drop n := by
  have hlength := hrest.length_eq
  rw [List.length_drop, (sorted_perm history).length_eq] at hlength
  rw [length_expired hlimit, surplus] at hn
  have hsurplus : surplus rest limit = surplus history limit - n := by
    rw [surplus, surplus, hlength]
    omega
  rw [expired_eq_take hlimit, expired_eq_take hlimit, sorted_eq_drop h hrest, hsurplus,
    List.drop_take]

theorem highest?_remaining_take {r : Revision} (haddresses : (history.map Revision.address).Nodup)
    (hnumbers : (history.map Revision.number).Nodup) (hlimit : 1 ≤ limit)
    (hn : n ≤ (expired history limit).length) (hhighest : highest? history = some r) :
    highest? (remaining history ((expired history limit).take n)) = some r := by
  rw [take_expired hlimit hn]
  rw [length_expired hlimit, surplus] at hn
  refine highest?_eq_some_of_subset hhighest hnumbers
    (fun x hx => (Store.mem_remaining_iff.mp hx).1) ?_
  -- without rivals it stands last in order
  obtain ⟨before, after, hsplit, hafter⟩ := sorted_split hhighest
  rw [rivals_eq_nil hhighest hnumbers, List.length_nil, List.length_eq_zero_iff] at hafter
  have hlength := (sorted_perm history).length_eq
  rw [(remaining_take_perm haddresses n).mem_iff, hsplit, hafter]
  rw [hsplit, hafter, List.length_append, List.length_singleton] at hlength
  rw [List.drop_append_of_le_length (by omega)]
  exact List.mem_append_right _ List.mem_cons_self

end Repeated

end History

namespace Memory

open History (Deleting Interruption expired kept prune stoppedBy)

variable {φ : Type}

/-- What is left of a store once the first `n` of some revisions were deleted and no further one. -/
structure Emptied (ds : List Revision) (n : Nat) (m m' : Memory φ) (j : Journal) : Prop where
  le : n ≤ ds.length
  items : m'.revisions.items = remaining m.revisions.items (ds.take n)
  clock : m'.clock = m.clock
  calls : j.calls = (ds.take (n + 1)).map Revision.deletion
  counters : j.counters = List.replicate n .pruned

theorem emptied_nil (m : Memory φ) : Emptied [] 0 m m [] where
  le := Nat.le_refl _
  items := by rw [List.take_nil, Store.remaining_nil]
  clock := rfl
  calls := rfl
  counters := rfl

/-- If all of these revisions were in the store, no other ones are gone. -/
theorem Emptied.mem_items_iff {ds : List Revision} {n : Nat} {m m' : Memory φ} {j : Journal}
    (h : Emptied ds n m m' j) (hheld : ds ⊆ m.revisions.items) (r : Revision) :
    r ∈ m'.revisions.items ↔ r ∈ m.revisions.items ∧ r ∉ ds.take n := by
  have hdeleted : ∀ d ∈ ds.take n, d ∈ m.revisions.items := fun d hd =>
    hheld (List.mem_of_mem_take hd)
  have hiff {r : Revision} (hr : r ∈ m.revisions.items) :=
    Store.mem_remaining_iff_of_distinct m.revisions.distinct hdeleted hr
  rw [h.items]
  constructor
  · intro hr
    have hitem := (Store.mem_remaining_iff.mp hr).1
    exact ⟨hitem, (hiff hitem).mp hr⟩
  · exact fun ⟨hitem, hr⟩ => (hiff hitem).mpr hr

theorem Emptied.tells {ds : List Revision} {n : Nat} {m m' : Memory φ} {j : Journal}
    (h : Emptied ds n m m' j) : j.Tells ((ds.take (n + 1)).map Revision.deletion) 0 n where
  deletions := by
    unfold Journal.deletions
    rw [h.calls, List.filter_eq_self]
    intro c hc
    obtain ⟨d, -, rfl⟩ := List.mem_map.mp hc
    rfl
  created := by
    rw [Journal.count, h.counters, List.count_replicate]
    rfl
  pruned := by rw [Journal.count, h.counters, List.count_replicate_self]

variable [FaultSource φ] {m m' : Memory φ} {j : Journal}

/-- Deleting goes on up to the first fault. -/
theorem emptied_of_deleting {ds : List Revision} {a : Except Error (Option StoreFailure)}
    (h : Deleting ds m m' a j) :
    ∃ n, Emptied ds n m m' j ∧
      (n = ds.length ∧ a = .ok none ∨
        n < ds.length ∧ ∃ e, CanFail φ e ∧ a = stoppedBy e) := by
  induction h with
  | done => exact ⟨0, emptied_nil _, Or.inl ⟨rfl, rfl⟩⟩
  | deleted deletion rest ih =>
    obtain ⟨rfl, -⟩ := delete_cases deletion
    obtain ⟨hclock, -, ⟨e, he, -⟩ | ⟨-, hremove⟩⟩ := delete_spec deletion
    · cases he
    obtain ⟨n, hn, hend⟩ := ih
    refine ⟨n + 1, ⟨Nat.succ_le_succ hn.le, ?_, hn.clock.trans hclock, ?_, ?_⟩, ?_⟩
    · rw [hn.items, hremove, List.take_succ_cons, ← Store.remaining_cons]
      rfl
    · rw [Journal.calls_append, Journal.calls_append, hn.calls]
      rfl
    · rw [Journal.counters_append, Journal.counters_append, hn.counters]
      rfl
    · rcases hend with ⟨rfl, ha⟩ | ⟨hlt, hfail⟩
      · exact Or.inl ⟨rfl, ha⟩
      · exact Or.inr ⟨Nat.succ_lt_succ hlt, hfail⟩
  | stopped deletion answer calls counters =>
    obtain ⟨rfl, herror⟩ := delete_cases deletion
    obtain ⟨hclock, -, ⟨e', -, hrevisions⟩ | ⟨ha, -⟩⟩ := delete_spec deletion
    · refine ⟨0, ⟨Nat.zero_le _, ?_, hclock, ?_, ?_⟩, ?_⟩
      · rw [List.take_zero, Store.remaining_nil, hrevisions]
      · rw [Journal.calls_append, calls]
        rfl
      · rw [Journal.counters_append, counters]
        rfl
      · exact Or.inr ⟨Nat.succ_pos _, _, herror _ rfl, answer⟩
    · cases ha

/-- How retention ends when the first `n` of the expired revisions were deleted. -/
inductive RetentionEnds (φ : Type) [FaultSource φ] (history : List Revision) (limit : Int)
    (n : Nat) : Except Error (Except Interruption (List Revision)) → Prop
  | forbidden (hlimit : limit < 1) :
    RetentionEnds φ history limit n (.error (.limitTooSmall (Decimal.text limit)))
  | finished (hlimit : 1 ≤ limit) (all : n = (expired history limit).length) :
    RetentionEnds φ history limit n (.ok (.ok (kept history limit)))
  | interrupted (cause : StoreFailure) (hlimit : 1 ≤ limit)
    (some : n < (expired history limit).length) (fault : CanFail φ (.store cause)) :
    RetentionEnds φ history limit n (.ok (.error ⟨history, cause⟩))
  | failed (e : Error) (hlimit : 1 ≤ limit) (some : n < (expired history limit).length)
    (fault : CanFail φ e) (foreign : ∀ cause, e ≠ .store cause) :
    RetentionEnds φ history limit n (.error e)

/-- **What retention does in memory.** -/
theorem prune_cases {history : List Revision} {limit : Int}
    {a : Except Error (Except Interruption (List Revision))}
    (h : prune history limit m = ⟨a, m', j⟩) :
    ∃ n, Emptied (expired history limit) n m m' j ∧ RetentionEnds φ history limit n a := by
  cases History.pruning_of_prune h with
  | forbidden tooSmall =>
    refine ⟨0, ?_, .forbidden tooSmall⟩
    rw [expired, if_pos tooSmall]
    exact emptied_nil _
  | allowed valid deleting =>
    obtain ⟨n, hn, ⟨hall, rfl⟩ | ⟨hlt, e, hfault, rfl⟩⟩ := emptied_of_deleting deleting
    · exact ⟨n, hn, .finished valid hall⟩
    · refine ⟨n, hn, ?_⟩
      cases e with
      | store cause => exact .interrupted cause valid hlt hfault
      | _ => exact .failed _ valid hlt hfault fun cause hcause => nomatch hcause

end Memory

end RolloutLedger
