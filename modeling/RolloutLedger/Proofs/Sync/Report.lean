import RolloutLedger.Proofs.Sync.InMemory
import RolloutLedger.Proofs.Sync.Survival
/-! # What a sync reports about the history

A sync answers with a history, and the store shows one.  If nothing interrupted the sync, the two
are the same, and they are the newest revisions of all that the sync considered.  If a deletion
failed, the answer is the whole history as it was before, although the store has lost some of the
oldest revisions already.
-/

namespace RolloutLedger

open Store (remaining)
open History (expired kept precedes sorted surplus)

namespace Memory

variable {φ : Type}

/-- What a listing of the revisions of a group in a store without faults shows. -/
theorem revisionsOf_withoutFaults (s : Memory φ) (g : Group) :
    (Sync.revisionsOf g s.withoutFaults).answer = .ok (s.own g) := rfl

/-- A history of a group was cut down to the newest revisions, as many as a limit says, and these
are what the store shows. -/
structure Trimmed (g : Group) (limit : Int) (before : List Revision) (s : Memory φ)
    (history : List Revision) : Prop where
  shown : ∃ listed, (Sync.revisionsOf g s.withoutFaults).answer = .ok listed ∧
    listed.Perm history
  length : (history.length : Int) = min (before.length : Int) limit
  newest : ∀ k ∈ before, ∀ d ∈ before, k ∈ s.revisions.items → d ∉ s.revisions.items →
    precedes d k = true

/-- Some of the oldest revisions of a history are gone, fewer than a limit asks for, and the history
is reported as it was before. -/
structure CutShort (limit : Int) (before : List Revision) (s : Memory φ)
    (history : List Revision) : Prop where
  reported : history = before
  oldest : ∃ n : Nat, (n : Int) < before.length - limit ∧
    ∀ r ∈ before, r ∉ s.revisions.items ↔ r ∈ (sorted before).take n

section Settled

variable {m : Manager} {g : Group} {s s' : Memory φ} {res : SyncResult} {added : List Revision}
  {n : Nat}

theorem Settles.added_eq (h : Settles m g s added res.current res.created) :
    res.added = added := by
  unfold SyncResult.added
  generalize res.current = current, res.created = created at h ⊢
  cases h <;> rfl

/-- Of what a sync considered exactly the first revisions in order are gone. -/
theorem Reached.not_mem_items_iff {current : Revision} {created : Bool}
    (h : Reached m g s added n s') (hsettles : Settles m g s added current created)
    (hlimit : 1 ≤ m.limitFor g) {r : Revision} (hr : r ∈ s.own g ++ added) :
    r ∉ s'.revisions.items ↔ r ∈ (sorted (s.own g ++ added)).take n := by
  have hmem : r ∈ s.revisions.items ++ added :=
    (List.filter_sublist.append (List.Sublist.refl _)).subset hr
  rw [h.mem_items_iff hsettles hmem, not_not, History.take_expired hlimit h.le]

theorem Reached.trimmed {current : Revision} {created : Bool}
    (h : Reached m g s added n s') (hsettles : Settles m g s added current created)
    (hlimit : 1 ≤ m.limitFor g)
    (hall : n = (expired (s.own g ++ added) (m.limitFor g)).length) :
    Trimmed g (m.limitFor g) (s.own g ++ added) s' (kept (s.own g ++ added) (m.limitFor g)) where
  shown := by
    refine ⟨_, revisionsOf_withoutFaults s' g, ?_⟩
    rw [h.own_eq hsettles, hall, List.take_length, History.expired_eq_take hlimit]
    exact (History.remaining_take_perm hsettles.distinct_own _).trans
      (History.kept_perm _ _).symm
  length := History.length_kept hlimit
  newest := by
    intro k hk d hd hkept hgone
    have hgone := (h.not_mem_items_iff hsettles hlimit hd).mp hgone
    have hkept : k ∉ (sorted (s.own g ++ added)).take n := fun htake =>
      (h.not_mem_items_iff hsettles hlimit hk).mpr htake hkept
    have hk := (History.sorted_perm _).mem_iff.mpr hk
    rw [← List.take_append_drop n (sorted (s.own g ++ added))] at hk
    exact History.precedes_of_mem_take_drop hgone ((List.mem_append.mp hk).resolve_left hkept)

theorem Reached.cutShort {current : Revision} {created : Bool}
    (h : Reached m g s added n s') (hsettles : Settles m g s added current created)
    (hlimit : 1 ≤ m.limitFor g)
    (hsome : n < (expired (s.own g ++ added) (m.limitFor g)).length) :
    CutShort (m.limitFor g) (s.own g ++ added) s' (s.own g ++ added) where
  reported := rfl
  oldest := by
    refine ⟨n, ?_, fun r hr => h.not_mem_items_iff hsettles hlimit hr⟩
    rw [History.length_expired hlimit, surplus] at hsome
    omega

end Settled

variable [FaultSource φ] {m : Manager} {g : Group} {s s' : Memory φ} {res : SyncResult}
  {j : Journal}

/-- **A sync reports what it retained.**  It considers the revisions it listed and the one it
created.  Without an interruption its answer is what the store now shows: the newest of these, up
to the limit.  With one its answer is all of them.  (Under a limit below one there is no
answer.) -/
theorem report_agrees (h : m.sync g s = ⟨.ok res, s', j⟩) :
    ∃ listed, (Sync.revisionsOf g s).answer = .ok listed ∧
      (res.interruption = none →
        Trimmed g (m.limitFor g) (listed ++ res.added) s' res.history) ∧
      (res.interruption ≠ none →
        CutShort (m.limitFor g) (listed ++ res.added) s' res.history) := by
  obtain ⟨existing, t, i, k, hown, -⟩ := Step.bind_eq_ok_iff.mp h
  have hlisted : existing = s.own g := by
    obtain ⟨listed, hlist, hexisting⟩ := Sync.list_of_revisionsOf hown
    obtain ⟨listed, rfl, rfl⟩ := map_eq_ok_iff.mp hexisting.symm
    rw [(list_spec hlist).2.2.2 listed rfl]
    rfl
  obtain ⟨added, n, b, hsettles, hreached, hends, hres, -⟩ := settled_of_ok h
  refine ⟨existing, by rw [hown], ?_⟩
  rw [hlisted, hsettles.added_eq]
  cases hends with
  | finished hlimit' hall =>
    rw [hres]
    exact ⟨fun _ => hreached.trimmed hsettles hlimit' hall, fun h => absurd rfl h⟩
  | interrupted cause hlimit' hsome _ =>
    rw [hres]
    exact ⟨fun h => (nomatch h), fun _ => hreached.cutShort hsettles hlimit' hsome⟩

/-- A store with two first revisions of the bare group, of which it fails to delete the second in
order. -/
def stubbornStore : Memory (List FaultRule) :=
  ((empty .earliest [⟨.delete, some "z", none, .failed "delete" "try again"⟩]).seed
    (firstRevision "z" "\x7b\x7d")).seed (firstRevision "a" "\x7b\x7d")

/-- Under a limit of one, both outcomes are met. -/
theorem report_agrees_keepingOne :
    (∃ res s' j, keepingOne.sync bareGroup tiedStore = ⟨.ok res, s', j⟩ ∧
      ∃ before, Trimmed bareGroup 1 before s' res.history) ∧
    ∃ res s' j, keepingOne.sync bareGroup stubbornStore = ⟨.ok res, s', j⟩ ∧
      ∃ before, CutShort 1 before s' res.history := by
  constructor
  · obtain ⟨res, s', j, h⟩ := Step.exists_of_isOk (s := tiedStore)
      (x := keepingOne.sync bareGroup) (by decide +kernel)
    obtain ⟨listed, -, htrimmed, -⟩ := report_agrees h
    refine ⟨res, s', j, h, _, htrimmed ?_⟩
    have hnone : ((keepingOne.sync bareGroup tiedStore).answer.toOption.bind
      (·.interruption)).isNone = true := by decide +kernel
    rw [h] at hnone
    exact Option.isNone_iff_eq_none.mp hnone
  · obtain ⟨res, s', j, h⟩ := Step.exists_of_isOk (s := stubbornStore)
      (x := keepingOne.sync bareGroup) (by decide +kernel)
    obtain ⟨listed, -, -, hcut⟩ := report_agrees h
    refine ⟨res, s', j, h, _, hcut ?_⟩
    have hsome : ((keepingOne.sync bareGroup stubbornStore).answer.toOption.bind
      (·.interruption)).isSome = true := by decide +kernel
    rw [h] at hsome
    exact Option.isSome_iff_ne_none.mp hsome

end Memory

end RolloutLedger
