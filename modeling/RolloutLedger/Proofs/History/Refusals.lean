import RolloutLedger.Proofs.History.Convergence
/-! # Retention against refusals

A store in memory may refuse to delete certain revisions, told by their names, and no others,
however often it is asked.  Then it is known beforehand how retention goes: it deletes the surplus
in order up to the first revision that is refused, and asks for nothing behind it.
-/

namespace RolloutLedger.Memory

open History (Deleting Interruption conclude expired kept precedes prune sorted surplus)

/-! ## Refusals -/

section Refusals

variable {φ : Type} [FaultSource φ] {refusal : String → Option StoreFailure} {m m' : Memory φ}
  {r : Revision}

/-- A source of faults that has a failure for some names, which the deletion of a revision with such
a name meets, and lets all other deletions pass. -/
def Refuses (refusal : String → Option StoreFailure) (faults : φ) : Prop :=
  ∀ name, ∃ fault, FaultSource.next faults .delete (some name) = (fault, faults) ∧
    fault.map faultError = (refusal name).map Error.store

theorem delete_of_allowed (h : Refuses refusal m.faults) (hr : refusal r.name = none) :
    RevisionStore.delete r m = ⟨.ok (), m.remove r.address, [.called r.deletion]⟩ := by
  obtain ⟨fault, hnext, hfault⟩ := h r.name
  rw [hr, Option.map_none, Option.map_eq_none_iff] at hfault
  have hmet : meetFaults (.delete r.ns r.name) .delete (some r.name) m =
      ⟨.ok (), m, [.called r.deletion]⟩ := by
    rw [meetFaults, hnext, hfault]
    rfl
  exact Step.bind_apply_ok hmet _

theorem delete_of_refused {cause : StoreFailure} (h : Refuses refusal m.faults)
    (hr : refusal r.name = some cause) :
    RevisionStore.delete r m = ⟨.error (.store cause), m, [.called r.deletion]⟩ := by
  obtain ⟨fault, hnext, hfault⟩ := h r.name
  rw [hr, Option.map_some, Option.map_eq_some_iff] at hfault
  obtain ⟨f, rfl, hf⟩ := hfault
  have hmet : meetFaults (.delete r.ns r.name) .delete (some r.name) m =
      ⟨.error (.store cause), m, [.called r.deletion]⟩ := by
    rw [meetFaults, hnext, ← hf]
    rfl
  exact Step.bind_apply_error hmet _

/-- The script that refuses to delete revisions of some names, forever and with one detail. -/
def refusing (names : List String) (detail : String) : List FaultRule :=
  names.map fun n => ⟨.delete, some n, none, .failed Operation.delete.text detail⟩

theorem apply_refusing (names : List String) (detail name : String) :
    FaultRule.apply .delete (some name) (refusing names detail) =
      (if name ∈ names then some (.failed Operation.delete.text detail) else none,
        refusing names detail) := by
  induction names with
  | nil => rfl
  | cons n rest ih =>
    rw [refusing, List.map_cons, ← refusing, FaultRule.apply]
    by_cases hn : name = n
    · subst hn
      rw [if_pos, if_pos List.mem_cons_self]
      · rfl
      · simp [FaultRule.fits]
    · rw [if_neg, ih]
      · simp [hn]
      · simp [FaultRule.fits, Ne.symm hn]

theorem refuses_refusing (names : List String) (detail : String) :
    Refuses (fun n => if n ∈ names then some (.refused Operation.delete.text detail) else none)
      (refusing names detail) := by
  intro name
  refine ⟨_, apply_refusing names detail name, ?_⟩
  by_cases hname : name ∈ names
  · simp only [if_pos hname]
    rfl
  · simp only [if_neg hname]
    rfl

end Refusals

/-! ## Where retention stops -/

section Retention

variable {φ : Type} [FaultSource φ] {refusal : String → Option StoreFailure} {m m' : Memory φ}
  {history ordered : List Revision} {limit : Int} {j : Journal}

/-- How retention ends before what it has not deleted: with the newest revisions if nothing is left
to delete, and with the refusal of the first revision that is left otherwise. -/
inductive Ends (refusal : String → Option StoreFailure) (history newest : List Revision) :
    List Revision → Except Interruption (List Revision) → Prop
  | finished : Ends refusal history newest [] (.ok newest)
  | refused {r : Revision} {after : List Revision} {cause : StoreFailure}
    (h : refusal r.name = some cause) :
    Ends refusal history newest (r :: after) (.error ⟨history, cause⟩)

/-- Deleting goes on up to the first revision that is refused. -/
theorem exists_split_of_deleting {ds : List Revision} {a : Except Error (Option StoreFailure)}
    (h : Deleting ds m m' a j) (hrefuses : Refuses refusal m.faults) (history : List Revision)
    (limit : Int) :
    ∃ deleted rest answer, ds = deleted ++ rest ∧ (∀ d ∈ deleted, refusal d.name = none) ∧
      j.counters = List.replicate deleted.length .pruned ∧
      a.map (conclude history limit) = .ok answer ∧
      Ends refusal history (kept history limit) rest answer := by
  induction h with
  | done => exact ⟨[], [], _, rfl, fun d hd => absurd hd List.not_mem_nil, rfl, rfl, .finished⟩
  | @deleted d _ _ _ _ _ _ _ deletion _ ih =>
    cases hd : refusal d.name with
    | some cause =>
      rw [delete_of_refused hrefuses hd] at deletion
      exact nomatch congrArg Outcome.answer deletion
    | none =>
      rw [delete_of_allowed hrefuses hd] at deletion
      cases deletion
      obtain ⟨deleted, rest, answer, rfl, hallowed, hcounters, hanswer, hends⟩ := ih hrefuses
      refine ⟨d :: deleted, rest, answer, rfl, List.forall_mem_cons.mpr ⟨hd, hallowed⟩, ?_,
        hanswer, hends⟩
      rw [Journal.counters_append, Journal.counters_append, hcounters]
      rfl
  | @stopped d ds _ _ _ _ _ _ deletion answer _ counters =>
    cases hd : refusal d.name with
    | none =>
      rw [delete_of_allowed hrefuses hd] at deletion
      exact nomatch congrArg Outcome.answer deletion
    | some cause =>
      rw [delete_of_refused hrefuses hd] at deletion
      cases deletion
      subst answer
      refine ⟨[], d :: ds, _, rfl, fun d hd => absurd hd List.not_mem_nil, ?_, rfl, .refused hd⟩
      rw [Journal.counters_append, counters]
      rfl

/-- What retention leaves that has deleted some revisions and not come to the rest of its surplus:
which deletions it has asked for, what it has counted, and what is left in the store. -/
structure PrunedUpTo (refusal : String → Option StoreFailure)
    (history newest deleted rest : List Revision) (m m' : Memory φ)
    (answer : Except Interruption (List Revision)) (j : Journal) : Prop where
  allowed : ∀ d ∈ deleted, refusal d.name = none
  ends : Ends refusal history newest rest answer
  calls : j.calls = (deleted ++ rest.take 1).map Revision.deletion
  counters : j.counters = List.replicate deleted.length .pruned
  left : ∀ r, r ∈ m'.revisions.items ↔ r ∈ m.revisions.items ∧ r ∉ deleted

/-- A history beyond the limit loses its surplus up to the first revision that is refused. -/
theorem exists_prunedUpTo (hlimit : 1 ≤ limit) (hlong : limit < history.length)
    (hheld : history ⊆ m.revisions.items) (hrefuses : Refuses refusal m.faults) :
    ∃ deleted rest answer m' j, prune history limit m = ⟨.ok answer, m', j⟩ ∧
      (sorted history).take (surplus history limit) = deleted ++ rest ∧
      PrunedUpTo refusal history ((sorted history).drop (surplus history limit)) deleted rest m m'
        answer j := by
  have hkept : kept history limit = (sorted history).drop (surplus history limit) := by
    rw [kept, if_neg]
    rw [surplus]
    omega
  rcases hrun : prune history limit m with ⟨a, m', j⟩
  obtain ⟨n, hemptied, -⟩ := prune_cases hrun
  cases History.pruning_of_prune hrun with
  | forbidden tooSmall => omega
  | allowed _ deleting =>
    obtain ⟨deleted, rest, answer, hds, hallowed, hcounters, hanswer, hends⟩ :=
      exists_split_of_deleting deleting hrefuses history limit
    have hn : n = deleted.length := by
      simpa using congrArg List.length (hemptied.counters.symm.trans hcounters)
    subst hn
    have hexpired : expired history limit ⊆ m.revisions.items := fun d hd =>
      hheld (History.mem_of_mem_expired hd)
    have hleft := hemptied.mem_items_iff hexpired
    have hcalls := hemptied.calls
    rw [hds, List.take_left] at hleft
    rw [hds, List.take_length_add_append] at hcalls
    rw [History.expired_eq_take hlimit] at hds
    rw [hkept] at hends
    rw [hanswer]
    exact ⟨deleted, rest, answer, m', j, rfl, hds, hallowed, hends, hcalls, hcounters, hleft⟩

/-- **What retention does against refusals.**  Let all revisions of a history with different names
be in the store, and let the store refuse to delete some of them.  A history within the limit is
answered as it is, and no call is made.  Of a longer one, the surplus in order is deleted up to the
first revision that is refused, and nothing else.  If none is refused, the answer is what stands
behind the surplus in order, and otherwise the history as it was given, with the refusal. -/
theorem prune_up_to_refusal (hlimit : 1 ≤ limit) (hnames : (history.map Revision.name).Nodup)
    (hheld : history ⊆ m.revisions.items) (hrefuses : Refuses refusal m.faults)
    (hperm : ordered.Perm history) (hordered : ordered.Pairwise (precedes · · = true)) :
    ((history.length : Int) ≤ limit → prune history limit m = ⟨.ok (.ok history), m, []⟩) ∧
      (limit < history.length → ∃ deleted rest answer m' j,
        prune history limit m = ⟨.ok answer, m', j⟩ ∧
        ordered.take (surplus history limit) = deleted ++ rest ∧
        PrunedUpTo refusal history (ordered.drop (surplus history limit)) deleted rest m m' answer
          j) := by
  have hsorted : ordered = sorted history :=
    eq_sortBy History.precedes_isTotalOrder (History.separated_of_names hnames) hperm hordered
  subst hsorted
  exact ⟨History.prune_of_length_le hlimit, fun hlong =>
    exists_prunedUpTo hlimit hlong hheld hrefuses⟩

def refusingStore : Memory (List FaultRule) :=
  tiedHistory.foldl seed (empty .earliest (refusing ["b"] "403 Forbidden"))

/-- Two revisions are surplus, of which the second one is refused. -/
theorem prune_up_to_refusal_tied :
    ∃ (d r : Revision) (cause : StoreFailure) (m' : Memory (List FaultRule)) (j : Journal),
      prune tiedHistory 1 refusingStore = ⟨.ok (.error ⟨tiedHistory, cause⟩), m', j⟩ ∧
      d.name = "a" ∧ r.name = "b" ∧ j.calls = [d.deletion, r.deletion] ∧ j.counters = [.pruned] ∧
      ∀ x, x ∈ m'.revisions.items ↔ x ∈ tiedHistory ∧ x ∉ [d] := by
  have hheld : tiedHistory ⊆ refusingStore.revisions.items := List.Subset.refl tiedHistory
  obtain ⟨-, hlong⟩ := prune_up_to_refusal (show (1 : Int) ≤ 1 by decide) (by decide) hheld
    (refuses_refusing ["b"] "403 Forbidden") (History.sorted_perm tiedHistory)
    (sortBy_pairwise History.precedes_isTotalOrder tiedHistory)
  obtain ⟨deleted, rest, answer, m', j, hrun, htake, allowed, ends, calls, counters, left⟩ :=
    hlong (by decide)
  have hnames : (deleted ++ rest).map Revision.name = ["a", "b"] := by
    rw [← htake]
    decide +kernel
  rcases deleted with _ | ⟨d, _ | ⟨e, after⟩⟩
  · cases ends with
    | finished => exact nomatch hnames
    | @refused r _ _ hr =>
      rw [(List.cons.inj hnames).1] at hr
      exact nomatch hr
  · obtain ⟨hd, hnames⟩ := List.cons.inj hnames
    cases ends with
    | finished => exact nomatch hnames
    | @refused r _ cause hr =>
      exact ⟨d, r, cause, m', j, hrun, hd, (List.cons.inj hnames).1, calls, counters, left⟩
  · have he := allowed e (List.mem_cons_of_mem d List.mem_cons_self)
    rw [(List.cons.inj (List.cons.inj hnames).2).1] at he
    exact nomatch he

end Retention

end RolloutLedger.Memory
