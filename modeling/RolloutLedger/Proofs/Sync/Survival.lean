import RolloutLedger.Proofs.Store.Memory
import RolloutLedger.Proofs.Sync.Outcome
/-! # Whether the current revision survives

Retention deletes the first revisions in order, and the current revision stands in front of its
rivals only.  So the current revision survives its own sync unless its rivals alone fill what is
retained: it survives whenever numbers are not shared, and may be lost when they are.
-/

namespace RolloutLedger

open Store (remaining)
open History (highest? rivals sorted surplus)

/-! ## Places in a list -/

section Places

variable {α : Type} {c : α} {before after : List α} {n : Nat}

theorem mem_take_iff_of_nodup (h : (before ++ c :: after).Nodup) :
    c ∈ (before ++ c :: after).take n ↔ before.length < n := by
  obtain ⟨-, hafter, hdisjoint⟩ := List.nodup_append.mp h
  have hbefore : c ∉ before := fun hc => hdisjoint c hc c List.mem_cons_self rfl
  rw [List.take_append, List.mem_append]
  constructor
  · rintro (hc | hc)
    · exact absurd (List.mem_of_mem_take hc) hbefore
    · cases hn : n - before.length with
      | zero =>
        rw [hn] at hc
        exact absurd hc List.not_mem_nil
      | succ k => omega
  · intro hn
    obtain ⟨k, hk⟩ := Nat.exists_eq_succ_of_ne_zero (show n - before.length ≠ 0 by omega)
    rw [hk]
    exact Or.inr List.mem_cons_self

end Places

/-! ## Any lawful store -/

namespace Sync

section Done

variable {σ : Type} [RevisionStore σ] [LawfulStore σ] {s' : σ} {m : Manager} {g : Group}
  {rs : List Revision} {res : SyncResult} {candidate : Revision} {pruned : Nat}

theorem considered_sublist (g : Group) (rs : List Revision) (res : SyncResult) :
    (considered g rs res).Sublist (rs ++ res.added) :=
  List.filter_sublist.append (List.Sublist.refl _)

theorem Done.nodup_sorted (h : Done m g rs s' res candidate pruned) :
    ((sorted (considered g rs res)).map Revision.address).Nodup :=
  ((History.sorted_perm _).map _).nodup_iff.mpr
    (h.distinct.sublist ((considered_sublist g rs res).map _))

/-- A revision of the history is left exactly if it is not among those that were deleted. -/
theorem Done.mem_remaining_iff (h : Done m g rs s' res candidate pruned) {r : Revision}
    (hr : r ∈ considered g rs res) :
    r ∈ remaining (rs ++ res.added) ((sorted (considered g rs res)).take pruned) ↔
      r ∉ (sorted (considered g rs res)).take pruned := by
  refine Store.mem_remaining_iff_of_distinct h.distinct (fun d hd => ?_)
    ((considered_sublist g rs res).subset hr)
  have hd := (History.sorted_perm _).mem_iff.mp (List.mem_of_mem_take hd)
  exact (considered_sublist g rs res).subset hd

/-- **Where retention stops short of the current revision.**  It is left in the store exactly if
its rivals and the deleted revisions together are fewer than the history. -/
theorem Done.current_remains_iff (h : Done m g rs s' res candidate pruned) :
    res.current ∈ remaining (rs ++ res.added) ((sorted (considered g rs res)).take pruned) ↔
      (rivals res.current (considered g rs res)).length + pruned <
        (considered g rs res).length := by
  obtain ⟨before, after, hsplit, hafter⟩ := History.sorted_split h.highest?_eq
  have hnodup : (before ++ res.current :: after).Nodup := by
    rw [← hsplit]
    exact h.nodup_sorted.of_map _
  have hlength := (History.sorted_perm (considered g rs res)).length_eq
  rw [h.mem_remaining_iff (History.mem_of_highest? h.highest?_eq)]
  rw [hsplit, mem_take_iff_of_nodup hnodup]
  rw [hsplit, List.length_append, List.length_cons] at hlength
  omega

theorem Done.mem_history (h : Done m g rs s' res candidate pruned)
    (hremains : res.current ∈
      remaining (rs ++ res.added) ((sorted (considered g rs res)).take pruned)) :
    res.current ∈ res.history := by
  have hmem : res.current ∈ considered g rs res := History.mem_of_highest? h.highest?_eq
  by_cases hnone : res.interruption = none
  · obtain ⟨hpruned, hhistory⟩ := h.finished hnone
    rw [hhistory, History.kept]
    split
    · exact hmem
    · have hnot := (h.mem_remaining_iff hmem).mp hremains
      have hsorted := (History.sorted_perm (considered g rs res)).mem_iff.mpr hmem
      rw [← List.take_append_drop pruned (sorted (considered g rs res))] at hsorted
      rw [hpruned] at hsorted hnot
      exact (List.mem_append.mp hsorted).resolve_left hnot
  · rw [h.interrupted hnone]
    exact hmem

end Done

end Sync

theorem Manager.one_le_limitFor {m : Manager} (h : 1 ≤ m.historyLimit) (g : Group) :
    1 ≤ m.limitFor g := by
  rw [Manager.limitFor, Group.limitOr]
  split
  · exact h
  · exact Int.le_max_right _ _

/-! ## The smallest groups -/

def bareGroup : Group where
  metadata := { Metadata.empty with name := "g", ns := "ns", uid := "u" }
  spec := ⟨[], none, none⟩

def gangGroup : Group :=
  { bareGroup with spec := { bareGroup.spec with policy := some ⟨none, none⟩ } }

def keepingOne : Manager := ⟨1, .standard⟩

/-! ## The store in memory -/

namespace Memory

variable {φ : Type} [FaultSource φ] {s s' : Memory φ} {m : Manager} {g : Group}
  {res : SyncResult} {j : Journal}

def missing (s : Memory φ) (revisions : List Revision) : List Revision :=
  revisions.filter fun r => !s.revisions.holds r.address

/-- Afterwards the store holds of a history what was not deleted. -/
theorem holds_address_iff {candidate : Revision} {pruned : Nat}
    (h : Sync.Done m g s.revisions.items s' res candidate pruned) {r : Revision}
    (hr : r ∈ Sync.considered g s.revisions.items res) :
    s'.revisions.holds r.address = true ↔
      r ∉ (sorted (Sync.considered g s.revisions.items res)).take pruned := by
  have hmem := (Sync.considered_sublist g s.revisions.items res).subset hr
  rw [← h.mem_remaining_iff hr]
  refine (Catalog.holds_iff _ _).trans ?_
  rw [holds_iff.mp h.holds]
  refine ⟨fun haddress => ?_, fun hr => List.mem_map_of_mem hr⟩
  obtain ⟨x, hx, hxr⟩ := List.mem_map.mp haddress
  have hx' := (Store.mem_remaining_iff.mp hx).1
  rwa [← List.inj_on_of_nodup_map h.distinct hx' hmem hxr]

theorem length_missing {candidate : Revision} {pruned : Nat} (hlimit : 1 ≤ m.limitFor g)
    (h : Sync.Done m g s.revisions.items s' res candidate pruned) :
    (s'.missing (Sync.considered g s.revisions.items res)).length = pruned := by
  have hperm := History.sorted_perm (Sync.considered g s.revisions.items res)
  have hholds := fun r hr => holds_address_iff h (r := r) (hperm.mem_iff.mp hr)
  have hpruned := h.pruned_le
  have hnodup : (sorted (Sync.considered g s.revisions.items res)).Nodup :=
    h.nodup_sorted.of_map _
  rw [surplus, ← hperm.length_eq] at hpruned
  rw [missing, ← (hperm.filter _).length_eq]
  generalize sorted (Sync.considered g s.revisions.items res) = ordered at *
  have hsplit := List.take_append_drop pruned ordered
  rw [← hsplit] at hnodup
  obtain ⟨-, -, hdisjoint⟩ := List.nodup_append.mp hnodup
  rw [← hsplit, List.filter_append, List.filter_eq_self.mpr, List.filter_eq_nil_iff.mpr,
    List.append_nil, List.length_take]
  · omega
  · intro r hr
    rw [(hholds r (List.mem_of_mem_drop hr)).mpr fun htake => hdisjoint r htake r hr rfl]
    exact Bool.noConfusion
  · intro r hr
    rw [Bool.not_eq_true', Bool.eq_false_iff]
    exact fun htrue => (hholds r (List.mem_of_mem_take hr)).mp htrue hr

/-- **When the current revision survives its sync.**  If the sync was not interrupted, the current
revision is in the store and in the history exactly if fewer revisions than the limit are ordered
behind it.  In any case it is so exactly if the revisions behind it and those that were deleted are
together fewer than the history was. -/
theorem current_survives_iff (hlimit : 1 ≤ m.historyLimit)
    (h : m.sync g s = ⟨.ok res, s', j⟩) :
    ((res.current ∈ s'.revisions.items ∧ res.current ∈ res.history) ↔
      (rivals res.current (Sync.considered g s.revisions.items res)).length +
        (s'.missing (Sync.considered g s.revisions.items res)).length <
          (Sync.considered g s.revisions.items res).length) ∧
    (res.interruption = none →
      ((res.current ∈ s'.revisions.items ∧ res.current ∈ res.history) ↔
        ((rivals res.current (Sync.considered g s.revisions.items res)).length : Int) <
          m.limitFor g)) := by
  obtain ⟨candidate, pruned, hdone, -⟩ := Sync.done_of_ok (holds_items s)
    (Manager.one_le_limitFor hlimit g) (fun _ r _ => accepts r) h
  have hitems := holds_iff.mp hdone.holds
  have hkept : (res.current ∈ s'.revisions.items ∧ res.current ∈ res.history) ↔
      (rivals res.current (Sync.considered g s.revisions.items res)).length + pruned <
        (Sync.considered g s.revisions.items res).length := by
    rw [hitems, and_iff_left_of_imp hdone.mem_history, hdone.current_remains_iff]
  constructor
  · rw [length_missing (Manager.one_le_limitFor hlimit g) hdone]
    exact hkept
  intro hnone
  refine hkept.trans ?_
  have hpruned := (hdone.finished hnone).1
  have hone := Manager.one_le_limitFor hlimit g
  have hrivals : (rivals res.current (Sync.considered g s.revisions.items res)).length <
      (Sync.considered g s.revisions.items res).length :=
    History.length_rivals_lt (History.mem_of_highest? hdone.highest?_eq)
  rw [surplus] at hpruned
  omega

/-! ### A tie

Two revisions share a number.  The one that records what the group declares is listed last, so it
is the highest; its name comes first, so it is the oldest in order. -/

def firstRevision (name text : String) : Revision where
  metadata :=
    { Metadata.empty with
      name := name, ns := "ns", labels := [Entries.field nameLabel (.text "g")] }
  number := 1
  data := ⟨some (Utf8.encode text.toList), .null⟩

def tiedStore : Memory Unit :=
  ((empty .earliest ()).seed (firstRevision "z" "\x7b\x7d")).seed <| firstRevision "a"
    "\x7b\"spec\":\x7b\"$patch\":\"replace\",\"podGroupPolicy\":null,\"roles\":[]\x7d\x7d"

theorem current_survives_iff_tied :
    1 ≤ keepingOne.historyLimit ∧ ∃ res s' j,
      keepingOne.sync bareGroup tiedStore = ⟨.ok res, s', j⟩ ∧
      ((res.current ∈ s'.revisions.items ∧ res.current ∈ res.history) ↔
        (rivals res.current
            (Sync.considered bareGroup tiedStore.revisions.items res)).length +
          (s'.missing (Sync.considered bareGroup tiedStore.revisions.items res)).length <
            (Sync.considered bareGroup tiedStore.revisions.items res).length) := by
  obtain ⟨res, s', j, h⟩ := Step.exists_of_isOk (s := tiedStore)
    (x := keepingOne.sync bareGroup) (by decide +kernel)
  exact ⟨by decide, res, s', j, h, (current_survives_iff (by decide) h).1⟩

/-- The sync reports a revision as current that it has deleted. -/
theorem current_lost_in_tie :
    ∃ res s' j, keepingOne.sync bareGroup tiedStore = ⟨.ok res, s', j⟩ ∧
      1 ≤ keepingOne.historyLimit ∧ res.created = false ∧ res.interruption = none ∧
      res.current.name = "a" ∧ res.current ∉ s'.revisions.items ∧
      res.current ∉ res.history := by
  have hfacts : (match keepingOne.sync bareGroup tiedStore with
      | ⟨.ok res, s', _⟩ => !res.created && res.interruption.isNone && res.current.name == "a" &&
          s'.revisions.items.all (·.name == "z") && res.history.all (·.name == "z")
      | ⟨.error _, _, _⟩ => false) = true := by decide +kernel
  rcases h : keepingOne.sync bareGroup tiedStore with ⟨a, s', j⟩
  rw [h] at hfacts
  cases a with
  | error e => exact Bool.noConfusion hfacts
  | ok res =>
    simp only [Bool.and_eq_true, Bool.not_eq_true', Option.isNone_iff_eq_none, beq_iff_eq,
      List.all_eq_true] at hfacts
    obtain ⟨⟨⟨⟨hcreated, hnone⟩, hname⟩, hitems⟩, hhistory⟩ := hfacts
    refine ⟨res, s', j, rfl, by decide, hcreated, hnone, hname, fun hmem => ?_, fun hmem => ?_⟩
    · exact absurd (hname.symm.trans (hitems _ hmem)) (by decide)
    · exact absurd (hname.symm.trans (hhistory _ hmem)) (by decide)

end Memory

end RolloutLedger
