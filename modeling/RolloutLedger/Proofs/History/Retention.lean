import RolloutLedger.Proofs.History.Order
import RolloutLedger.Proofs.Outcomes
import RolloutLedger.Proofs.Store.Lawful
/-! # What retention deletes

Retention deletes from the front of a history in order, and never more than the surplus.  Its
course is said once, for every store, in `Deleting` and `Pruning`.  From it follows that, however
it ends, a lawful store is left without some number of the oldest revisions and with everything
else.
-/

namespace RolloutLedger.History

open Store (remaining)

/-! ## What is expired and what is kept -/

section Expired

variable {history : List Revision} {limit : Int}

/-- The revisions that retention sets out to delete, in this order. -/
def expired (history : List Revision) (limit : Int) : List Revision :=
  if limit < 1 then [] else (sorted history).take (surplus history limit)

/-- The history that a retention which ran to its end answers with. -/
def kept (history : List Revision) (limit : Int) : List Revision :=
  if surplus history limit = 0 then history else (sorted history).drop (surplus history limit)

theorem expired_eq_take (h : 1 ≤ limit) :
    expired history limit = (sorted history).take (surplus history limit) := by
  unfold expired
  rw [if_neg (by omega)]

theorem length_expired (h : 1 ≤ limit) :
    (expired history limit).length = surplus history limit := by
  rw [expired_eq_take h, List.length_take, (sorted_perm history).length_eq, Nat.min_eq_left]
  rw [surplus]
  omega

theorem mem_of_mem_expired {r : Revision} (h : r ∈ expired history limit) : r ∈ history := by
  unfold expired at h
  split at h
  · exact absurd h List.not_mem_nil
  · exact (sorted_perm history).mem_iff.mp (List.mem_of_mem_take h)

theorem take_expired {n : Nat} (h : 1 ≤ limit) (hn : n ≤ (expired history limit).length) :
    (expired history limit).take n = (sorted history).take n := by
  rw [length_expired h] at hn
  rw [expired_eq_take h, List.take_take, Nat.min_eq_left hn]

theorem kept_perm (history : List Revision) (limit : Int) :
    (kept history limit).Perm ((sorted history).drop (surplus history limit)) := by
  unfold kept
  split
  · rename_i hnone
    rw [hnone, List.drop_zero]
    exact (sorted_perm history).symm
  · exact List.Perm.refl _

theorem length_kept (h : 1 ≤ limit) :
    ((kept history limit).length : Int) = min (history.length : Int) limit := by
  rw [(kept_perm history limit).length_eq, List.length_drop, (sorted_perm history).length_eq,
    surplus]
  omega

end Expired

/-! ## The course of retention -/

/-- What the first deletion that fails comes to: a failure of the store is told, any other one is
passed on. -/
def stoppedBy : Error → Except Error (Option StoreFailure)
  | .store cause => .ok (some cause)
  | e => .error e

def conclude (history : List Revision) (limit : Int) :
    Option StoreFailure → Except Interruption (List Revision)
  | none => .ok (kept history limit)
  | some cause => .error ⟨history, cause⟩

variable {σ : Type} [RevisionStore σ]

/-- How deleting some revisions goes: one after the other, up to the first that fails. -/
inductive Deleting : List Revision → σ → σ → Except Error (Option StoreFailure) → Journal → Prop
  | done {s} : Deleting [] s s (.ok none) []
  | deleted {d ds s t s' a i j} (deletion : RevisionStore.delete d s = ⟨.ok (), t, i⟩)
    (rest : Deleting ds t s' a j) : Deleting (d :: ds) s s' a (i ++ (prunedNotes d ++ j))
  | stopped {d ds s s' e a i j} (deletion : RevisionStore.delete d s = ⟨.error e, s', i⟩)
    (answer : a = stoppedBy e) (calls : j.calls = []) (counters : j.counters = []) :
    Deleting (d :: ds) s s' a (i ++ j)

variable {s s' : σ} {rs history : List Revision} {limit : Int} {j : Journal}

theorem deleting_of_deleteAll {ds : List Revision} {a : Except Error (Option StoreFailure)}
    (h : deleteAll ds s = ⟨a, s', j⟩) : Deleting ds s s' a j := by
  induction ds generalizing s j with
  | nil =>
    cases h
    exact .done
  | cons d ds ih =>
    rw [deleteAll, Step.bind_eq_iff] at h
    rcases h with ⟨e, hd, -⟩ | ⟨b, t, i, k, hd, hrest, rfl⟩
    · exact nomatch congrArg Outcome.answer hd
    have hd := Step.attempt_eq_ok_iff.mp hd
    cases b with
    | ok u =>
      rw [Step.bind_eq_iff] at hrest
      rcases hrest with ⟨e, hnote, -⟩ | ⟨_, t', i', k', hnote, hrest, rfl⟩
      · exact nomatch congrArg Outcome.answer hnote
      cases hnote
      exact .deleted hd (ih hrest)
    | error e => cases e <;> cases hrest <;> exact .stopped hd rfl rfl rfl

theorem prune_of_length_le (hlimit : 1 ≤ limit) (h : (history.length : Int) ≤ limit) :
    prune history limit s = ⟨.ok (.ok history), s, []⟩ := by
  have hnone : surplus history limit = 0 := by
    rw [surplus]
    omega
  rw [prune, if_neg (by omega), if_pos hnone]
  rfl

inductive Pruning (history : List Revision) (limit : Int) (s : σ) :
    σ → Except Error (Except Interruption (List Revision)) → Journal → Prop
  | forbidden (tooSmall : limit < 1) :
    Pruning history limit s s (.error (.limitTooSmall (Decimal.text limit))) []
  | allowed {s' : σ} {a : Except Error (Option StoreFailure)} {j : Journal} (valid : 1 ≤ limit)
    (deleting : Deleting (expired history limit) s s' a j) :
    Pruning history limit s s' (a.map (conclude history limit)) j

/-- **Every retention goes one of these ways.** -/
theorem pruning_of_prune {a : Except Error (Except Interruption (List Revision))}
    (h : prune history limit s = ⟨a, s', j⟩) : Pruning history limit s s' a j := by
  unfold prune at h
  by_cases hlimit : limit < 1
  · rw [if_pos hlimit] at h
    cases h
    exact .forbidden hlimit
  rw [if_neg hlimit] at h
  have hlimit : 1 ≤ limit := by omega
  by_cases hsurplus : surplus history limit = 0
  -- within the limit nothing is expired, and no call is made
  · rw [if_pos hsurplus] at h
    cases h
    have hnone : expired history limit = [] := by
      rw [expired_eq_take hlimit, hsurplus, List.take_zero]
    have hdone : Deleting (expired history limit) s s (.ok none) [] := hnone ▸ .done
    have hpruning := Pruning.allowed hlimit hdone
    rw [Except.map, conclude, kept, if_pos hsurplus] at hpruning
    exact hpruning
  · rw [if_neg hsurplus] at h
    have hkept : kept history limit = (sorted history).drop (surplus history limit) := by
      rw [kept, if_neg hsurplus]
    rw [← expired_eq_take hlimit, ← hkept] at h
    rcases Step.bind_eq_iff.mp h with ⟨e, hd, rfl⟩ | ⟨b, t, i, k, hd, hrest, rfl⟩
    · exact .allowed hlimit (deleting_of_deleteAll hd)
    · cases b <;> cases hrest <;> rw [List.append_nil] <;>
        exact .allowed hlimit (deleting_of_deleteAll hd)

/-! ## In a lawful store -/

variable [LawfulStore σ]

/-- However deleting some revisions ends, the store is left without the first of them. -/
theorem Deleting.spec {ds : List Revision} {a : Except Error (Option StoreFailure)}
    (h : Deleting ds s s' a j) (hs : LawfulStore.Holds s rs) :
    ∃ n ≤ ds.length, LawfulStore.Holds s' (remaining rs (ds.take n)) ∧
      (a = .ok none → n = ds.length) ∧ j.creations = [] := by
  induction h generalizing rs with
  | done =>
    refine ⟨0, Nat.le_refl _, ?_, fun _ => rfl, rfl⟩
    rw [List.take_nil, Store.remaining_nil]
    exact hs
  | deleted deletion rest ih =>
    obtain ⟨n, hn, hholds, hall, hquiet⟩ := ih (LawfulStore.delete_ok hs deletion)
    refine ⟨n + 1, Nat.succ_le_succ hn, ?_, fun ha => ?_, ?_⟩
    · rw [List.take_succ_cons, ← Store.remaining_cons]
      exact hholds
    · rw [hall ha, List.length_cons]
    · rw [Journal.creations_append, Journal.creations_append,
        LawfulStore.delete_creations deletion, hquiet]
      rfl
  | @stopped _ _ _ _ e _ _ _ deletion answer calls _ =>
    refine ⟨0, Nat.zero_le _, ?_, fun ha => ?_, ?_⟩
    · rw [List.take_zero, Store.remaining_nil]
      exact LawfulStore.delete_error hs deletion
    · rw [answer] at ha
      cases e <;> exact nomatch ha
    · rw [Journal.creations_append, LawfulStore.delete_creations deletion, Journal.creations,
        calls]
      rfl

/-- **What retention does.**  Under a limit of at least one it leaves the store without some of
the oldest revisions, as many as are surplus if it ran to its end, and answers with the others;
when it was interrupted it answers with the history it was given. -/
theorem prune_spec {a : Except Error (Except Interruption (List Revision))}
    (hs : LawfulStore.Holds s rs) (hlimit : 1 ≤ limit) (h : prune history limit s = ⟨a, s', j⟩) :
    ∃ n ≤ surplus history limit,
      LawfulStore.Holds s' (remaining rs ((sorted history).take n)) ∧
      (∀ answer, a = .ok (.ok answer) → n = surplus history limit ∧ answer = kept history limit) ∧
      (∀ interruption, a = .ok (.error interruption) → interruption.retained = history) ∧
      j.creations = [] := by
  cases pruning_of_prune h with
  | forbidden tooSmall => omega
  | @allowed _ b _ _ deleting =>
    obtain ⟨n, hn, hholds, hall, hquiet⟩ := deleting.spec hs
    rw [take_expired hlimit hn] at hholds
    rw [length_expired hlimit] at hn hall
    refine ⟨n, hn, hholds, fun answer ha => ?_, fun interruption ha => ?_, hquiet⟩
    · obtain ⟨cause, rfl, hcause⟩ := map_eq_ok_iff.mp ha
      cases cause with
      | none => exact ⟨hall rfl, (Except.ok.inj hcause).symm⟩
      | some cause => exact nomatch hcause
    · obtain ⟨cause, rfl, hcause⟩ := map_eq_ok_iff.mp ha
      cases cause with
      | none => exact nomatch hcause
      | some cause =>
        cases hcause
        rfl

end RolloutLedger.History
