import RolloutLedger.Proofs.History.Retention
import RolloutLedger.Proofs.Revision.Build
import RolloutLedger.Proofs.Sync.Course
/-! # What a sync does

A sync lists the revisions of a group, builds a candidate with the next number, settles on a
current revision and retains the history.  A sync that answers has gone through all of this; one
that failed stopped somewhere.  In either case the store is left with what it held, with at most
one revision more, and without some of the oldest revisions of the group, at most the surplus.
-/

namespace RolloutLedger

open Store (remaining)
open History (highest? nextNumber sorted surplus)

/-- The revision that a sync added, if it added one. -/
def SyncResult.added (res : SyncResult) : List Revision :=
  if res.created then [res.current] else []

namespace Sync

/-- How a sync settles on the current revision: the highest one if it records the same as the
candidate, and otherwise a stored copy of the candidate. -/
inductive Settled (existing : List Revision) (candidate : Revision) (res : SyncResult) : Prop
  | reused (notCreated : res.created = false) (highest : highest? existing = some res.current)
      (same : res.current.sameContent candidate = true)
  | stored (created : res.created = true) (copy : res.current.IsCopyOf candidate)
      (changed : ∀ r, highest? existing = some r → r.sameContent candidate = false)

end Sync

/-! ## A sync that answers -/

section Answered

variable {σ : Type} [RevisionStore σ] [LawfulStore σ] {s s' : σ} {m : Manager} {g : Group}
  {rs : List Revision} {j : Journal}

/-- The history of a group before retention: what the sync found and what it added. -/
def Sync.considered (g : Group) (rs : List Revision) (res : SyncResult) : List Revision :=
  g.revisionsAmong rs ++ res.added

structure Sync.Done (m : Manager) (g : Group) (rs : List Revision) (s' : σ) (res : SyncResult)
    (candidate : Revision) (pruned : Nat) : Prop where
  built : Revision.build m.hashOptions g (nextNumber (g.revisionsAmong rs)) = .ok candidate
  settled : Sync.Settled (g.revisionsAmong rs) candidate res
  distinct : ((rs ++ res.added).map Revision.address).Nodup
  pruned_le : pruned ≤ surplus (considered g rs res) (m.limitFor g)
  holds : LawfulStore.Holds s'
    (remaining (rs ++ res.added) ((sorted (considered g rs res)).take pruned))
  finished : res.interruption = none →
    pruned = surplus (considered g rs res) (m.limitFor g) ∧
      res.history = History.kept (considered g rs res) (m.limitFor g)
  interrupted : res.interruption ≠ none → res.history = considered g rs res

theorem Sync.retain_of_ok {history : List Revision} {current : Revision} {created : Bool}
    {res : SyncResult} (hs : LawfulStore.Holds s rs) (hlimit : 1 ≤ m.limitFor g)
    (h : Sync.retain m g history current created s = ⟨.ok res, s', j⟩) :
    res.current = current ∧ res.created = created ∧ j.creations = [] ∧
      ∃ pruned ≤ surplus history (m.limitFor g),
        LawfulStore.Holds s' (remaining rs ((sorted history).take pruned)) ∧
        (res.interruption = none → pruned = surplus history (m.limitFor g) ∧
          res.history = History.kept history (m.limitFor g)) ∧
        (res.interruption ≠ none → res.history = history) := by
  obtain ⟨outcome, i, hprune, hanswer, hcalls, -⟩ := Sync.prune_of_retain h
  obtain ⟨pruned, hpruned, hholds, hkept, hretained, hquiet⟩ := History.prune_spec hs hlimit hprune
  obtain ⟨outcome, rfl, rfl⟩ := map_eq_ok_iff.mp hanswer.symm
  have hquiet : j.creations = [] := by
    rw [Journal.creations, hcalls]
    exact hquiet
  cases outcome with
  | ok answer =>
    obtain ⟨hall, rfl⟩ := hkept answer rfl
    exact ⟨rfl, rfl, hquiet, pruned, hpruned, hholds, fun _ => ⟨hall, rfl⟩,
      fun hnone => absurd rfl hnone⟩
  | error i =>
    refine ⟨rfl, rfl, hquiet, pruned, hpruned, hholds, ?_, fun _ => hretained i rfl⟩
    intro hnone
    cases hnone

/-- **What a sync that answers has done.** -/
theorem Sync.done_of_ok {res : SyncResult} (hs : LawfulStore.Holds s rs)
    (hlimit : 1 ≤ m.limitFor g)
    (haccepts : ∀ n r, Revision.build m.hashOptions g n = .ok r → LawfulStore.Accepts σ r)
    (h : m.sync g s = ⟨.ok res, s', j⟩) :
    ∃ candidate pruned, Sync.Done m g rs s' res candidate pruned ∧
      (res.created = false → j.creations = []) := by
  cases Sync.course_of_sync h with
  | @reused listed t i candidate r _ k hlist hbuilt hhighest hsame hretain =>
    have hquiet := LawfulStore.list_creations hlist
    obtain ⟨rfl, hs₁⟩ := LawfulStore.list_ok hs hlist
    obtain ⟨hcurrent, hcreated, hquiet', pruned, hpruned, hholds, hfinished, hinterrupted⟩ :=
      Sync.retain_of_ok hs₁ hlimit hretain
    have hadded : res.added = [] := by
      rw [SyncResult.added, hcreated, if_neg Bool.false_ne_true]
    have hhistory : Sync.considered g listed res = g.revisionsAmong listed := by
      rw [Sync.considered, hadded, List.append_nil]
    refine ⟨candidate, pruned, ⟨hbuilt, ?_, ?_, ?_, ?_, ?_, ?_⟩, fun _ => ?_⟩
    · exact .reused hcreated (hcurrent ▸ hhighest) (hcurrent ▸ hsame)
    · rw [hadded, List.append_nil]
      exact LawfulStore.distinct hs
    · rw [hhistory]
      exact hpruned
    · rw [hhistory, hadded, List.append_nil]
      exact hholds
    · rw [hhistory]
      exact hfinished
    · rw [hhistory]
      exact hinterrupted
    · rw [Journal.creations_append, Journal.creations_append, hquiet, hquiet']
      rfl
  | @created listed t i candidate r t' k _ l hlist hbuilt hchanged hcreate hretain =>
    obtain ⟨rfl, hs₁⟩ := LawfulStore.list_ok hs hlist
    obtain ⟨hcopy, hs₂⟩ := LawfulStore.create_ok hs₁ (haccepts _ _ hbuilt) hcreate
    obtain ⟨hcurrent, hcreated, -, pruned, hpruned, hholds, hfinished, hinterrupted⟩ :=
      Sync.retain_of_ok hs₂ hlimit hretain
    have hadded : res.added = [r] := by rw [SyncResult.added, if_pos hcreated, hcurrent]
    have hhistory : Sync.considered g listed res = g.revisionsAmong listed ++ [r] := by
      rw [Sync.considered, hadded]
    refine ⟨candidate, pruned, ⟨hbuilt, ?_, ?_, ?_, ?_, ?_, ?_⟩, fun hnot => ?_⟩
    · exact .stored hcreated (hcurrent ▸ hcopy) hchanged
    · rw [hadded]
      exact LawfulStore.distinct hs₂
    · rw [hhistory]
      exact hpruned
    · rw [hhistory, hadded]
      exact hholds
    · rw [hhistory]
      exact hfinished
    · rw [hhistory]
      exact hinterrupted
    · rw [hcreated] at hnot
      exact Bool.noConfusion hnot

/-- The current revision is the highest of the history that a sync retains. -/
theorem Sync.Done.highest?_eq {res : SyncResult} {candidate : Revision} {pruned : Nat}
    (h : Sync.Done m g rs s' res candidate pruned) :
    highest? (Sync.considered g rs res) = some res.current := by
  unfold Sync.considered
  cases h.settled with
  | reused hcreated hhighest _ =>
    rw [SyncResult.added, if_neg (by rw [hcreated]; exact Bool.false_ne_true), List.append_nil]
    exact hhighest
  | stored hcreated hcopy _ =>
    rw [SyncResult.added, if_pos hcreated]
    exact History.highest?_append_next
      (hcopy.number.trans (Revision.number_of_build h.built))

end Answered

/-! ## A sync that may fail -/

section Effect

variable {σ : Type} [RevisionStore σ] [AtomicStore σ] {s s' : σ} {m : Manager} {g : Group}
  {rs : List Revision} {j : Journal}

/-- What a sync of a group may have added to a store: nothing, or a copy of a revision built for
the group with the next number. -/
inductive Sync.Added (m : Manager) (g : Group) (rs : List Revision) : List Revision → Prop
  | nothing : Added m g rs []
  | copy (candidate r : Revision)
      (built : Revision.build m.hashOptions g (nextNumber (g.revisionsAmong rs)) = .ok candidate)
      (isCopy : r.IsCopyOf candidate) : Added m g rs [r]

/-- What a sync leaves of a store that held some revisions: what it added is there, and some of the
oldest revisions of the group are not. -/
structure Sync.Leaves (m : Manager) (g : Group) (rs : List Revision) (s' : σ)
    (added : List Revision) (pruned : Nat) : Prop where
  grown : Sync.Added m g rs added
  distinct : ((rs ++ added).map Revision.address).Nodup
  pruned_le : pruned ≤ surplus (g.revisionsAmong rs ++ added) (m.limitFor g)
  holds : LawfulStore.Holds s'
    (remaining (rs ++ added) ((sorted (g.revisionsAmong rs ++ added)).take pruned))

theorem Sync.leaves_unchanged (hs : LawfulStore.Holds s rs) : Sync.Leaves m g rs s [] 0 where
  grown := .nothing
  distinct := by
    rw [List.append_nil]
    exact LawfulStore.distinct hs
  pruned_le := Nat.zero_le _
  holds := by
    rw [List.take_zero, Store.remaining_nil, List.append_nil]
    exact hs

/-- Whatever retention comes to, it leaves some of the oldest revisions out. -/
theorem Sync.leaves_of_retain {added history : List Revision} {current : Revision} {created : Bool}
    {a : Except Error SyncResult} (hadded : Sync.Added m g rs added)
    (hs : LawfulStore.Holds s (rs ++ added)) (hlimit : 1 ≤ m.limitFor g)
    (hhistory : history = g.revisionsAmong rs ++ added)
    (h : Sync.retain m g history current created s = ⟨a, s', j⟩) :
    ∃ pruned, Sync.Leaves m g rs s' added pruned := by
  subst hhistory
  have hdistinct := LawfulStore.distinct hs
  obtain ⟨outcome, i, hprune, -⟩ := Sync.prune_of_retain h
  obtain ⟨pruned, hpruned, hs', -⟩ := History.prune_spec hs hlimit hprune
  exact ⟨pruned, hadded, hdistinct, hpruned, hs'⟩

/-- **What a sync leaves, however it ends.**  At most one revision is added, and then some of the
oldest revisions of the group are deleted, at most the surplus. -/
theorem Sync.exists_leaves {a : Except Error SyncResult} (hs : LawfulStore.Holds s rs)
    (hlimit : 1 ≤ m.limitFor g)
    (haccepts : ∀ n r, Revision.build m.hashOptions g n = .ok r → LawfulStore.Accepts σ r)
    (h : m.sync g s = ⟨a, s', j⟩) :
    ∃ added pruned, Sync.Leaves m g rs s' added pruned := by
  cases Sync.course_of_sync h with
  | unlisted hlist => exact ⟨[], 0, Sync.leaves_unchanged (AtomicStore.list_error hs hlist)⟩
  | unbuilt hlist hfailed =>
    exact ⟨[], 0, Sync.leaves_unchanged (LawfulStore.list_ok hs hlist).2⟩
  | uncreated hlist hbuilt hchanged hcreate =>
    have hs₁ := (LawfulStore.list_ok hs hlist).2
    exact ⟨[], 0, Sync.leaves_unchanged (AtomicStore.create_error hs₁ hcreate)⟩
  | @reused listed _ _ _ _ _ _ hlist hbuilt hhighest hsame hretain =>
    obtain ⟨rfl, hs₁⟩ := LawfulStore.list_ok hs hlist
    rw [← List.append_nil listed] at hs₁
    obtain ⟨pruned, hleaves⟩ := Sync.leaves_of_retain .nothing hs₁ hlimit
      (List.append_nil _).symm hretain
    exact ⟨[], pruned, hleaves⟩
  | @created listed t i candidate r t' k _ l hlist hbuilt hchanged hcreate hretain =>
    obtain ⟨rfl, hs₁⟩ := LawfulStore.list_ok hs hlist
    obtain ⟨hcopy, hs₂⟩ := LawfulStore.create_ok hs₁ (haccepts _ _ hbuilt) hcreate
    obtain ⟨pruned, hleaves⟩ := Sync.leaves_of_retain (.copy candidate r hbuilt hcopy) hs₂ hlimit
      rfl hretain
    exact ⟨[r], pruned, hleaves⟩

end Effect

end RolloutLedger
