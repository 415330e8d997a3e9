import RolloutLedger.Proofs.Sync.Isolation
/-! # What a failed sync leaves

Until its revision is created a sync changes nothing, and what the store refuses after that does not
make it fail.  But the limit of a history is checked only when the history is about to be cut.  A
manager that would keep less than one revision fails there, with its new revision already stored.
-/

namespace RolloutLedger

/-- The limit is too small if the manager's is and the group does not say otherwise. -/
theorem Manager.limitFor_lt_one_iff {m : Manager} {g : Group} :
    m.limitFor g < 1 ↔ g.spec.historyLimit = none ∧ m.historyLimit < 1 := by
  unfold Manager.limitFor Group.limitOr
  cases g.spec.historyLimit with
  | none => simp
  | some n =>
    have hone : 1 ≤ max n 1 := Int.le_max_right n 1
    constructor
    · intro h
      exact absurd h (Int.not_lt.mpr hone)
    · rintro ⟨hnone, -⟩
      cases hnone

theorem Manager.limitFor_of_lt_one {m : Manager} {g : Group} (h : m.limitFor g < 1) :
    m.limitFor g = m.historyLimit := by
  obtain ⟨hnone, -⟩ := limitFor_lt_one_iff.mp h
  unfold Manager.limitFor Group.limitOr
  rw [hnone]

/-! ## Faults of the store alone -/

namespace FaultRule

/-- A rule whose fault is a failure as the store itself reports it. -/
def IsRefusal (r : FaultRule) : Prop := ∃ operation detail, r.fault = .failed operation detail

theorem isRefusal_of_apply {operation : Operation} {name : Option String} :
    ∀ {script : List FaultRule}, (∀ r ∈ script, r.IsRefusal) →
      (∀ f, (apply operation name script).1 = some f → ∃ op detail, f = .failed op detail) ∧
        ∀ r ∈ (apply operation name script).2, r.IsRefusal := by
  intro script
  induction script with
  | nil =>
    intro _
    exact ⟨fun f hf => (nomatch hf), fun r hr => absurd hr List.not_mem_nil⟩
  | cons rule rest ih =>
    intro h
    obtain ⟨hrule, hrest⟩ := List.forall_mem_cons.mp h
    obtain ⟨hfault, hafter⟩ := ih hrest
    unfold apply
    split
    · refine ⟨fun f hf => ?_, List.forall_mem_cons.mpr ⟨hrule, hrest⟩⟩
      cases hf
      exact hrule
    · exact ⟨hfault, List.forall_mem_cons.mpr ⟨hrule, hafter⟩⟩

end FaultRule

def RefusalScript : Type := {script : List FaultRule // ∀ r ∈ script, r.IsRefusal}

instance : FaultSource RefusalScript where
  next := fun script operation name =>
    ((FaultRule.apply operation name script.1).1,
      ⟨(FaultRule.apply operation name script.1).2, (FaultRule.isRefusal_of_apply script.2).2⟩)

namespace Memory

/-- Whether the faults that calls can meet are failures of the store and nothing else. -/
def OnlyRefuses (φ : Type) [FaultSource φ] : Prop :=
  ∀ e, CanFail φ e → ∃ failure, e = .store failure

theorem onlyRefuses_refusalScript : OnlyRefuses RefusalScript := by
  rintro e ⟨script, operation, name, f, hnext, rfl⟩
  obtain ⟨op, detail, rfl⟩ := (FaultRule.isRefusal_of_apply script.2).1 f hnext
  exact ⟨.refused op detail, rfl⟩

/-! ## Failed syncs -/

section Failed

variable {φ : Type} [FaultSource φ] {m : Manager} {g : Group} {s s' : Memory φ} {e : Error}
  {j : Journal}

/-- How a sync fails if the store does nothing worse than refuse: untouched, or at a limit that
forbids every history. -/
theorem failed_cases (hfaults : OnlyRefuses φ) (h : m.sync g s = ⟨.error e, s', j⟩) :
    (Stops m g s e ∧ s'.revisions = s.revisions) ∨
      ∃ added current created, Settles m g s added current created ∧ m.limitFor g < 1 ∧
        e = .limitTooSmall (Decimal.text m.historyLimit) ∧
        s'.revisions.items = s.revisions.items ++ added := by
  generalize ha : (Except.error e : Except Error SyncResult) = a at h
  cases ran_of_sync h with
  | stopped reason revisions clock notes =>
    cases ha
    exact Or.inl ⟨reason, revisions⟩
  | @settled added current created n b _ settles reached ends notes =>
    right
    refine ⟨added, current, created, settles, ?_⟩
    cases ends with
    | forbidden hlimit =>
      cases ha
      have hitems := reached.items
      rw [History.expired, if_pos hlimit, List.take_nil, Store.remaining_nil] at hitems
      refine ⟨hlimit, ?_, hitems⟩
      rw [← Manager.limitFor_of_lt_one hlimit]
    | finished _ _ => cases ha
    | interrupted _ _ _ _ => cases ha
    | failed e' _ _ hfault foreign =>
      obtain ⟨failure, he⟩ := hfaults e' hfault
      exact absurd he (foreign failure)

/-- **Which failed syncs leave a trace.**  A sync on a store that does nothing worse than refuse
calls, and that fails, has changed the revisions exactly if it failed because of the limit and the
declaration was new to the history.  Then neither the group nor the manager allows for one
revision, and what it has changed is that the new revision is stored. -/
theorem failed_sync_changes_iff (hfaults : OnlyRefuses φ)
    (h : m.sync g s = ⟨.error e, s', j⟩) :
    (s'.revisions ≠ s.revisions ↔
      (∃ shown, e = .limitTooSmall shown) ∧ ∃ r, Settles m g s [r] r true) ∧
    (s'.revisions ≠ s.revisions →
      g.spec.historyLimit = none ∧ m.historyLimit < 1 ∧
        e = .limitTooSmall (Decimal.text m.historyLimit) ∧
        ∃ r, Settles m g s [r] r true ∧ s'.revisions.items = s.revisions.items ++ [r]) := by
  rcases failed_cases hfaults h with
    ⟨hstops, hrevisions⟩ | ⟨added, current, created, hsettles, hlimit, he, hitems⟩
  · -- who has something to settle on stops at a fault only, and faults are not about limits
    refine ⟨⟨fun hne => absurd hrevisions hne, ?_⟩, fun hne => absurd hrevisions hne⟩
    rintro ⟨⟨shown, rfl⟩, r, hsettles⟩
    obtain ⟨failure, hstore⟩ := hfaults _ (hsettles.canFail_of_stops hstops)
    cases hstore
  · obtain ⟨hnone, hsmall⟩ := Manager.limitFor_lt_one_iff.mp hlimit
    cases hsettles with
    | reused built highest same =>
      have hrevisions : s'.revisions = s.revisions :=
        revisions_eq_of_items (hitems.trans (List.append_nil _))
      refine ⟨⟨fun hne => absurd hrevisions hne, ?_⟩, fun hne => absurd hrevisions hne⟩
      rintro ⟨-, r, hcreated⟩
      cases (Settles.reused built highest same).unique hcreated with
      | intro hadded _ => exact nomatch hadded
    | created built changed free =>
      have hcreated := Settles.created built changed free
      have hne : s'.revisions ≠ s.revisions := by
        intro heq
        rw [heq] at hitems
        exact absurd (congrArg List.length hitems) (by simp)
      exact ⟨⟨fun _ => ⟨⟨_, he⟩, _, hcreated⟩, fun _ => hne⟩,
        fun _ => ⟨hnone, hsmall, he, _, hcreated, hitems⟩⟩

end Failed

/-! ### Keeping nothing -/

def keepingNone : Manager := ⟨0, .standard⟩

def undeletingStore : Memory RefusalScript :=
  empty .earliest ⟨[⟨.delete, none, none, .failed "delete" "try again"⟩], by
    intro r hr
    rw [List.mem_singleton.mp hr]
    exact ⟨_, _, rfl⟩⟩

theorem failed_sync_changes_iff_keepingNone :
    OnlyRefuses RefusalScript ∧ ∃ e s' j,
      keepingNone.sync bareGroup undeletingStore = ⟨.error e, s', j⟩ ∧
      (s'.revisions ≠ undeletingStore.revisions ↔
        (∃ shown, e = .limitTooSmall shown) ∧
          ∃ r, Settles keepingNone bareGroup undeletingStore [r] r true) := by
  have hfails : (keepingNone.sync bareGroup undeletingStore).answer.isOk = false := by
    decide +kernel
  rcases h : keepingNone.sync bareGroup undeletingStore with ⟨a, s', j⟩
  rw [h] at hfails
  cases a with
  | ok _ => exact Bool.noConfusion hfails
  | error e =>
    exact ⟨onlyRefuses_refusalScript, e, s', j, rfl,
      (failed_sync_changes_iff onlyRefuses_refusalScript h).1⟩

/-- A sync that raises, and leaves a revision where there was none. -/
theorem stored_despite_failure :
    ∃ e s' j, keepingNone.sync bareGroup (empty .earliest ()) = ⟨.error e, s', j⟩ ∧
      e = .limitTooSmall "0" ∧ s'.revisions.items.length = 1 ∧
      (empty .earliest () : Memory Unit).revisions.items = [] := by
  have hfacts : (match keepingNone.sync bareGroup (empty .earliest ()) with
      | ⟨.error e, s', _⟩ => decide (e = .limitTooSmall "0") && s'.revisions.items.length == 1
      | ⟨.ok _, _, _⟩ => false) = true := by decide +kernel
  rcases h : keepingNone.sync bareGroup (empty .earliest ()) with ⟨a, s', j⟩
  rw [h] at hfacts
  cases a with
  | ok _ => exact Bool.noConfusion hfacts
  | error e =>
    simp only [Bool.and_eq_true, decide_eq_true_eq, beq_iff_eq] at hfacts
    exact ⟨e, s', j, rfl, hfacts.1, hfacts.2, rfl⟩

end Memory

end RolloutLedger
