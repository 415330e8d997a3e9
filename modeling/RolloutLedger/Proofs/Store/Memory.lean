import RolloutLedger.Proofs.Store.Lawful
import RolloutLedger.Store.Memory
/-! # The store in memory

A store in memory is atomic, and few things make its calls fail.
-/

namespace RolloutLedger.Memory

/-! ## The store in memory is atomic

Whatever faults its calls meet, a store in memory holds the items of its catalog, takes every
revision, and changes nothing in a call that fails.
-/

variable {φ : Type} [FaultSource φ] {m m' : Memory φ} {j : Journal}

theorem meetFaults_spec {call : Call} {operation : Operation} {name : Option String}
    {a : Except Error Unit} (h : meetFaults call operation name m = ⟨a, m', j⟩) :
    m'.revisions = m.revisions ∧ m'.clock = m.clock ∧ j = [.called call] := by
  rw [meetFaults] at h
  rcases hnext : FaultSource.next m.faults operation name with ⟨fault, faults⟩
  rw [hnext] at h
  cases fault <;> cases h <;> exact ⟨rfl, rfl, rfl⟩

theorem list_spec {ns : String} {selector : Selector} {a : Except Error (List Revision)}
    (h : RevisionStore.list ns selector m = ⟨a, m', j⟩) :
    m'.revisions = m.revisions ∧ m'.clock = m.clock ∧ j.creations = [] ∧
      ∀ listed, a = .ok listed → listed = m.revisions.items := by
  rcases Step.bind_eq_iff.mp h with ⟨e, hquery, rfl⟩ | ⟨query, t, i, k, hquery, h₁, rfl⟩
  · obtain ⟨-, rfl, rfl⟩ := Step.ofExcept_eq_iff.mp hquery
    exact ⟨rfl, rfl, rfl, fun _ ha => nomatch ha⟩
  obtain ⟨-, rfl, rfl⟩ := Step.ofExcept_eq_iff.mp hquery
  rcases Step.bind_eq_iff.mp h₁ with ⟨e, hfault, rfl⟩ | ⟨_, t', i', k', hfault, h₂, rfl⟩
  · obtain ⟨hrevisions, hclock, rfl⟩ := meetFaults_spec hfault
    exact ⟨hrevisions, hclock, rfl, fun _ ha => nomatch ha⟩
  · obtain ⟨hrevisions, hclock, rfl⟩ := meetFaults_spec hfault
    cases h₂
    refine ⟨hrevisions, hclock, rfl, fun listed ha => ?_⟩
    cases ha
    rw [hrevisions]

theorem create_spec {r : Revision} {a : Except Error Revision}
    (h : RevisionStore.create r m = ⟨a, m', j⟩) :
    (∃ e, a = .error e ∧ m'.revisions = m.revisions ∧ m'.clock = m.clock) ∨
      a = .ok (stamped m.now r) ∧ m'.revisions.items = m.revisions.items ++ [stamped m.now r] ∧
        m'.clock = m.now := by
  rcases Step.bind_eq_iff.mp h with ⟨e, hfault, rfl⟩ | ⟨_, t, i, k, hfault, h₁, rfl⟩
  · obtain ⟨hrevisions, hclock, -⟩ := meetFaults_spec hfault
    exact Or.inl ⟨e, rfl, hrevisions, hclock⟩
  obtain ⟨hrevisions, hclock, -⟩ := meetFaults_spec hfault
  obtain ⟨_, t', i', k', hstate, h₂, -⟩ | ⟨e, hstate, -⟩ := (Step.bind_eq_iff.mp h₁).symm
  · cases hstate
    by_cases hholds : t.revisions.holds r.address = true
    · rw [if_pos hholds] at h₂
      cases h₂
      exact Or.inl ⟨_, rfl, hrevisions, hclock⟩
    · rw [if_neg hholds] at h₂
      have hnow : t.now = m.now := by rw [now, now, hclock]
      have hitems : (t.add r).revisions.items = m.revisions.items ++ [stamped m.now r] := by
        rw [add, Catalog.items_put_of_not_holds, hrevisions, hnow]
        exact Bool.eq_false_iff.mpr hholds
      cases h₂
      exact Or.inr ⟨congrArg (fun now => Except.ok (stamped now r)) hnow, hitems, hnow⟩
  · exact nomatch congrArg Outcome.answer hstate

theorem delete_spec {r : Revision} {a : Except Error Unit}
    (h : RevisionStore.delete r m = ⟨a, m', j⟩) :
    m'.clock = m.clock ∧ j.creations = [] ∧
      ((∃ e, a = .error e ∧ m'.revisions = m.revisions) ∨
        a = .ok () ∧ m'.revisions = m.revisions.remove r.address) := by
  rcases Step.bind_eq_iff.mp h with ⟨e, hfault, rfl⟩ | ⟨_, t, i, k, hfault, h₁, rfl⟩
  · obtain ⟨hrevisions, hclock, rfl⟩ := meetFaults_spec hfault
    exact ⟨hclock, rfl, Or.inl ⟨e, rfl, hrevisions⟩⟩
  · obtain ⟨hrevisions, hclock, rfl⟩ := meetFaults_spec hfault
    cases h₁
    refine ⟨hclock, rfl, Or.inr ⟨rfl, ?_⟩⟩
    rw [← hrevisions]
    rfl

theorem isCopyOf_stamped (t : Time.Timestamp) (r : Revision) : (stamped t r).IsCopyOf r :=
  ⟨rfl, rfl, rfl, rfl, rfl, rfl, rfl⟩

instance : AtomicStore (Memory φ) where
  Holds m rs := m.revisions.items = rs
  Accepts _ := True
  distinct := by
    rintro m rs rfl
    exact m.revisions.distinct
  list_ok := by
    rintro m m' rs ns selector listed j rfl h
    obtain ⟨hrevisions, -, -, hlisted⟩ := list_spec h
    exact ⟨hlisted listed rfl, congrArg Catalog.items hrevisions⟩
  create_ok := by
    rintro m m' rs r copy j rfl - h
    rcases create_spec h with ⟨e, ha, -⟩ | ⟨ha, hitems, -⟩
    · exact nomatch ha
    · cases ha
      exact ⟨isCopyOf_stamped _ r, hitems⟩
  delete_ok := by
    rintro m m' rs r u j rfl h
    obtain ⟨-, -, ⟨e, ha, -⟩ | ⟨-, hremove⟩⟩ := delete_spec h
    · exact nomatch ha
    · exact congrArg Catalog.items hremove
  delete_error := by
    rintro m m' rs r e j rfl h
    obtain ⟨-, -, ⟨-, -, hrevisions⟩ | ⟨ha, -⟩⟩ := delete_spec h
    · exact congrArg Catalog.items hrevisions
    · exact nomatch ha
  list_creations h := (list_spec h).2.2.1
  delete_creations h := (delete_spec h).2.1
  list_error := by
    rintro m m' rs ns selector e j rfl h
    exact congrArg Catalog.items (list_spec h).1
  create_error := by
    rintro m m' rs r e j rfl h
    rcases create_spec h with ⟨-, -, hrevisions, -⟩ | ⟨ha, -⟩
    · exact congrArg Catalog.items hrevisions
    · exact nomatch ha

theorem holds_items (m : Memory φ) : LawfulStore.Holds m m.revisions.items := rfl

theorem holds_iff {rs : List Revision} : LawfulStore.Holds m rs ↔ m.revisions.items = rs :=
  Iff.rfl

theorem accepts (r : Revision) : LawfulStore.Accepts (Memory φ) r := trivial

end RolloutLedger.Memory

namespace RolloutLedger

/-! ## Why calls to a store in memory fail

A call to a store in memory fails because it met a fault, or because the address of a revision to
be created is taken; and a query may have no text.  Nothing else goes wrong: where no call can meet
a fault, every deletion succeeds.

Whatever comes of a call, it leaves one note about the call itself, so the deletions that were
asked for can be read off a journal.
-/

/-! ### Deletions in a journal -/

def Revision.deletion (r : Revision) : Call := .delete r.ns r.name

def Call.isDeletion : Call → Bool
  | .delete _ _ => true
  | _ => false

def Journal.deletions (j : Journal) : List Call := j.calls.filter Call.isDeletion

theorem Journal.deletions_append (i j : Journal) :
    deletions (i ++ j) = deletions i ++ deletions j := by
  rw [deletions, calls_append, List.filter_append]
  rfl

/-- What a journal tells of the changes of a store: the deletions that were asked for, and how many
creations and deletions were counted. -/
structure Journal.Tells (j : Journal) (deletions : List Call) (created pruned : Nat) : Prop where
  deletions : j.deletions = deletions
  created : j.count .created = created
  pruned : j.count .pruned = pruned

theorem Journal.Tells.append {i j : Journal} {ds ds' : List Call} {c c' p p' : Nat}
    (hi : i.Tells ds c p) (hj : j.Tells ds' c' p') :
    (i ++ j).Tells (ds ++ ds') (c + c') (p + p') where
  deletions := by rw [deletions_append, hi.deletions, hj.deletions]
  created := by rw [count_append, hi.created, hj.created]
  pruned := by rw [count_append, hi.pruned, hj.pruned]

theorem Journal.Tells.congr {i j : Journal} {ds : List Call} {c p : Nat} (h : i.Tells ds c p)
    (hcalls : j.calls = i.calls) (hcounters : j.counters = i.counters) : j.Tells ds c p where
  deletions := by
    rw [Journal.deletions, hcalls]
    exact h.deletions
  created := by
    rw [count, hcounters]
    exact h.created
  pruned := by
    rw [count, hcounters]
    exact h.pruned

theorem Revision.address_eq_of_deletion_eq {a b : Revision} (h : a.deletion = b.deletion) :
    a.address = b.address := by
  unfold Revision.deletion at h
  injection h with hns hname
  rw [Revision.address, Revision.address, hns, hname]

namespace Memory

variable {φ ψ : Type}

/-- The same revisions under the same clock in a store whose calls never fail. -/
def withoutFaults (m : Memory φ) : Memory Unit := ⟨m.revisions, m.clock, ()⟩

/-- Stores without faults differ in their revisions or in their clocks. -/
theorem withoutFaults_congr {m : Memory φ} {m' : Memory ψ} (hrevisions : m'.revisions = m.revisions)
    (hclock : m'.clock = m.clock) : m'.withoutFaults = m.withoutFaults := by
  unfold withoutFaults
  rw [hrevisions, hclock]

theorem revisions_eq_of_items {m : Memory φ} {m' : Memory ψ}
    (h : m'.revisions.items = m.revisions.items) : m'.revisions = m.revisions := by
  rcases m with ⟨⟨items, distinct⟩, clock, faults⟩
  rcases m' with ⟨⟨items', distinct'⟩, clock', faults'⟩
  cases h
  rfl

/-! ### Faults -/

/-- Whether a call can fail with an error because of a fault. -/
def CanFail (φ : Type) [FaultSource φ] (e : Error) : Prop :=
  ∃ (faults : φ) (operation : Operation) (name : Option String) (f : Fault),
    (FaultSource.next faults operation name).1 = some f ∧ e = faultError f

theorem not_canFail_unit (e : Error) : ¬ CanFail Unit e := by
  rintro ⟨_, _, _, f, hnext, -⟩
  exact nomatch hnext

variable [FaultSource φ] {m m' : Memory φ} {j : Journal} {e : Error}

theorem canFail_of_meetFaults {call : Call} {operation : Operation} {name : Option String}
    (h : meetFaults call operation name m = ⟨.error e, m', j⟩) : CanFail φ e := by
  unfold meetFaults at h
  rcases hnext : FaultSource.next m.faults operation name with ⟨fault, faults⟩
  rw [hnext] at h
  cases fault with
  | none => exact nomatch congrArg Outcome.answer h
  | some f =>
    cases h
    exact ⟨m.faults, operation, name, f, congrArg Prod.fst hnext, rfl⟩

/-! ### Calls -/

theorem list_error {ns : String} {selector : Selector}
    (h : RevisionStore.list ns selector m = ⟨.error e, m', j⟩) :
    selector.query = .error e ∨ CanFail φ e := by
  rcases Step.bind_eq_iff.mp h with ⟨e', hquery, he⟩ | ⟨query, t, i, k, -, h₁, -⟩
  · cases he
    exact Or.inl (Step.ofExcept_eq_iff.mp hquery).1
  rcases Step.bind_eq_iff.mp h₁ with ⟨e', hfault, he⟩ | ⟨_, t', i', k', -, h₂, -⟩
  · cases he
    exact Or.inr (canFail_of_meetFaults hfault)
  · exact nomatch congrArg Outcome.answer h₂

theorem list_journal {ns : String} {selector : Selector} {a : Except Error (List Revision)}
    (h : RevisionStore.list ns selector m = ⟨a, m', j⟩) : j.Tells [] 0 0 := by
  rcases Step.bind_eq_iff.mp h with ⟨e', hquery, -⟩ | ⟨query, t, i, k, hquery, h₁, rfl⟩
  · obtain ⟨-, -, rfl⟩ := Step.ofExcept_eq_iff.mp hquery
    exact ⟨rfl, rfl, rfl⟩
  obtain ⟨-, -, rfl⟩ := Step.ofExcept_eq_iff.mp hquery
  rcases Step.bind_eq_iff.mp h₁ with ⟨e', hfault, -⟩ | ⟨_, t', i', k', hfault, h₂, rfl⟩
  · obtain ⟨-, -, rfl⟩ := meetFaults_spec hfault
    exact ⟨rfl, rfl, rfl⟩
  · obtain ⟨-, -, rfl⟩ := meetFaults_spec hfault
    cases h₂
    exact ⟨rfl, rfl, rfl⟩

def taken (r : Revision) : Error :=
  .store (.refused Operation.create.text (r.name ++ " already exists"))

theorem create_cases {r : Revision} {a : Except Error Revision}
    (h : RevisionStore.create r m = ⟨a, m', j⟩) :
    j = [.called (.create r.ns r.name)] ∧
      ((∃ e, a = .error e ∧ CanFail φ e) ∨
        (a = .error (taken r) ∧ m.revisions.holds r.address = true) ∨
        a = .ok (stamped m.now r) ∧ m.revisions.holds r.address = false) := by
  rcases Step.bind_eq_iff.mp h with ⟨e, hfault, rfl⟩ | ⟨_, t, i, k, hfault, h₁, rfl⟩
  · obtain ⟨-, -, rfl⟩ := meetFaults_spec hfault
    exact ⟨rfl, Or.inl ⟨e, rfl, canFail_of_meetFaults hfault⟩⟩
  obtain ⟨hrevisions, hclock, rfl⟩ := meetFaults_spec hfault
  rcases Step.bind_eq_iff.mp h₁ with ⟨e, hstate, -⟩ | ⟨_, t', i', k', hstate, h₂, rfl⟩
  · exact nomatch congrArg Outcome.answer hstate
  cases hstate
  rw [← hrevisions]
  by_cases hholds : t.revisions.holds r.address = true
  · rw [if_pos hholds] at h₂
    cases h₂
    exact ⟨rfl, Or.inr (Or.inl ⟨rfl, hholds⟩)⟩
  · rw [if_neg hholds] at h₂
    have hnow : t.now = m.now := by rw [now, now, hclock]
    cases h₂
    rw [hnow]
    exact ⟨rfl, Or.inr (Or.inr ⟨rfl, Bool.eq_false_iff.mpr hholds⟩)⟩

theorem delete_cases {r : Revision} {a : Except Error Unit}
    (h : RevisionStore.delete r m = ⟨a, m', j⟩) :
    j = [.called r.deletion] ∧ ∀ e, a = .error e → CanFail φ e := by
  rcases Step.bind_eq_iff.mp h with ⟨e, hfault, rfl⟩ | ⟨_, t, i, k, hfault, h₁, rfl⟩
  · obtain ⟨-, -, rfl⟩ := meetFaults_spec hfault
    refine ⟨rfl, fun e' he => ?_⟩
    cases he
    exact canFail_of_meetFaults hfault
  · obtain ⟨-, -, rfl⟩ := meetFaults_spec hfault
    cases h₁
    exact ⟨rfl, fun e he => nomatch he⟩

end Memory

end RolloutLedger
