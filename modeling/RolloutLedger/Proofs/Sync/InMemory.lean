import RolloutLedger.Proofs.History.Deletion
import RolloutLedger.Proofs.Revision.Build
import RolloutLedger.Proofs.Sync.Course
/-! # A sync in memory, step by step

On a store in memory a sync either stops before it has changed anything, or it settles on a current
revision and deletes expired revisions one after the other.  What it settles on is determined by
the revisions and the clock; faults only decide whether it gets there, and how many deletions take
effect.
-/

namespace RolloutLedger

open Store (remaining)
open History (expired highest? nextNumber)

namespace Memory

variable {φ ψ : Type}

def own (s : Memory φ) (g : Group) : List Revision := g.revisionsAmong s.revisions.items

/-- What a sync settles on: the revisions it adds, the current revision, and whether it was
created. -/
inductive Settles (m : Manager) (g : Group) (s : Memory φ) :
    List Revision → Revision → Bool → Prop
  | reused {candidate r : Revision}
    (built : Revision.build m.hashOptions g (nextNumber (s.own g)) = .ok candidate)
    (highest : highest? (s.own g) = some r) (same : r.sameContent candidate = true) :
    Settles m g s [] r false
  | created {candidate : Revision}
    (built : Revision.build m.hashOptions g (nextNumber (s.own g)) = .ok candidate)
    (changed : ∀ r, highest? (s.own g) = some r → r.sameContent candidate = false)
    (free : s.revisions.holds candidate.address = false) :
    Settles m g s [stamped s.now candidate] (stamped s.now candidate) true

/-- Why a sync stops before it has changed anything. -/
inductive Stops [FaultSource φ] (m : Manager) (g : Group) (s : Memory φ) : Error → Prop
  | fault {e : Error} (canFail : CanFail φ e) : Stops m g s e
  | unbuilt {e : Error}
    (failed : Revision.build m.hashOptions g (nextNumber (s.own g)) = .error e) : Stops m g s e
  | taken {candidate : Revision}
    (built : Revision.build m.hashOptions g (nextNumber (s.own g)) = .ok candidate)
    (changed : ∀ r, highest? (s.own g) = some r → r.sameContent candidate = false)
    (holds : s.revisions.holds candidate.address = true) : Stops m g s (taken candidate)

/-- One store is what another becomes when some revisions were added and then the first `n` of the
expired ones deleted. -/
structure Reached (m : Manager) (g : Group) (s : Memory φ) (added : List Revision) (n : Nat)
    (t : Memory ψ) : Prop where
  le : n ≤ (expired (s.own g ++ added) (m.limitFor g)).length
  items : t.revisions.items = remaining (s.revisions.items ++ added)
    ((expired (s.own g ++ added) (m.limitFor g)).take n)
  clock : t.clock = if added.isEmpty then s.clock else s.now

inductive Ran [FaultSource φ] (m : Manager) (g : Group) (s s' : Memory φ) :
    Except Error SyncResult → Journal → Prop
  | stopped {e : Error} {j : Journal} (reason : Stops m g s e)
    (revisions : s'.revisions = s.revisions) (clock : s'.clock = s.clock)
    (notes : j.Tells [] 0 0) : Ran m g s s' (.error e) j
  | settled {added : List Revision} {current : Revision} {created : Bool} {n : Nat}
    {b : Except Error (Except History.Interruption (List Revision))} {j : Journal}
    (settles : Settles m g s added current created) (reached : Reached m g s added n s')
    (ends : RetentionEnds φ (s.own g ++ added) (m.limitFor g) n b)
    (notes : j.Tells
      (((expired (s.own g ++ added) (m.limitFor g)).take (n + 1)).map Revision.deletion)
      added.length n) :
    Ran m g s s' (b.map (Sync.conclude current created)) j

/-! ## What a sync settles on -/

section Settles

variable {m : Manager} {g : Group} {s : Memory φ} {added : List Revision} {current : Revision}
  {created : Bool}

/-- What a sync settles on depends on nothing but the revisions and the clock. -/
theorem Settles.congr {t : Memory ψ} (h : Settles m g s added current created)
    (hrevisions : t.revisions = s.revisions) (hclock : t.clock = s.clock) :
    Settles m g t added current created := by
  have hown : t.own g = s.own g := by rw [own, hrevisions, own]
  have hnow : t.now = s.now := by rw [now, hclock, now]
  cases h with
  | reused built highest same =>
    rw [← hown] at built highest
    exact .reused built highest same
  | created built changed free =>
    rw [← hown] at built changed
    rw [← hrevisions] at free
    rw [← hnow]
    exact .created built changed free

theorem Settles.unique {added' : List Revision} {current' : Revision} {created' : Bool}
    (h : Settles m g s added current created) (h' : Settles m g s added' current' created') :
    added' = added ∧ current' = current ∧ created' = created := by
  cases h with
  | reused built highest same =>
    cases h' with
    | reused built' highest' same' =>
      exact ⟨rfl, Option.some.inj (highest'.symm.trans highest), rfl⟩
    | created built' changed' free' =>
      cases Except.ok.inj (built.symm.trans built')
      exact absurd (same.symm.trans (changed' _ highest)) (by decide)
  | created built changed free =>
    cases h' with
    | reused built' highest' same' =>
      cases Except.ok.inj (built.symm.trans built')
      exact absurd (same'.symm.trans (changed _ highest')) (by decide)
    | created built' changed' free' =>
      cases Except.ok.inj (built.symm.trans built')
      exact ⟨rfl, rfl, rfl⟩

/-- A sync that has something to settle on stops because of faults only. -/
theorem Settles.canFail_of_stops [FaultSource φ] {e : Error}
    (h : Settles m g s added current created) (hstops : Stops m g s e) : CanFail φ e := by
  cases hstops with
  | fault canFail => exact canFail
  | unbuilt failed => cases h <;> rename_i built _ _ <;> exact nomatch built.symm.trans failed
  | taken built changed holds =>
    cases h with
    | reused built' highest same =>
      cases Except.ok.inj (built.symm.trans built')
      exact absurd (same.symm.trans (changed _ highest)) (by decide)
    | created built' _ free =>
      cases Except.ok.inj (built.symm.trans built')
      exact absurd (holds.symm.trans free) (by decide)

theorem Settles.length_le (h : Settles m g s added current created) : added.length ≤ 1 := by
  cases h with
  | reused _ _ _ => exact Nat.zero_le _
  | created _ _ _ => exact Nat.le_refl _

theorem Settles.distinct (h : Settles m g s added current created) :
    ((s.revisions.items ++ added).map Revision.address).Nodup := by
  cases h with
  | reused _ _ _ =>
    rw [List.append_nil]
    exact s.revisions.distinct
  | created built changed free =>
    rw [List.map_append, List.nodup_append]
    refine ⟨s.revisions.distinct, List.nodup_singleton _, ?_⟩
    intro x hx y hy hxy
    rw [hxy, List.mem_singleton.mp hy, (isCopyOf_stamped _ _).address] at hx
    rw [(s.revisions.holds_iff _).mpr hx] at free
    exact Bool.noConfusion free

theorem Settles.distinct_own (h : Settles m g s added current created) :
    ((s.own g ++ added).map Revision.address).Nodup :=
  h.distinct.sublist ((List.filter_sublist.append (List.Sublist.refl _)).map _)

theorem Settles.own_append (h : Settles m g s added current created) :
    g.revisionsAmong (s.revisions.items ++ added) = s.own g ++ added := by
  rw [Group.revisionsAmong, List.filter_append]
  refine congrArg (s.own g ++ ·) (List.filter_eq_self.mpr ?_)
  intro r hr
  cases h with
  | reused _ _ _ => exact absurd hr List.not_mem_nil
  | created built _ _ =>
    rw [List.mem_singleton.mp hr]
    exact (isCopyOf_stamped _ _).belongs built rfl rfl rfl

theorem Settles.highest?_eq (h : Settles m g s added current created) :
    highest? (s.own g ++ added) = some current := by
  cases h with
  | reused _ highest _ =>
    rw [List.append_nil]
    exact highest
  | created built _ _ =>
    exact History.highest?_append_next
      ((isCopyOf_stamped _ _).number.trans (Revision.number_of_build built))

theorem Settles.nodup_numbers (h : Settles m g s added current created)
    (hnumbers : ((s.own g).map Revision.number).Nodup) :
    ((s.own g ++ added).map Revision.number).Nodup := by
  cases h with
  | reused _ _ _ =>
    rw [List.append_nil]
    exact hnumbers
  | created built _ _ =>
    rw [List.map_append, List.nodup_append]
    refine ⟨hnumbers, List.nodup_singleton _, ?_⟩
    intro n hn k hk hnk
    obtain ⟨r, hr, rfl⟩ := List.mem_map.mp hn
    have hlt := History.lt_nextNumber r hr
    rw [List.mem_singleton.mp hk, (isCopyOf_stamped _ _).number,
      Revision.number_of_build built] at hnk
    omega

end Settles

/-! ## What a sync reaches -/

/-- Two stores that were brought equally far are the same, apart from their faults. -/
theorem Reached.withoutFaults_eq {m : Manager} {g : Group} {s : Memory φ} {added : List Revision}
    {n : Nat} {χ : Type} {t : Memory ψ} {u : Memory χ} (ht : Reached m g s added n t)
    (hu : Reached m g s added n u) : u.withoutFaults = t.withoutFaults :=
  withoutFaults_congr (revisions_eq_of_items (hu.items.trans ht.items.symm))
    (hu.clock.trans ht.clock.symm)

section Reached

variable {m : Manager} {g : Group} {s : Memory φ} {added : List Revision} {current : Revision}
  {created : Bool} {n : Nat} {t : Memory ψ}

theorem Settles.mem_of_mem_expired (h : Settles m g s added current created) {r : Revision}
    (hr : r ∈ expired (s.own g ++ added) (m.limitFor g)) :
    r ∈ s.revisions.items ++ added ∧ Store.belongs g.metadata g.revisionSelector r = true := by
  have hmem := History.mem_of_mem_expired hr
  rw [← h.own_append] at hmem
  exact List.mem_filter.mp hmem

theorem Reached.mem_items_iff (h : Reached m g s added n t)
    (hsettles : Settles m g s added current created) {r : Revision}
    (hr : r ∈ s.revisions.items ++ added) :
    r ∈ t.revisions.items ↔ r ∉ (expired (s.own g ++ added) (m.limitFor g)).take n := by
  rw [h.items]
  refine Store.mem_remaining_iff_of_distinct hsettles.distinct (fun d hd => ?_) hr
  exact (hsettles.mem_of_mem_expired (List.mem_of_mem_take hd)).1

theorem Reached.own_eq (h : Reached m g s added n t)
    (hsettles : Settles m g s added current created) :
    t.own g = remaining (s.own g ++ added)
      ((expired (s.own g ++ added) (m.limitFor g)).take n) := by
  rw [own, h.items, Group.revisionsAmong, Store.filter_remaining, ← Group.revisionsAmong,
    hsettles.own_append]

end Reached

/-! ## The whole sync -/

section Ran

variable [FaultSource φ] {m : Manager} {g : Group} {s s' : Memory φ} {j : Journal}

theorem ran_of_retain {added : List Revision} {current : Revision} {created : Bool}
    {t : Memory φ} {i : Journal} {a : Except Error SyncResult}
    (hsettles : Settles m g s added current created)
    (hitems : t.revisions.items = s.revisions.items ++ added)
    (hclock : t.clock = if added.isEmpty then s.clock else s.now)
    (hnotes : i.Tells [] added.length 0)
    (h : Sync.retain m g (s.own g ++ added) current created t = ⟨a, s', j⟩) :
    Ran m g s s' a (i ++ j) := by
  obtain ⟨b, k, hprune, rfl, hcalls, hcounters⟩ := Sync.prune_of_retain h
  obtain ⟨n, hemptied, hends⟩ := prune_cases hprune
  have hnotes := hnotes.append (hemptied.tells.congr hcalls hcounters)
  rw [List.nil_append, Nat.add_zero, Nat.zero_add] at hnotes
  refine .settled hsettles ⟨hemptied.le, ?_, hemptied.clock.trans hclock⟩ hends hnotes
  rw [hemptied.items, hitems]

theorem query_revisionSelector (g : Group) : ∃ query, g.revisionSelector.query = .ok query :=
  ⟨_, rfl⟩

/-- **How every sync in memory goes.** -/
theorem ran_of_sync {a : Except Error SyncResult} (h : m.sync g s = ⟨a, s', j⟩) :
    Ran m g s s' a j := by
  have hbuilt : ∀ r : Revision, r.builtNotes.Tells [] 0 0 := fun _ => ⟨rfl, rfl, rfl⟩
  cases Sync.course_of_sync h with
  | unlisted listing =>
    obtain ⟨hrevisions, hclock, -, -⟩ := list_spec listing
    refine .stopped (.fault ?_) hrevisions hclock (list_journal listing)
    refine (list_error listing).resolve_left fun hquery => ?_
    obtain ⟨query, hok⟩ := query_revisionSelector g
    cases hok.symm.trans hquery
  | unbuilt listing failed =>
    obtain ⟨hrevisions, hclock, -, hlisted⟩ := list_spec listing
    rw [hlisted _ rfl] at failed
    exact .stopped (.unbuilt failed) hrevisions hclock (list_journal listing)
  | @uncreated listed t i candidate e k listing built changed refused =>
    obtain ⟨hrevisions, hclock, -, hlisted⟩ := list_spec listing
    rw [hlisted _ rfl] at built changed
    have hstops : Stops m g s e := by
      obtain ⟨-, ⟨e', he, hfault⟩ | ⟨he, hholds⟩ | ⟨he, -⟩⟩ := create_cases refused
      · cases he
        exact .fault hfault
      · cases he
        rw [hrevisions] at hholds
        exact .taken built changed hholds
      · cases he
    obtain ⟨rfl, -⟩ := create_cases refused
    rcases create_spec refused with ⟨-, -, hrevisions', hclock'⟩ | ⟨he, -⟩
    · exact .stopped hstops (hrevisions'.trans hrevisions) (hclock'.trans hclock)
        ((list_journal listing).append ((hbuilt candidate).append ⟨rfl, rfl, rfl⟩))
    · cases he
  | @reused listed t i candidate r _ k listing built highest same retaining =>
    obtain ⟨hrevisions, hclock, -, hlisted⟩ := list_spec listing
    rw [hlisted _ rfl] at built highest retaining
    rw [← List.append_nil (g.revisionsAmong s.revisions.items)] at retaining
    rw [← List.append_assoc]
    refine ran_of_retain (.reused built highest same) ?_ hclock
      ((list_journal listing).append (hbuilt candidate)) retaining
    rw [hrevisions, List.append_nil]
  | @created listed t i candidate r t' k _ l listing built changed creation retaining =>
    obtain ⟨hrevisions, hclock, -, hlisted⟩ := list_spec listing
    rw [hlisted _ rfl] at built changed retaining
    have hnow : t.now = s.now := by rw [now, hclock, now]
    obtain ⟨rfl, ⟨e, he, -⟩ | ⟨he, -⟩ | ⟨hr, hfree⟩⟩ := create_cases creation
    · cases he
    · cases he
    rcases create_spec creation with ⟨e, he, -⟩ | ⟨-, hitems', hclock'⟩
    · cases he
    cases hr
    rw [hrevisions] at hfree hitems'
    rw [hnow] at hitems' hclock' retaining ⊢
    rw [← List.append_assoc, ← List.append_assoc]
    refine ran_of_retain (.created built changed hfree) hitems' hclock' ?_ retaining
    exact ((list_journal listing).append (hbuilt candidate)).append ⟨rfl, rfl, rfl⟩

/-- A sync that answers has settled, and retention ended with an answer. -/
theorem settled_of_ok {res : SyncResult} (h : m.sync g s = ⟨.ok res, s', j⟩) :
    ∃ added n b, Settles m g s added res.current res.created ∧ Reached m g s added n s' ∧
      RetentionEnds φ (s.own g ++ added) (m.limitFor g) n (.ok b) ∧
      res = Sync.conclude res.current res.created b ∧
      j.Tells (((expired (s.own g ++ added) (m.limitFor g)).take (n + 1)).map Revision.deletion)
        added.length n := by
  generalize ha : (Except.ok res : Except Error SyncResult) = a at h
  cases ran_of_sync h with
  | stopped _ _ _ _ => exact nomatch ha
  | @settled added current created n b _ settles reached ends notes =>
    obtain ⟨b, rfl, rfl⟩ := map_eq_ok_iff.mp ha.symm
    cases b <;> exact ⟨added, n, _, settles, reached, ends, rfl, notes⟩

end Ran

end Memory

end RolloutLedger
