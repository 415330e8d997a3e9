import RolloutLedger.Proofs.Sync.Retry
/-! # The order of a listing does not matter

A store promises nothing about the order in which it lists revisions.  Where the revisions of a
group have different numbers, the order makes no difference to a sync of the group: on two stores
that hold the same revisions in different orders it makes the same calls, leaves the same notes and
settles on the same revision, and the histories it answers with differ in their order only.

Both runs are followed side by side.  The listings are permutations of each other; the highest
revision, the next number and the sorted history are functions of the listed set as long as
numbers are not shared; and everything after that depends on these alone.
-/

namespace RolloutLedger

open History (Interruption deleteAll highest? nextNumber prune sorted surplus)
open Step (Agree)

/-! ## What the order of a history has no part in -/

namespace History

variable {revisions revisions' : List Revision}

theorem highest?_eq_of_perm (h : revisions.Perm revisions')
    (hnumbers : (revisions.map Revision.number).Nodup) :
    highest? revisions' = highest? revisions := by
  cases hhighest : highest? revisions with
  | some r =>
    refine highest?_eq_some_of_subset hhighest hnumbers (fun x hx => h.mem_iff.mpr hx) ?_
    exact h.mem_iff.mp (mem_of_highest? hhighest)
  | none =>
    refine highest?_eq_none_iff.mpr fun x hx => ?_
    exact highest?_eq_none_iff.mp hhighest x (h.mem_iff.mpr hx)

theorem nextNumber_eq_of_perm (h : revisions.Perm revisions')
    (hnumbers : (revisions.map Revision.number).Nodup) :
    nextNumber revisions' = nextNumber revisions := by
  rw [nextNumber, highest?_eq_of_perm h hnumbers, nextNumber]

theorem sorted_eq_of_perm (h : revisions.Perm revisions')
    (hnumbers : (revisions.map Revision.number).Nodup) : sorted revisions' = sorted revisions :=
  (sortBy_eq_of_perm precedes_isTotalOrder (separated_of_numbers hnumbers) h).symm

theorem surplus_eq_of_perm (h : revisions.Perm revisions') (limit : Int) :
    surplus revisions' limit = surplus revisions limit := by
  rw [surplus, ← h.length_eq, surplus]

end History

/-- Two interruptions of one retention that was given its revisions in different orders. -/
def History.Interruption.Alike (i i' : Interruption) : Prop :=
  i.retained.Perm i'.retained ∧ i'.cause = i.cause

/-- Two outcomes of one retention that was given its revisions in different orders. -/
inductive History.AlikeRetentions :
    Except Interruption (List Revision) → Except Interruption (List Revision) → Prop
  | finished {kept kept' : List Revision} (same : kept.Perm kept') :
    AlikeRetentions (.ok kept) (.ok kept')
  | interrupted {i i' : Interruption} (alike : i.Alike i') :
    AlikeRetentions (.error i) (.error i')

/-- The same outcome of a sync, apart from the order of the history. -/
structure SyncResult.Alike (res res' : SyncResult) : Prop where
  current : res'.current = res.current
  created : res'.created = res.created
  history : res.history.Perm res'.history
  interruption : Option.Rel Interruption.Alike res.interruption res'.interruption

namespace Memory

variable {φ : Type}

/-- Two stores that hold the same revisions, perhaps in different orders, under one clock and with
the same faults ahead of them. -/
structure Shuffled (s t : Memory φ) : Prop where
  items : s.revisions.items.Perm t.revisions.items
  clock : t.clock = s.clock
  faults : t.faults = s.faults

theorem Shuffled.now {s t : Memory φ} (h : Shuffled s t) : t.now = s.now := by
  rw [Memory.now, h.clock, Memory.now]

theorem Shuffled.holds {s t : Memory φ} (h : Shuffled s t) (a : Address) :
    t.revisions.holds a = s.revisions.holds a := by
  rw [Bool.eq_iff_iff, Catalog.holds_iff, Catalog.holds_iff]
  exact (h.items.map _).mem_iff.symm

theorem Shuffled.own {s t : Memory φ} (h : Shuffled s t) (g : Group) :
    (s.own g).Perm (t.own g) :=
  h.items.filter _

theorem Shuffled.add {s t : Memory φ} (h : Shuffled s t) {r : Revision}
    (hfree : s.revisions.holds r.address = false) : Shuffled (s.add r) (t.add r) where
  items := by
    have hs : (s.add r).revisions.items = s.revisions.items ++ [stamped s.now r] :=
      Catalog.items_put_of_not_holds hfree
    have ht : (t.add r).revisions.items = t.revisions.items ++ [stamped t.now r] :=
      Catalog.items_put_of_not_holds ((h.holds r.address).trans hfree)
    rw [hs, ht, h.now]
    exact h.items.append_right _
  clock := h.now
  faults := h.faults

theorem Shuffled.remove {s t : Memory φ} (h : Shuffled s t) (a : Address) :
    Shuffled (s.remove a) (t.remove a) where
  items := h.items.filter _
  clock := h.clock
  faults := h.faults

variable [FaultSource φ]

/-! ## Calls -/

theorem agree_meetFaults (call : Call) (operation : Operation) (name : Option String) :
    Agree Shuffled Eq (meetFaults (φ := φ) call operation name)
      (meetFaults call operation name) := by
  intro s t h
  rw [meetFaults, meetFaults, h.faults]
  rcases FaultSource.next s.faults operation name with ⟨fault, faults⟩
  cases fault with
  | none => exact .answered rfl ⟨h.items, h.clock, rfl⟩
  | some f => exact .failed ⟨h.items, h.clock, rfl⟩

omit [FaultSource φ] in
theorem agree_state :
    Agree Shuffled Shuffled (Step.state : Step (Memory φ) (Memory φ)) Step.state :=
  fun _ _ h => .answered h h

omit [FaultSource φ] in
theorem agree_setState {s t : Memory φ} (h : Shuffled s t) :
    Agree Shuffled Eq (Step.setState s) (Step.setState t) := fun _ _ _ => .answered rfl h

theorem agree_create (r : Revision) :
    Agree Shuffled (fun a b : Revision => a = b ∧ a.IsCopyOf r)
      (RevisionStore.create (σ := Memory φ) r) (RevisionStore.create r) := by
  refine Agree.bind (agree_meetFaults _ _ _) fun _ _ _ => ?_
  refine Agree.bind agree_state fun s t h => ?_
  by_cases hholds : s.revisions.holds r.address = true
  · rw [if_pos hholds, if_pos ((h.holds r.address).trans hholds)]
    exact Step.agree_fail _
  · rw [if_neg hholds, if_neg ((h.holds r.address).symm ▸ hholds)]
    have hadd : Shuffled (s.add r) (t.add r) := h.add (Bool.eq_false_iff.mpr hholds)
    refine Agree.bind (agree_setState hadd) fun _ _ _ => ?_
    exact Step.agree_pure ⟨congrArg (stamped · r) h.now.symm, isCopyOf_stamped _ _⟩

theorem agree_delete (r : Revision) :
    Agree Shuffled Eq (RevisionStore.delete (σ := Memory φ) r) (RevisionStore.delete r) :=
  Agree.bind (agree_meetFaults _ _ _) fun _ _ _ =>
    Agree.bind agree_state fun _ _ h => agree_setState (h.remove r.address)

theorem agree_list (ns : String) (selector : Selector) :
    Agree Shuffled List.Perm (RevisionStore.list (σ := Memory φ) ns selector)
      (RevisionStore.list ns selector) := by
  refine Agree.bind (Step.agree_ofExcept _) ?_
  rintro query _ ⟨rfl, -⟩
  refine Agree.bind (agree_meetFaults _ _ _) fun _ _ _ => ?_
  exact Agree.bind agree_state fun _ _ h => Step.agree_pure h.items

/-! ## Retention -/

theorem agree_deleteAll (ds : List Revision) :
    Agree Shuffled Eq (deleteAll (σ := Memory φ) ds) (deleteAll ds) := by
  induction ds with
  | nil => exact Step.agree_pure rfl
  | cons d ds ih =>
    refine Agree.bind (agree_delete d).attempt fun answer _ hanswer => ?_
    subst hanswer
    cases answer with
    | ok u => exact Agree.bind (Step.agree_note _) fun _ _ _ => ih
    | error e =>
      cases e with
      | store cause => exact Agree.bind (Step.agree_note _) fun _ _ _ => Step.agree_pure rfl
      | _ => exact Step.agree_fail _

/-- Retention deletes the same revisions in the same order, in whatever order they are given. -/
theorem agree_prune {history history' : List Revision} (h : history.Perm history')
    (hnumbers : (history.map Revision.number).Nodup) (limit : Int) :
    Agree Shuffled History.AlikeRetentions (prune (σ := Memory φ) history limit)
      (prune history' limit) := by
  rw [prune, prune, History.surplus_eq_of_perm h]
  by_cases hlimit : limit < 1
  · rw [if_pos hlimit, if_pos hlimit]
    exact Step.agree_fail _
  rw [if_neg hlimit, if_neg hlimit]
  by_cases hsurplus : surplus history limit = 0
  · rw [if_pos hsurplus, if_pos hsurplus]
    exact Step.agree_pure (.finished h)
  rw [if_neg hsurplus, if_neg hsurplus, History.sorted_eq_of_perm h hnumbers]
  refine Agree.bind (agree_deleteAll _) fun cause _ hcause => ?_
  subst hcause
  cases cause with
  | none => exact Step.agree_pure (.finished (List.Perm.refl _))
  | some cause => exact Step.agree_pure (.interrupted ⟨h, rfl⟩)

/-! ## The stages of a sync -/

variable {g : Group}

theorem agrees_revisionsOf {s t : Memory φ} (h : Shuffled s t) (g : Group) :
    (Sync.revisionsOf g s).Agrees Shuffled (fun a b => a = s.own g ∧ b = t.own g)
      (Sync.revisionsOf g t) := by
  have hown : Agree Shuffled List.Perm (Sync.revisionsOf (σ := Memory φ) g) (Sync.revisionsOf g) :=
    Agree.bind (agree_list _ _) fun _ _ hlisted => Step.agree_pure (hlisted.filter _)
  have hshown : ∀ {u u' : Memory φ} {a : List Revision} {j : Journal},
      Sync.revisionsOf g u = ⟨.ok a, u', j⟩ → a = u.own g := by
    intro u u' a j hu
    obtain ⟨listed, hlist, ha⟩ := Sync.list_of_revisionsOf hu
    obtain ⟨-, -, -, hlisted⟩ := list_spec hlist
    obtain ⟨items, rfl, rfl⟩ := map_eq_ok_iff.mp ha.symm
    rw [hlisted items rfl, own]
  have hst := hown s t h
  rcases hs : Sync.revisionsOf g s with ⟨a, s', i⟩
  rcases ht : Sync.revisionsOf g t with ⟨b, t', k⟩
  rw [hs, ht] at hst
  cases hst with
  | failed states => exact .failed states
  | answered _ states => exact .answered ⟨hshown hs, hshown ht⟩ states

omit [FaultSource φ] in
theorem agree_build (o : HashOptions) (g : Group) (n : Int) :
    Agree Shuffled (fun a b => a = b ∧ Revision.build o g n = .ok a)
      (Sync.build (σ := Memory φ) o g n) (Sync.build o g n) := by
  refine Agree.bind (Step.agree_ofExcept _) ?_
  rintro r _ ⟨rfl, hbuilt⟩
  exact Agree.bind (Step.agree_note _) fun _ _ _ => Step.agree_pure ⟨rfl, hbuilt⟩

/-- The same revision becomes current, in whatever order the existing ones were listed; one that was
created is a copy of the candidate. -/
theorem agree_current {existing existing' : List Revision} (h : existing.Perm existing')
    (hnumbers : (existing.map Revision.number).Nodup) (candidate : Revision) :
    Agree Shuffled (fun p q => p = q ∧ (p.2 = true → p.1.IsCopyOf candidate))
      (Sync.current (σ := Memory φ) g existing candidate)
      (Sync.current g existing' candidate) := by
  rw [Sync.current, Sync.current, History.highest?_eq_of_perm h hnumbers]
  cases (highest? existing).filter (·.sameContent candidate) with
  | some r => exact Step.agree_pure ⟨rfl, fun hcreated => Bool.noConfusion hcreated⟩
  | none =>
    refine Agree.bind (agree_create candidate) ?_
    rintro r _ ⟨rfl, hcopy⟩
    exact Agree.bind (Step.agree_note _) fun _ _ _ => Step.agree_pure ⟨rfl, fun _ => hcopy⟩

/-- **The order of a listing does not matter.**  On two stores that hold the same revisions in
different orders, a sync of a group whose revisions have different numbers either fails with the
same error or answers with the same current revision, created or not, and with the same history up
to order; in either case it leaves the same notes, the calls it made among them, and stores that
again hold the same revisions. -/
theorem sync_agrees {s t : Memory φ} (h : Shuffled s t)
    (hnumbers : ((s.own g).map Revision.number).Nodup) (m : Manager) :
    (m.sync g s).Agrees Shuffled SyncResult.Alike (m.sync g t) := by
  refine Step.agrees_bind (agrees_revisionsOf h g) ?_
  rintro existing existing' ⟨rfl, rfl⟩
  have hperm := h.own g
  rw [History.nextNumber_eq_of_perm hperm hnumbers]
  refine Agree.bind (agree_build _ _ _) ?_
  rintro candidate _ ⟨rfl, hbuilt⟩
  refine Agree.bind (agree_current hperm hnumbers candidate) ?_
  rintro ⟨current, created⟩ _ ⟨rfl, hcopy⟩
  -- the history that is retained has different numbers, whether it has a new revision or not
  have hhistory : (if created then s.own g ++ [current] else s.own g).Perm
        (if created then t.own g ++ [current] else t.own g) ∧
      ((if created then s.own g ++ [current] else s.own g).map Revision.number).Nodup := by
    cases created with
    | false => exact ⟨hperm, hnumbers⟩
    | true =>
      refine ⟨hperm.append_right _, History.nodup_append_next ?_ hnumbers⟩
      exact (hcopy rfl).number.trans (Revision.number_of_build hbuilt)
  refine Agree.bind (agree_prune hhistory.1 hhistory.2 _) fun retention retention' hretention => ?_
  cases hretention with
  | finished same => exact Step.agree_pure ⟨rfl, rfl, same, .none⟩
  | @interrupted i i' alike =>
    have hnotes : Agree (Shuffled (φ := φ)) Eq (Step.note (Sync.interruptedNotes g i))
        (Step.note (Sync.interruptedNotes g i')) := by
      rw [Sync.interruptedNotes, Sync.interruptedNotes, alike.2]
      exact Step.agree_note _
    refine Agree.bind hnotes fun _ _ _ => ?_
    exact Step.agree_pure ⟨rfl, rfl, alike.1, .some alike⟩

def storeOf (revisions : List Revision) : Memory Unit :=
  revisions.foldl seed (empty .earliest ())

def secondRevision : Revision := { firstRevision "z" "\x7b\x7d" with number := 2 }

theorem sync_agrees_two :
    Shuffled (storeOf [firstRevision "a" "\x7b\x7d", secondRevision])
        (storeOf [secondRevision, firstRevision "a" "\x7b\x7d"]) ∧
      (keepingOne.sync bareGroup (storeOf [firstRevision "a" "\x7b\x7d", secondRevision])).Agrees
        Shuffled SyncResult.Alike
        (keepingOne.sync bareGroup (storeOf [secondRevision, firstRevision "a" "\x7b\x7d"])) := by
  have hshuffled : Shuffled (storeOf [firstRevision "a" "\x7b\x7d", secondRevision])
      (storeOf [secondRevision, firstRevision "a" "\x7b\x7d"]) :=
    ⟨List.Perm.swap _ _ _, rfl, rfl⟩
  exact ⟨hshuffled, sync_agrees hshuffled (by decide +kernel) keepingOne⟩

end Memory

end RolloutLedger
