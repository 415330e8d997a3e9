import RolloutLedger.Proofs.History.Numbering
import RolloutLedger.Proofs.Sync.Survival
import RolloutLedger.Proofs.Time.Calendar
/-! # Numbers over whole runs

A run brings the histories of many groups in step, one after the other, in one store that starts
empty; any call may fail.  At every point of a run the revisions of a group are numbered without
gaps, a greater number was created later, and the greatest number never falls.

The invariant is stronger: the revisions that a group controls stand in the store in the order of
their numbers, and every revision was built for one of the groups.  A sync appends the next number
and deletes from the front, never the last one.
-/

namespace RolloutLedger

open Store (remaining)
open History (sorted surplus)

/-! ## Runs -/

/-- The state after managers brought the histories of groups in step, one after the other. -/
def Sync.run {σ : Type} [RevisionStore σ] (s : σ) (syncs : List (Manager × Group)) : σ :=
  syncs.foldl (fun s p => (p.1.sync p.2 s).state) s

def Revision.isControlledBy (uid : String) (r : Revision) : Bool :=
  r.metadata.controller?.any (·.uid == uid)

/-- The revisions in a store that the object with a given identity controls. -/
def Memory.controlled {φ : Type} (m : Memory φ) (uid : String) : List Revision :=
  m.revisions.items.filter (·.isControlledBy uid)

/-! ## Groups of one identity -/

/-- Groups among which an identity determines name and namespace. -/
def SameWhenIdentical (groups : List Group) : Prop :=
  ∀ g ∈ groups, ∀ h ∈ groups, g.metadata.uid = h.metadata.uid →
    g.metadata.name = h.metadata.name ∧ g.metadata.ns = h.metadata.ns

/-- Whether a revision is a stored copy of one that was built for one of some groups. -/
def Revision.IsOf (groups : List Group) (r : Revision) : Prop :=
  ∃ g ∈ groups, ∃ o n candidate, Revision.build o g n = .ok candidate ∧ r.IsCopyOf candidate

section Identity

variable {groups : List Group} {g : Group} {r : Revision}

theorem Revision.IsCopyOf.isControlledBy {o : HashOptions} {n : Int} {candidate : Revision}
    (hcopy : r.IsCopyOf candidate) (h : Revision.build o g n = .ok candidate) (uid : String) :
    r.isControlledBy uid = (g.metadata.uid == uid) := by
  rw [Revision.isControlledBy, hcopy.controller? h]
  rfl

/-- Among revisions built for the groups, a group's own are those it controls. -/
theorem Revision.IsOf.belongs_eq (hr : r.IsOf groups) (hsame : SameWhenIdentical groups)
    (hg : g ∈ groups) :
    Store.belongs g.metadata g.revisionSelector r = r.isControlledBy g.metadata.uid := by
  obtain ⟨h, hh, o, n, candidate, hbuild, hcopy⟩ := hr
  rw [hcopy.isControlledBy hbuild]
  by_cases huid : h.metadata.uid = g.metadata.uid
  · obtain ⟨hname, hns⟩ := hsame g hg h hh huid.symm
    rw [hcopy.belongs hbuild hname hns huid.symm, beq_iff_eq.mpr huid]
  · have hmayOwn : Store.mayOwn g.metadata r = false := by
      rw [Store.mayOwn, hcopy.controller? hbuild]
      exact beq_eq_false_iff_ne.mpr huid
    rw [Store.belongs, hmayOwn, Bool.and_false]
    exact (beq_eq_false_iff_ne.mpr huid).symm

theorem Group.revisionsAmong_eq {rs : List Revision} (hrs : ∀ r ∈ rs, r.IsOf groups)
    (hsame : SameWhenIdentical groups) (hg : g ∈ groups) :
    g.revisionsAmong rs = rs.filter (·.isControlledBy g.metadata.uid) :=
  List.filter_congr fun r hr => (hrs r hr).belongs_eq hsame hg

theorem Sync.Added.isOf {m : Manager} {rs added : List Revision} (h : Sync.Added m g rs added)
    (hg : g ∈ groups) : ∀ r ∈ added, r.IsOf groups := by
  cases h with
  | nothing => exact fun r hr => absurd hr List.not_mem_nil
  | copy candidate r built isCopy =>
    intro r' hr'
    rw [List.mem_singleton.mp hr']
    exact ⟨g, hg, m.hashOptions, _, candidate, built, isCopy⟩

theorem Sync.Added.isControlledBy {m : Manager} {rs added : List Revision}
    (h : Sync.Added m g rs added) (uid : String) :
    ∀ r ∈ added, r.isControlledBy uid = (g.metadata.uid == uid) := by
  cases h with
  | nothing => exact fun r hr => absurd hr List.not_mem_nil
  | copy candidate r built isCopy =>
    intro r' hr'
    rw [List.mem_singleton.mp hr']
    exact isCopy.isControlledBy built uid

theorem Sync.Added.consecutive {m : Manager} {rs added : List Revision}
    (h : Sync.Added m g rs added) {first : Int} (hfirst : 1 ≤ first)
    (hown : Consecutive first ((g.revisionsAmong rs).map Revision.number)) :
    ∃ start, 1 ≤ start ∧
      Consecutive start ((g.revisionsAmong rs ++ added).map Revision.number) := by
  cases h with
  | nothing =>
    rw [List.append_nil]
    exact ⟨first, hfirst, hown⟩
  | copy candidate r built isCopy =>
    exact hown.append_next hfirst (isCopy.number.trans (Revision.number_of_build built))

end Identity

/-! ## One sync -/

namespace Memory

variable {φ : Type} [FaultSource φ] {m m' : Memory φ} {groups : List Group} {g : Group}
  {manager : Manager} {added : List Revision} {pruned : Nat}

/-- Every revision was built for one of some groups, and those that one of them controls stand in
the order of consecutive numbers. -/
structure InOrder (groups : List Group) (m : Memory φ) : Prop where
  built : ∀ r ∈ m.revisions.items, r.IsOf groups
  consecutive : ∀ uid, ∃ first, 1 ≤ first ∧
    Consecutive first ((m.controlled uid).map Revision.number)

/-- A sync leaves alone what its group does not control. -/
theorem controlled_of_ne (h : Sync.Leaves manager g m.revisions.items m' added pruned)
    (hm : InOrder groups m) (hsame : SameWhenIdentical groups) (hg : g ∈ groups) {uid : String}
    (huid : g.metadata.uid ≠ uid) : m'.controlled uid = m.controlled uid := by
  have hadded : added.filter (·.isControlledBy uid) = [] := by
    refine List.filter_eq_nil_iff.mpr fun r hr => ?_
    rw [h.grown.isControlledBy uid r hr, beq_iff_eq]
    exact huid
  rw [controlled, holds_iff.mp h.holds, Store.filter_remaining, List.filter_append, hadded,
    List.append_nil]
  refine Store.remaining_eq_self fun r hr hdeleted => ?_
  obtain ⟨d, hd, haddress⟩ := List.mem_map.mp hdeleted
  obtain ⟨hr, hcontrolled⟩ := List.mem_filter.mp hr
  have hd := (History.sorted_perm _).mem_iff.mp (List.mem_of_mem_take hd)
  -- a deleted revision at the same address would be the same one
  have hdr : d = r := by
    refine List.inj_on_of_nodup_map h.distinct ?_ (List.mem_append_left _ hr) haddress
    exact (List.filter_sublist.append (List.Sublist.refl _)).subset hd
  have hown : d.isControlledBy g.metadata.uid = true := by
    rcases List.mem_append.mp hd with hd | hd
    · rw [Group.revisionsAmong_eq hm.built hsame hg] at hd
      exact (List.mem_filter.mp hd).2
    · rw [h.grown.isControlledBy _ d hd]
      exact beq_self_eq_true _
  rw [hdr] at hown
  rw [Revision.isControlledBy, Option.any_eq_true] at hown hcontrolled
  obtain ⟨x, hx, hxg⟩ := hown
  obtain ⟨y, hy, hyu⟩ := hcontrolled
  rw [hx, Option.some.injEq] at hy
  rw [← hy] at hyu
  exact huid ((beq_iff_eq.mp hxg).symm.trans (beq_iff_eq.mp hyu))

/-- Of what its group controls a sync drops revisions from the front. -/
theorem controlled_self (h : Sync.Leaves manager g m.revisions.items m' added pruned)
    (hm : InOrder groups m) (hsame : SameWhenIdentical groups) (hg : g ∈ groups) :
    m'.controlled g.metadata.uid = (m.controlled g.metadata.uid ++ added).drop pruned ∧
      ∃ start, 1 ≤ start ∧
        Consecutive start ((m.controlled g.metadata.uid ++ added).map Revision.number) := by
  have hown : g.revisionsAmong m.revisions.items = m.controlled g.metadata.uid :=
    Group.revisionsAmong_eq hm.built hsame hg
  obtain ⟨first, hfirst, hnumbers⟩ := hm.consecutive g.metadata.uid
  rw [← hown] at hnumbers
  obtain ⟨start, hstart, hgrown⟩ := h.grown.consecutive hfirst hnumbers
  have hadded : added.filter (·.isControlledBy g.metadata.uid) = added := by
    refine List.filter_eq_self.mpr fun r hr => ?_
    rw [h.grown.isControlledBy _ r hr]
    exact beq_self_eq_true _
  have hitems := holds_iff.mp h.holds
  rw [hgrown.sorted_eq_self] at hitems
  rw [hown] at hgrown hitems
  refine ⟨?_, start, hstart, hgrown⟩
  have hnodup : ((m.controlled g.metadata.uid ++ added).map Revision.address).Nodup :=
    h.distinct.sublist ((List.filter_sublist.append (List.Sublist.refl _)).map _)
  rw [controlled, hitems, Store.filter_remaining, List.filter_append, hadded]
  exact Store.remaining_take hnodup pruned

def Reaches (before after : List Revision) : Prop :=
  ∀ r ∈ before, ∃ r' ∈ after, r.number ≤ r'.number

theorem reaches_refl (revisions : List Revision) : Reaches revisions revisions :=
  fun r hr => ⟨r, hr, Int.le_refl _⟩

theorem Reaches.trans {xs ys zs : List Revision} (h : Reaches xs ys) (h' : Reaches ys zs) :
    Reaches xs zs := by
  intro r hr
  obtain ⟨s, hs, hrs⟩ := h r hr
  obtain ⟨t, ht, hst⟩ := h' s hs
  exact ⟨t, ht, Int.le_trans hrs hst⟩

/-- **What one sync keeps.**  However it ends, the numbers that a group controls stay consecutive
and in order, and the greatest of them does not fall. -/
theorem inOrder_sync (hm : InOrder groups m) (hsame : SameWhenIdentical groups)
    (hg : g ∈ groups) (hlimit : 1 ≤ manager.historyLimit) :
    InOrder groups (manager.sync g m).state ∧
      ∀ uid, Reaches (m.controlled uid) ((manager.sync g m).state.controlled uid) := by
  rcases hsync : manager.sync g m with ⟨a, m', j⟩
  obtain ⟨added, pruned, h⟩ := Sync.exists_leaves (holds_items m)
    (Manager.one_le_limitFor hlimit g) (fun _ r _ => accepts r) hsync
  obtain ⟨hself, start, hstart, hgrown⟩ := controlled_self h hm hsame hg
  refine ⟨⟨fun r hr => ?_, fun uid => ?_⟩, fun uid => ?_⟩
  · rw [holds_iff.mp h.holds] at hr
    rcases List.mem_append.mp (Store.mem_remaining_iff.mp hr).1 with hr | hr
    · exact hm.built r hr
    · exact h.grown.isOf hg r hr
  · by_cases huid : g.metadata.uid = uid
    -- the group's own revisions lose some from the front, all others are left alone
    · subst huid
      refine ⟨start + pruned, by omega, ?_⟩
      show Consecutive _ ((m'.controlled g.metadata.uid).map Revision.number)
      rw [hself, List.map_drop]
      exact hgrown.drop pruned
    · show ∃ first, _ ∧ Consecutive first ((m'.controlled uid).map Revision.number)
      rw [controlled_of_ne h hm hsame hg huid]
      exact hm.consecutive uid
  · show Reaches (m.controlled uid) (m'.controlled uid)
    by_cases huid : g.metadata.uid = uid
    · subst huid
      intro r hr
      -- at least one revision is kept, and the last one has the greatest number
      have hpruned := h.pruned_le
      rw [Group.revisionsAmong_eq hm.built hsame hg, surplus] at hpruned
      have hlimit' := Manager.one_le_limitFor hlimit g
      have hr' : r ∈ m.controlled g.metadata.uid ++ added := List.mem_append_left _ hr
      have hlength : 0 < (m.controlled g.metadata.uid ++ added).length :=
        List.length_pos_iff.mpr (List.ne_nil_of_mem hr')
      obtain ⟨top, htop, hle⟩ := hgrown.exists_le_mem_drop (k := pruned) (by
        rw [List.length_map, controlled]
        rw [controlled] at hlength
        omega)
      rw [← List.map_drop, ← hself] at htop
      obtain ⟨t, ht, rfl⟩ := List.mem_map.mp htop
      exact ⟨t, ht, hle _ (List.mem_map_of_mem hr')⟩
    · rw [controlled_of_ne h hm hsame hg huid]
      exact reaches_refl _

/-! ## Times -/

/-- Every revision was created after those that stand before it, and none later than the clock
says. -/
structure Timely (m : Memory φ) : Prop where
  inOrder : m.revisions.items.Pairwise Revision.CreatedBefore
  past : ∀ r ∈ m.revisions.items, ∃ t, r.metadata.created = some t ∧ t.instant ≤ m.clock.instant

omit [FaultSource φ] in
theorem clock_lt_now (m : Memory φ) : m.clock.instant < m.now.instant := by
  have hle := Time.le_micros_ofMicros (m.clock.reading.micros + 1 * Time.perSecond)
  have hpos : 0 < Time.perSecond := by decide
  rw [now, Time.Timestamp.addSeconds, Time.Timestamp.instant, Time.Timestamp.instant]
  generalize Time.Reading.ofMicros (m.clock.reading.micros + 1 * Time.perSecond) = later at *
  generalize Time.perSecond = second at *
  show (m.clock.reading.micros : Int) - m.clock.offset < later.micros - m.clock.offset
  omega

omit [FaultSource φ] in
theorem Timely.of_sublist (h : Timely m) (hitems : m'.revisions.items.Sublist m.revisions.items)
    (hclock : m'.clock = m.clock) : Timely m' where
  inOrder := h.inOrder.sublist hitems
  past r hr := by
    rw [hclock]
    exact h.past r (hitems.subset hr)

theorem keptByCalls_timely : KeptByCalls (Timely (φ := φ)) where
  list ns selector m h := by
    rcases hlist : RevisionStore.list ns selector m with ⟨a, m', j⟩
    obtain ⟨hrevisions, hclock, -⟩ := list_spec hlist
    refine h.of_sublist ?_ hclock
    show m'.revisions.items.Sublist m.revisions.items
    rw [hrevisions]
  create r m h := by
    rcases hcreate : RevisionStore.create r m with ⟨a, m', j⟩
    rcases create_spec hcreate with ⟨e, -, hrevisions, hclock⟩ | ⟨-, hitems, hclock⟩
    · refine h.of_sublist ?_ hclock
      show m'.revisions.items.Sublist m.revisions.items
      rw [hrevisions]
    · have hlt := m.clock_lt_now
      constructor
      · show m'.revisions.items.Pairwise Revision.CreatedBefore
        rw [hitems]
        refine List.pairwise_append.mpr ⟨h.inOrder, List.pairwise_singleton _ _, ?_⟩
        intro x hx y hy
        obtain ⟨t, ht, hle⟩ := h.past x hx
        rw [List.mem_singleton.mp hy]
        exact ⟨t, m.now, ht, rfl, Int.lt_of_le_of_lt hle hlt⟩
      · show ∀ x ∈ m'.revisions.items, ∃ t, x.metadata.created = some t ∧
          t.instant ≤ m'.clock.instant
        rw [hitems, hclock]
        intro x hx
        rcases List.mem_append.mp hx with hx | hx
        · obtain ⟨t, ht, hle⟩ := h.past x hx
          exact ⟨t, ht, Int.le_of_lt (Int.lt_of_le_of_lt hle hlt)⟩
        · rw [List.mem_singleton.mp hx]
          exact ⟨m.now, rfl, Int.le_refl _⟩
  delete r m h := by
    rcases hdelete : RevisionStore.delete r m with ⟨a, m', j⟩
    obtain ⟨hclock, -, ⟨e, -, hrevisions⟩ | ⟨-, hremove⟩⟩ := delete_spec hdelete
    · refine h.of_sublist ?_ hclock
      show m'.revisions.items.Sublist m.revisions.items
      rw [hrevisions]
    · refine h.of_sublist ?_ hclock
      show m'.revisions.items.Sublist m.revisions.items
      rw [hremove]
      exact List.filter_sublist

/-! ## Whole runs -/

theorem inOrder_run {syncs : List (Manager × Group)} (hm : InOrder groups m)
    (hsame : SameWhenIdentical groups)
    (hsyncs : ∀ p ∈ syncs, p.2 ∈ groups ∧ 1 ≤ p.1.historyLimit) :
    InOrder groups (Sync.run m syncs) ∧
      ∀ uid, Reaches (m.controlled uid) ((Sync.run m syncs).controlled uid) := by
  induction syncs generalizing m with
  | nil => exact ⟨hm, fun uid => reaches_refl _⟩
  | cons p rest ih =>
    obtain ⟨⟨hg, hlimit⟩, hrest⟩ := List.forall_mem_cons.mp hsyncs
    obtain ⟨hm', hreaches⟩ := inOrder_sync hm hsame hg hlimit
    obtain ⟨hend, hreaches'⟩ := ih hm' hrest
    exact ⟨hend, fun uid => (hreaches uid).trans (hreaches' uid)⟩

theorem timely_run {syncs : List (Manager × Group)} (hm : Timely m) :
    Timely (Sync.run m syncs) := by
  induction syncs generalizing m with
  | nil => exact hm
  | cons p rest ih => exact ih (keptByCalls_timely.sync p.1 p.2 m hm)

omit [FaultSource φ] in
theorem timely_empty (clock : Time.Timestamp) (faults : φ) : Timely (empty clock faults) where
  inOrder := List.Pairwise.nil
  past _ hr := absurd hr List.not_mem_nil

omit [FaultSource φ] in
theorem inOrder_empty (groups : List Group) (clock : Time.Timestamp) (faults : φ) :
    InOrder groups (empty clock faults) where
  built _ hr := absurd hr List.not_mem_nil
  consecutive _ := ⟨1, Int.le_refl _, trivial⟩

/-- **Numbers over whole runs.**  After any syncs of any groups, whatever calls failed on the way,
the revisions that a group controls are numbered without gaps from one or more on, greater numbers
were created later, and no later syncs make the greatest number fall. -/
theorem numbered_throughout (clock : Time.Timestamp) (faults : φ)
    (front back : List (Manager × Group))
    (hlimits : ∀ p ∈ front ++ back, 1 ≤ p.1.historyLimit)
    (hsame : SameWhenIdentical ((front ++ back).map Prod.snd)) (uid : String) :
    IsNumbered ((Sync.run (empty clock faults) front).controlled uid) ∧
      Reaches ((Sync.run (empty clock faults) front).controlled uid)
        ((Sync.run (empty clock faults) (front ++ back)).controlled uid) := by
  have hsyncs : ∀ p ∈ front ++ back,
      p.2 ∈ (front ++ back).map Prod.snd ∧ 1 ≤ p.1.historyLimit :=
    fun p hp => ⟨List.mem_map_of_mem hp, hlimits p hp⟩
  obtain ⟨hfront, -⟩ := inOrder_run (inOrder_empty _ clock faults) hsame
    fun p hp => hsyncs p (List.mem_append_left _ hp)
  obtain ⟨-, hreaches⟩ := inOrder_run hfront hsame
    fun p hp => hsyncs p (List.mem_append_right _ hp)
  have htimely : Timely (Sync.run (empty clock faults) front) :=
    timely_run (timely_empty clock faults)
  obtain ⟨first, hfirst, hnumbers⟩ := hfront.consecutive uid
  refine ⟨isNumbered_of_consecutive hfirst hnumbers
    (htimely.inOrder.sublist List.filter_sublist), ?_⟩
  rw [Sync.run, Sync.run, List.foldl_append]
  exact hreaches uid

/-- Two syncs of one group between which its declaration changed, and one that changes it back;
one revision is kept. -/
theorem numbered_throughout_changing :
    ((Sync.run (empty .earliest ())
        [(keepingOne, bareGroup), (keepingOne, gangGroup)]).controlled "u").map Revision.number =
          [2] ∧
      Reaches
        ((Sync.run (empty .earliest ())
          [(keepingOne, bareGroup), (keepingOne, gangGroup)]).controlled "u")
        ((Sync.run (empty .earliest ()) ([(keepingOne, bareGroup), (keepingOne, gangGroup)] ++
          [(keepingOne, bareGroup)])).controlled "u") := by
  refine ⟨by decide +kernel, ?_⟩
  refine (numbered_throughout .earliest () [(keepingOne, bareGroup), (keepingOne, gangGroup)]
    [(keepingOne, bareGroup)] (by decide) ?_ "u").2
  intro g hg h hh _
  simp only [List.cons_append, List.nil_append, List.map_cons, List.map_nil, List.mem_cons,
    List.not_mem_nil, or_false] at hg hh
  rcases hg with rfl | rfl | rfl <;> rcases hh with rfl | rfl | rfl <;> exact ⟨rfl, rfl⟩

end Memory

end RolloutLedger
