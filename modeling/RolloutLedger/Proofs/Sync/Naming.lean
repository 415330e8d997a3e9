import RolloutLedger.Proofs.Revision.Name
import RolloutLedger.Proofs.Sync.InMemory
import RolloutLedger.Proofs.Sync.Numbering
/-! # When names collide

Names are kept apart by numbers, and numbers are counted for each identity.  A group that was
deleted and came back under a new identity counts from one again, next to the revisions of its
former self, which have its name and namespace and the same numbers.  So its sync is refused when
it gets to a number under which the former group had declared the same; and where no call fails
this is the only way in which a store refuses anything.
-/

namespace RolloutLedger

open History (highest? nextNumber)

/-! ## Addresses of built revisions -/

namespace Revision

def digest? (r : Revision) : Option Value := Entries.get? (.text hashLabel) r.metadata.labels

variable {o o' : HashOptions} {g g' : Group} {n n' : Int} {r candidate candidate' : Revision}

/-- What a built revision is named and labelled. -/
theorem exists_digest_of_build (h : build o g n = .ok candidate) :
    ∃ digest, candidate.name = nameFor g.metadata.name (Digest.shown digest) n ∧
      candidate.ns = g.metadata.ns ∧ candidate.digest? = some (.text (Digest.shown digest)) := by
  obtain ⟨raw, roleHashes, -, -, rfl⟩ := exists_assemble_of_build h
  refine ⟨Digest.ofBytes raw, rfl, rfl, ?_⟩
  unfold digest? assemble labelsFor
  rw [Entries.get?_cons_field, if_neg (by decide), Entries.get?_cons_field, if_pos rfl]

/-- Built revisions go to one address exactly if name, namespace, number and digest agree. -/
theorem address_eq_iff (h : build o g n = .ok candidate) (h' : build o' g' n' = .ok candidate')
    (hname : g.metadata.name.length ≤ stemLength) (hname' : g'.metadata.name.length ≤ stemLength)
    (hn : 0 ≤ n) (hn' : 0 ≤ n') :
    candidate.address = candidate'.address ↔
      (g.metadata.name = g'.metadata.name ∧ g.metadata.ns = g'.metadata.ns) ∧
        candidate.number = candidate'.number ∧ candidate.digest? = candidate'.digest? := by
  obtain ⟨digest, hcname, hns, hdigest⟩ := exists_digest_of_build h
  obtain ⟨digest', hcname', hns', hdigest'⟩ := exists_digest_of_build h'
  unfold address Address.ofTexts
  rw [Address.mk.injEq, Key.text.injEq, Key.text.injEq, hns, hns', hcname, hcname', hdigest,
    hdigest', number_of_build h, number_of_build h', Option.some.injEq, Value.text.injEq]
  constructor
  · rintro ⟨hns, hnames, -⟩
    obtain ⟨hstem, hshown, hnumber⟩ := nameFor_inj hname hname' hn hn' hnames
    exact ⟨⟨hstem, hns⟩, hnumber, hshown⟩
  · rintro ⟨⟨hstem, hns⟩, hnumber, hshown⟩
    rw [hstem, hns, hnumber, hshown]
    exact ⟨rfl, rfl, rfl⟩

/-- Whether a revision was left behind by a former group: one of some groups that had the name and
the namespace of a group and another identity. -/
def IsInheritedBy (g : Group) (groups : List Group) (r : Revision) : Prop :=
  ∃ former ∈ groups, former.metadata.name = g.metadata.name ∧
    former.metadata.ns = g.metadata.ns ∧ former.metadata.uid ≠ g.metadata.uid ∧ r.IsOf [former]

end Revision

/-! ## What a run stores -/

namespace Memory

/-- Every revision in a store was built for one of some groups, with a positive number. -/
def IsBuilt {φ : Type} (groups : List Group) (s : Memory φ) : Prop :=
  ∀ r ∈ s.revisions.items, r.IsOf groups ∧ 1 ≤ r.number

section Built

variable {φ : Type} [FaultSource φ] {groups : List Group} {s : Memory φ} {m : Manager} {g : Group}

theorem isBuilt_sync (h : IsBuilt groups s) (hg : g ∈ groups) :
    IsBuilt groups (m.sync g s).state := by
  rcases hsync : m.sync g s with ⟨a, s', j⟩
  show ∀ r ∈ s'.revisions.items, r.IsOf groups ∧ 1 ≤ r.number
  intro r hr
  cases ran_of_sync hsync with
  | stopped _ revisions _ _ => exact h r (revisions ▸ hr)
  | settled settles reached _ _ =>
    rw [reached.items] at hr
    rcases List.mem_append.mp (Store.mem_remaining_iff.mp hr).1 with hold | hnew
    · exact h r hold
    · cases settles with
      | reused _ _ _ => exact absurd hnew List.not_mem_nil
      | @created candidate built _ _ =>
        rw [List.mem_singleton.mp hnew]
        refine ⟨⟨g, hg, m.hashOptions, _, candidate, built, isCopyOf_stamped _ _⟩, ?_⟩
        rw [(isCopyOf_stamped _ _).number, Revision.number_of_build built]
        exact History.one_le_nextNumber _

theorem isBuilt_run {syncs : List (Manager × Group)} (h : IsBuilt groups s)
    (hsyncs : ∀ p ∈ syncs, p.2 ∈ groups) : IsBuilt groups (Sync.run s syncs) := by
  induction syncs generalizing s with
  | nil => exact h
  | cons p rest ih =>
    obtain ⟨hp, hrest⟩ := List.forall_mem_cons.mp hsyncs
    exact ih (isBuilt_sync h hp) hrest

end Built

/-! ## Refusals -/

section Refused

variable {groups : List Group} {s : Memory Unit} {m : Manager} {g : Group}

/-- Where no call fails, a sync fails as a store does exactly if the address of what it wants to
create is taken. -/
theorem store_error_iff :
    (∃ f, (m.sync g s).answer = .error (.store f)) ↔
      ∃ candidate, Revision.build m.hashOptions g (nextNumber (s.own g)) = .ok candidate ∧
        (∀ r, highest? (s.own g) = some r → r.sameContent candidate = false) ∧
          s.revisions.holds candidate.address = true := by
  rcases hsync : m.sync g s with ⟨a, s', j⟩
  show (∃ f, a = .error (.store f)) ↔ _
  cases ran_of_sync hsync with
  | @stopped e _ reason _ _ _ =>
    cases reason with
    | fault hfault => exact absurd hfault (not_canFail_unit _)
    | unbuilt failed =>
      constructor
      · rintro ⟨f, hf⟩
        cases hf
        exact absurd failed (Revision.build_ne_store _ _ _ f)
      · rintro ⟨candidate, built, -⟩
        exact nomatch failed.symm.trans built
    | @taken candidate built changed holds =>
      exact ⟨fun _ => ⟨candidate, built, changed, holds⟩, fun _ => ⟨_, rfl⟩⟩
  | settled settles reached ends notes =>
    constructor
    · rintro ⟨f, hf⟩
      cases ends with
      | forbidden _ => exact nomatch hf
      | finished _ _ => exact nomatch hf
      | interrupted _ _ _ hfault => exact absurd hfault (not_canFail_unit _)
      | failed _ _ _ hfault _ => exact absurd hfault (not_canFail_unit _)
    · rintro ⟨candidate, built, changed, holds⟩
      exact absurd (settles.canFail_of_stops (.taken built changed holds)) (not_canFail_unit _)

/-- An address that is taken for a group's next revision is taken by a revision of a former
group. -/
theorem holds_iff_inherited {candidate : Revision} (hs : IsBuilt groups s)
    (hgroups : ∀ h ∈ groups, h.metadata.name.length ≤ Revision.stemLength)
    (hname : g.metadata.name.length ≤ Revision.stemLength)
    (hbuilt : Revision.build m.hashOptions g (nextNumber (s.own g)) = .ok candidate) :
    s.revisions.holds candidate.address = true ↔
      ∃ r ∈ s.revisions.items, r.IsInheritedBy g groups ∧ r.number = candidate.number ∧
        r.digest? = candidate.digest? := by
  have hnext : 0 ≤ nextNumber (s.own g) := by
    have := History.one_le_nextNumber (s.own g)
    omega
  -- what a stored revision has in common with the candidate, by the group it was built for
  have haddress : ∀ r ∈ s.revisions.items, ∀ h ∈ groups, ∀ o n c,
      Revision.build o h n = .ok c → r.IsCopyOf c → (r.address = candidate.address ↔
        (h.metadata.name = g.metadata.name ∧ h.metadata.ns = g.metadata.ns) ∧
          r.number = candidate.number ∧ r.digest? = candidate.digest?) := by
    intro r hr h hh o n c hc hcopy
    have hn : 0 ≤ n := by
      have hpositive := (hs r hr).2
      rw [hcopy.number, Revision.number_of_build hc] at hpositive
      omega
    have hdigest : r.digest? = c.digest? := by
      unfold Revision.digest?
      rw [hcopy.labels]
    rw [hcopy.address, hcopy.number, hdigest]
    exact Revision.address_eq_iff hc hbuilt (hgroups h hh) hname hn hnext
  refine (Catalog.holds_iff _ _).trans ⟨fun hmem => ?_, ?_⟩
  · obtain ⟨r, hr, hsame⟩ := List.mem_map.mp hmem
    obtain ⟨h, hh, o, n, c, hc, hcopy⟩ := (hs r hr).1
    obtain ⟨⟨hstem, hns⟩, hnumber, hdigest⟩ := (haddress r hr h hh o n c hc hcopy).mp hsame
    refine ⟨r, hr, ⟨h, hh, hstem, hns, fun huid => ?_, h, List.mem_cons_self, o, n, c, hc, hcopy⟩,
      hnumber, hdigest⟩
    -- with the same identity it would be one of the group's own, below the next number
    have hown : r ∈ s.own g :=
      List.mem_filter.mpr ⟨hr, hcopy.belongs hc hstem.symm hns.symm huid.symm⟩
    have hlt := History.lt_nextNumber r hown
    rw [hnumber, Revision.number_of_build hbuilt] at hlt
    omega
  · rintro ⟨r, hr, ⟨h, hh, hstem, hns, -, h', hmem, o, n, c, hc, hcopy⟩, hnumber, hdigest⟩
    rw [List.mem_singleton.mp hmem] at hc
    refine List.mem_map.mpr ⟨r, hr, ?_⟩
    exact (haddress r hr h hh o n c hc hcopy).mpr ⟨⟨hstem, hns⟩, hnumber, hdigest⟩

end Refused

/-- **When a sync is refused.**  After any syncs of any groups in a store that started empty and
whose calls do not fail, the next sync fails as a store does exactly if the group has changed and a
former group of its name and namespace has left a revision with the number and the digest that
comes next. -/
theorem refused_iff_inherited {clock : Time.Timestamp} {syncs : List (Manager × Group)}
    {m : Manager} {g : Group}
    (hnames : ∀ p ∈ syncs, p.2.metadata.name.length ≤ Revision.stemLength)
    (hname : g.metadata.name.length ≤ Revision.stemLength) :
    (∃ f, (m.sync g (Sync.run (empty clock ()) syncs)).answer = .error (.store f)) ↔
      ∃ candidate, Revision.build m.hashOptions g
          (nextNumber ((Sync.run (empty clock ()) syncs).own g)) = .ok candidate ∧
        (∀ r, highest? ((Sync.run (empty clock ()) syncs).own g) = some r →
          r.sameContent candidate = false) ∧
        ∃ r ∈ (Sync.run (empty clock ()) syncs).revisions.items,
          r.IsInheritedBy g (syncs.map Prod.snd) ∧ r.number = candidate.number ∧
            r.digest? = candidate.digest? := by
  have hempty : IsBuilt (syncs.map Prod.snd) (empty clock ()) :=
    fun r hr => absurd hr List.not_mem_nil
  have hbuilt := isBuilt_run hempty fun p hp => List.mem_map_of_mem hp
  have hgroups : ∀ h ∈ syncs.map Prod.snd, h.metadata.name.length ≤ Revision.stemLength := by
    intro h hh
    obtain ⟨p, hp, rfl⟩ := List.mem_map.mp hh
    exact hnames p hp
  rw [store_error_iff]
  refine exists_congr fun candidate => and_congr_right fun hcandidate => and_congr_right fun _ => ?_
  exact holds_iff_inherited hbuilt hgroups hname hcandidate

def returningGroup : Group :=
  { bareGroup with metadata := { bareGroup.metadata with uid := "v" } }

/-- Whether an outcome is a failure of a store. -/
def isRefusal {α : Type} : Except Error α → Bool
  | .error (.store _) => true
  | _ => false

theorem exists_of_isRefusal {α : Type} {x : Except Error α} (h : isRefusal x = true) :
    ∃ f, x = .error (.store f) := by
  unfold isRefusal at h
  split at h
  · exact ⟨_, rfl⟩
  · exact Bool.noConfusion h

theorem store_error_returning :
    ∃ f, (keepingOne.sync returningGroup
      (Sync.run (empty .earliest ()) [(keepingOne, bareGroup)])).answer = .error (.store f) :=
  exists_of_isRefusal (by decide +kernel)

theorem refused_iff_inherited_returning :
    bareGroup.metadata.name.length ≤ Revision.stemLength ∧
      ∃ r ∈ (Sync.run (empty .earliest ()) [(keepingOne, bareGroup)]).revisions.items,
        r.IsInheritedBy returningGroup [bareGroup] := by
  have hbare : bareGroup.metadata.name.length ≤ Revision.stemLength := by decide
  have hnames : ∀ p ∈ [(keepingOne, bareGroup)],
      p.2.metadata.name.length ≤ Revision.stemLength := List.forall_mem_singleton.mpr hbare
  obtain ⟨candidate, -, -, r, hr, hinherited, -⟩ :=
    (refused_iff_inherited hnames (by decide)).mp store_error_returning
  exact ⟨hbare, r, hr, hinherited⟩

/-- A group that comes back under a new identity, with the declaration it had at first, is refused
by a store in which no call fails. -/
theorem returning_group_refused :
    returningGroup.metadata.uid ≠ bareGroup.metadata.uid ∧
      returningGroup.metadata.name = bareGroup.metadata.name ∧
      returningGroup.metadata.ns = bareGroup.metadata.ns ∧
      returningGroup.metadata.name.length ≤ Revision.stemLength ∧
      (∀ role ∈ returningGroup.spec.roles, role.name ≠ "") ∧
      ∃ f, (keepingOne.sync returningGroup
        (Sync.run (empty .earliest ()) [(keepingOne, bareGroup)])).answer = .error (.store f) :=
  ⟨by decide, rfl, rfl, by decide, fun _ hr => absurd hr List.not_mem_nil, store_error_returning⟩

end Memory

end RolloutLedger
