import RolloutLedger.Proofs.Store.Lawful
import RolloutLedger.Sync
/-! # The course of a sync

A sync lists the revisions of a group, builds a candidate with the next number, settles on a
current revision and retains the history.  It may fail in each of these, and it goes on in one of
two ways after the third: with the highest revision if that records the same, and with a newly
created one otherwise.  `Sync.Course` says this once, for every store; what a sync does to a store
of some kind follows from it and from what the calls to such a store do.
-/

namespace RolloutLedger

open Step (Keeps)

/-! ## What a sync keeps

A sync touches the store through its calls only, so it keeps every property that listing, creating
and deleting keep, whether it answers or fails.
-/

variable {σ : Type} [RevisionStore σ] {P : σ → Prop}

/-- A property of the states of a store that every call keeps. -/
structure KeptByCalls (P : σ → Prop) : Prop where
  list : ∀ ns selector, Keeps P (RevisionStore.list ns selector)
  create : ∀ r, Keeps P (RevisionStore.create r)
  delete : ∀ r, Keeps P (RevisionStore.delete r)

namespace KeptByCalls

theorem deleteAll (h : KeptByCalls P) (ds : List Revision) :
    Keeps P (History.deleteAll ds) := by
  induction ds with
  | nil => exact Step.keeps_pure none
  | cons d ds ih =>
    refine Keeps.bind (h.delete d).attempt fun answer => ?_
    cases answer with
    | ok u => exact Keeps.bind (Step.keeps_note _) fun _ => ih
    | error e =>
      cases e with
      | store cause => exact Keeps.bind (Step.keeps_note _) fun _ => Step.keeps_pure _
      | _ => exact Step.keeps_fail _

theorem prune (h : KeptByCalls P) (revisions : List Revision) (limit : Int) :
    Keeps P (History.prune revisions limit) := by
  rw [History.prune]
  split
  · exact Step.keeps_fail _
  split
  · exact Step.keeps_pure _
  · refine Keeps.bind (h.deleteAll _) fun cause => ?_
    cases cause <;> exact Step.keeps_pure _

theorem sync (h : KeptByCalls P) (m : Manager) (g : Group) : Keeps P (m.sync g) := by
  have hbuild : ∀ n, Keeps P (Sync.build m.hashOptions g n) := fun n =>
    Keeps.bind (Step.keeps_ofExcept _) fun r =>
      Keeps.bind (Step.keeps_note _) fun _ => Step.keeps_pure r
  have hcurrent : ∀ existing candidate, Keeps P (Sync.current g existing candidate) := by
    intro existing candidate
    rw [Sync.current]
    split
    · exact Step.keeps_pure _
    · exact Keeps.bind (h.create _) fun r =>
        Keeps.bind (Step.keeps_note _) fun _ => Step.keeps_pure _
  have hown : Keeps P (Sync.revisionsOf g) :=
    Keeps.bind (h.list _ _) fun _ => Step.keeps_pure _
  refine Keeps.bind hown fun existing => Keeps.bind (hbuild _) fun candidate =>
    Keeps.bind (hcurrent existing candidate) fun settled => ?_
  refine Keeps.bind (h.prune _ _) fun outcome => ?_
  cases outcome with
  | ok kept => exact Step.keeps_pure _
  | error i => exact Keeps.bind (Step.keeps_note _) fun _ => Step.keeps_pure _

end KeptByCalls

end RolloutLedger

namespace RolloutLedger

open History (highest? nextNumber)

/-! ## One outcome for every store -/

def Group.revisionsAmong (g : Group) (revisions : List Revision) : List Revision :=
  revisions.filter (Store.belongs g.metadata g.revisionSelector)

namespace Sync

variable {σ : Type} [RevisionStore σ] {s s' : σ} {m : Manager} {g : Group} {j : Journal}

/-! ### The parts -/

theorem list_of_revisionsOf {a : Except Error (List Revision)}
    (h : revisionsOf g s = ⟨a, s', j⟩) :
    ∃ listed, RevisionStore.list g.metadata.ns g.revisionSelector s = ⟨listed, s', j⟩ ∧
      a = listed.map g.revisionsAmong := by
  rcases Step.bind_eq_iff.mp h with ⟨e, hlist, rfl⟩ | ⟨listed, t, i, k, hlist, hrest, rfl⟩
  · exact ⟨.error e, hlist, rfl⟩
  · cases hrest
    rw [List.append_nil]
    exact ⟨.ok listed, hlist, rfl⟩

omit [RevisionStore σ] in
theorem build_spec {o : HashOptions} {n : Int} {a : Except Error Revision}
    (h : build o g n s = ⟨a, s', j⟩) :
    Revision.build o g n = a ∧ s' = s ∧ (∀ e, a = .error e → j = []) ∧
      ∀ r, a = .ok r → j = r.builtNotes := by
  rcases Step.bind_eq_iff.mp h with ⟨e, hfailed, rfl⟩ | ⟨r, t, i, k, hbuilt, hrest, rfl⟩
  · obtain ⟨hbuild, rfl, rfl⟩ := Step.ofExcept_eq_iff.mp hfailed
    exact ⟨hbuild, rfl, fun _ _ => rfl, fun r hr => nomatch hr⟩
  · obtain ⟨hbuild, rfl, rfl⟩ := Step.ofExcept_eq_iff.mp hbuilt
    cases hrest
    refine ⟨hbuild, rfl, fun e he => (nomatch he), fun r' hr => ?_⟩
    cases hr
    rfl

/-- Settling on a current revision leaves the store alone or creates the candidate. -/
theorem current_spec {existing : List Revision} {candidate : Revision}
    {a : Except Error (Revision × Bool)} (h : current g existing candidate s = ⟨a, s', j⟩) :
    (∃ r, highest? existing = some r ∧ r.sameContent candidate = true ∧ a = .ok (r, false) ∧
      s' = s ∧ j = []) ∨
    (∀ r, highest? existing = some r → r.sameContent candidate = false) ∧
      ((∃ e, RevisionStore.create candidate s = ⟨.error e, s', j⟩ ∧ a = .error e) ∨
        ∃ r i, RevisionStore.create candidate s = ⟨.ok r, s', i⟩ ∧ a = .ok (r, true) ∧
          j = i ++ createdNotes g r) := by
  rw [current] at h
  cases hfilter : (highest? existing).filter (·.sameContent candidate) with
  | some r =>
    rw [hfilter] at h
    obtain ⟨hhighest, hsame⟩ := Option.filter_eq_some_iff.mp hfilter
    cases h
    exact Or.inl ⟨r, hhighest, hsame, rfl, rfl, rfl⟩
  | none =>
    rw [hfilter] at h
    refine Or.inr ⟨fun r hr => ?_, ?_⟩
    · have hnot := Option.filter_eq_none_iff.mp hfilter r hr
      simpa using hnot
    · rcases Step.bind_eq_iff.mp h with ⟨e, hcreate, rfl⟩ | ⟨r, t, i, k, hcreate, hrest, rfl⟩
      · exact Or.inl ⟨e, hcreate, rfl⟩
      · cases hrest
        exact Or.inr ⟨r, i, hcreate, rfl, rfl⟩

/-! ### The whole -/

/-- What a sync does once it has settled on a current revision. -/
def retain (m : Manager) (g : Group) (history : List Revision) (current : Revision)
    (created : Bool) : Step σ SyncResult := do
  match ← History.prune history (m.limitFor g) with
  | .ok kept => return ⟨current, kept, created, none⟩
  | .error i =>
    Step.note (interruptedNotes g i)
    return ⟨current, i.retained, created, some i⟩

def conclude (current : Revision) (created : Bool) :
    Except History.Interruption (List Revision) → SyncResult
  | .ok kept => ⟨current, kept, created, none⟩
  | .error i => ⟨current, i.retained, created, some i⟩

/-- A sync that has settled prunes, and neither calls the store nor counts anything after that. -/
theorem prune_of_retain {history : List Revision} {current : Revision} {created : Bool}
    {a : Except Error SyncResult} (h : retain m g history current created s = ⟨a, s', j⟩) :
    ∃ b i, History.prune history (m.limitFor g) s = ⟨b, s', i⟩ ∧
      a = b.map (conclude current created) ∧ j.calls = i.calls ∧ j.counters = i.counters := by
  rcases Step.bind_eq_iff.mp h with ⟨e, hprune, rfl⟩ | ⟨b, t, i, k, hprune, hrest, rfl⟩
  · exact ⟨.error e, j, hprune, rfl, rfl, rfl⟩
  · rw [Journal.calls_append, Journal.counters_append]
    refine ⟨.ok b, i, ?_⟩
    cases b <;> cases hrest <;> exact ⟨hprune, rfl, List.append_nil _, List.append_nil _⟩

/-- How a sync goes, from one state of a store to another, with its answer and its notes. -/
inductive Course (m : Manager) (g : Group) (s s' : σ) : Except Error SyncResult → Journal → Prop
  | unlisted {e j}
    (listing : RevisionStore.list g.metadata.ns g.revisionSelector s = ⟨.error e, s', j⟩) :
    Course m g s s' (.error e) j
  | unbuilt {listed e j}
    (listing : RevisionStore.list g.metadata.ns g.revisionSelector s = ⟨.ok listed, s', j⟩)
    (failed : Revision.build m.hashOptions g (nextNumber (g.revisionsAmong listed)) = .error e) :
    Course m g s s' (.error e) j
  | uncreated {listed t i candidate e k}
    (listing : RevisionStore.list g.metadata.ns g.revisionSelector s = ⟨.ok listed, t, i⟩)
    (built : Revision.build m.hashOptions g (nextNumber (g.revisionsAmong listed)) =
      .ok candidate)
    (changed : ∀ r, highest? (g.revisionsAmong listed) = some r →
      r.sameContent candidate = false)
    (refused : RevisionStore.create candidate t = ⟨.error e, s', k⟩) :
    Course m g s s' (.error e) (i ++ (candidate.builtNotes ++ k))
  | reused {listed t i candidate r a k}
    (listing : RevisionStore.list g.metadata.ns g.revisionSelector s = ⟨.ok listed, t, i⟩)
    (built : Revision.build m.hashOptions g (nextNumber (g.revisionsAmong listed)) =
      .ok candidate)
    (highest : highest? (g.revisionsAmong listed) = some r)
    (same : r.sameContent candidate = true)
    (retaining : retain m g (g.revisionsAmong listed) r false t = ⟨a, s', k⟩) :
    Course m g s s' a (i ++ (candidate.builtNotes ++ k))
  | created {listed t i candidate r t' k a l}
    (listing : RevisionStore.list g.metadata.ns g.revisionSelector s = ⟨.ok listed, t, i⟩)
    (built : Revision.build m.hashOptions g (nextNumber (g.revisionsAmong listed)) =
      .ok candidate)
    (changed : ∀ r, highest? (g.revisionsAmong listed) = some r →
      r.sameContent candidate = false)
    (creation : RevisionStore.create candidate t = ⟨.ok r, t', k⟩)
    (retaining : retain m g (g.revisionsAmong listed ++ [r]) r true t' = ⟨a, s', l⟩) :
    Course m g s s' a (i ++ (candidate.builtNotes ++ (k ++ createdNotes g r ++ l)))

/-- **Every sync goes one of these ways.** -/
theorem course_of_sync {a : Except Error SyncResult} (h : m.sync g s = ⟨a, s', j⟩) :
    Course m g s s' a j := by
  -- listing
  rcases Step.bind_eq_iff.mp h with ⟨e, hown, rfl⟩ | ⟨existing, t₁, i₁, k₁, hown, h₁, rfl⟩
  · obtain ⟨listed, hlist, hexisting⟩ := list_of_revisionsOf hown
    cases listed with
    | ok listed => exact nomatch hexisting
    | error e =>
      cases hexisting
      exact .unlisted hlist
  obtain ⟨listed, hlist, hexisting⟩ := list_of_revisionsOf hown
  cases listed with
  | error e => exact nomatch hexisting
  | ok listed =>
  cases hexisting
  -- building
  rcases Step.bind_eq_iff.mp h₁ with ⟨e, hbuild, rfl⟩ | ⟨candidate, t₂, i₂, k₂, hbuild, h₂, rfl⟩
  · obtain ⟨hfailed, rfl, hnotes, -⟩ := build_spec hbuild
    rw [hnotes e rfl, List.append_nil]
    exact .unbuilt hlist hfailed
  obtain ⟨hbuilt, rfl, -, hnotes⟩ := build_spec hbuild
  rw [hnotes candidate rfl]
  -- settling on a revision, and retaining
  rcases Step.bind_eq_iff.mp h₂ with
    ⟨e, hcurrent, rfl⟩ | ⟨⟨current, created⟩, t₃, i₃, k₃, hcurrent, h₃, rfl⟩
  · rcases current_spec hcurrent with
      ⟨r, -, -, ha, -⟩ | ⟨hchanged, ⟨e', hcreate, ha⟩ | ⟨r, i, -, ha, -⟩⟩
    · exact nomatch ha
    · cases ha
      exact .uncreated hlist hbuilt hchanged hcreate
    · exact nomatch ha
  · rcases current_spec hcurrent with
      ⟨r, hhighest, hsame, ha, rfl, rfl⟩ | ⟨hchanged, ⟨e', -, ha⟩ | ⟨r, i, hcreate, ha, rfl⟩⟩
    · cases ha
      exact .reused hlist hbuilt hhighest hsame h₃
    · exact nomatch ha
    · cases ha
      exact .created hlist hbuilt hchanged hcreate h₃

end Sync

end RolloutLedger
