import RolloutLedger.History
import RolloutLedger.Settings
/-! # Keeping a history in step

A manager brings the history of a group in step with what the group declares now.  If the
highest revision records just that it stays current, otherwise the next revision is created;
then the history is kept to its limit.  A retention that the store interrupts does not fail the
whole: it is reported and tried again the next time.
-/

namespace RolloutLedger

open Entries (field)

structure Manager where
  /-- How many revisions to keep for groups that do not say. -/
  historyLimit : Int
  hashOptions : HashOptions

/-- How many revisions of a group to keep, in whatever form the number is wanted.  A group that
says so keeps at least one; for the others there is a number to fall back on. -/
def Group.limitOr {α : Type} (g : Group) (ofInt : Int → α) (fallback : α) : α :=
  match g.spec.historyLimit with
  | none => fallback
  | some n => ofInt (max n 1)

namespace Manager

def standard : Manager := ⟨History.defaultLimit, .standard⟩

def ofSettings (s : Settings) : Manager := ⟨s.historyLimit, ⟨s.sortKeys, none⟩⟩

def limitFor (m : Manager) (g : Group) : Int := g.limitOr id m.historyLimit

end Manager

structure SyncResult where
  /-- The revision that records what the group declares. -/
  current : Revision
  history : List Revision
  created : Bool
  /-- Why the history may still be too long. -/
  interruption : Option History.Interruption

namespace Sync

def logger (g : Group) : Logger :=
  (Logger.ofComponent "revision.manager").bind "parent" g.toValue

def createdNotes (g : Group) (r : Revision) : Journal :=
  [.counted .created,
    .logged <| (logger g).record .info "revision_created"
      [field "revision" (.int r.number), field "revision_name" (.text r.name)]]

def interruptedNotes (g : Group) (i : History.Interruption) : Journal :=
  [.logged <| (logger g).record .warning "revision_history_prune_incomplete"
    [field "error" (.text i.cause.message)]]

variable {σ : Type} [RevisionStore σ]

def revisionsOf (g : Group) : Step σ (List Revision) :=
  Store.owned g.metadata (some g.revisionSelector)

def build (o : HashOptions) (g : Group) (number : Int) : Step σ Revision := do
  let r ← Step.ofExcept (Revision.build o g number)
  Step.note r.builtNotes
  return r

def nextRevision (o : HashOptions) (g : Group) : Step σ Revision := do
  let existing ← revisionsOf g
  build o g (History.nextNumber existing)

/-- The current revision of a group among its revisions, created from the candidate if the
highest of them does not record the same; and whether it was created. -/
def current (g : Group) (existing : List Revision) (candidate : Revision) :
    Step σ (Revision × Bool) :=
  match (History.highest? existing).filter (·.sameContent candidate) with
  | some r => return (r, false)
  | none => do
    let r ← RevisionStore.create candidate
    Step.note (createdNotes g r)
    return (r, true)

end Sync

variable {σ : Type} [RevisionStore σ]

/-- Bring the history of a group in step with what it declares, and keep it to a limit that was
not checked. -/
def Sync.inStep (o : HashOptions) (limit : Value) (g : Group) : Step σ SyncResult := do
  let existing ← Sync.revisionsOf g
  let candidate ← Sync.build o g (History.nextNumber existing)
  let (current, created) ← Sync.current g existing candidate
  let history := if created then existing ++ [current] else existing
  match ← History.pruneUnchecked history limit with
  | .ok kept => return ⟨current, kept, created, none⟩
  | .error i =>
    Step.note (Sync.interruptedNotes g i)
    return ⟨current, i.retained, created, some i⟩

/-- Bring the history of a group in step with what it declares. -/
def Manager.sync (m : Manager) (g : Group) : Step σ SyncResult :=
  Sync.inStep m.hashOptions (.int (m.limitFor g)) g

end RolloutLedger
