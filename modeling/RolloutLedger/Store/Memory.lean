import RolloutLedger.Store.Basic
/-! # A store in memory

Revisions kept in a catalog, in the order in which they were created.  Each creation moves a
clock on by one second and stamps the new revision with its time.  A listing holds every
revision, whatever was asked for.
-/

namespace RolloutLedger

/-- Revisions in memory, a clock, and a source of faults. -/
structure Memory (φ : Type) where
  revisions : Catalog Revision
  clock : Time.Timestamp
  faults : φ

namespace Memory

variable {φ : Type}

def empty (clock : Time.Timestamp) (faults : φ) : Memory φ := ⟨.empty, clock, faults⟩

def seed (m : Memory φ) (r : Revision) : Memory φ :=
  { m with revisions := m.revisions.put r }

def remove (m : Memory φ) (a : Address) : Memory φ :=
  { m with revisions := m.revisions.remove a }

def now (m : Memory φ) : Time.Timestamp := m.clock.addSeconds 1

def stamped (t : Time.Timestamp) (r : Revision) : Revision :=
  { r with metadata := { r.metadata with created := some t } }

/-- The store with a stamped copy of a revision, one second later. -/
def add (m : Memory φ) (r : Revision) : Memory φ :=
  { m with revisions := m.revisions.put (stamped m.now r), clock := m.now }

/-- How a fault shows to the caller of a store in memory: as it is. -/
def faultError : Fault → Error
  | .refused _ _ => .outage .refused
  | .disconnected _ => .outage .disconnected
  | .overdue => .outage .overdue
  | .serverOverdue => .outage .serverOverdue
  | .failed operation detail => .store (.refused operation detail)
  | .cancelled => .cancelled
  | .crashed => .outage .unexpected

def meetFaults [FaultSource φ] (call : Call) (operation : Operation) (name : Option String) :
    Step (Memory φ) Unit := fun m =>
  let (fault, faults) := FaultSource.next m.faults operation name
  let m' := { m with faults := faults }
  match fault with
  | none => ⟨.ok (), m', [.called call]⟩
  | some f => ⟨.error (faultError f), m', [.called call]⟩

instance [FaultSource φ] : RevisionStore (Memory φ) where
  list ns selector := do
    let query ← Step.ofExcept selector.query
    meetFaults (.list ns query) .list none
    return (← Step.state).revisions.items
  create r := do
    meetFaults (.create r.ns r.name) .create (some r.name)
    let m ← Step.state
    if m.revisions.holds r.address then
      Step.fail (.store (.refused Operation.create.text (r.name ++ " already exists")))
    else
      Step.setState (m.add r)
      return stamped m.now r
  delete r := do
    meetFaults (.delete r.ns r.name) .delete (some r.name)
    Step.setState ((← Step.state).remove r.address)

end Memory

end RolloutLedger
