import RolloutLedger.Revision
import RolloutLedger.Store.Catalog
/-! # Revision stores

Operations on a store are steps, their calls may meet faults, and what a store of revisions offers
is listing, creating and deleting.
-/

namespace RolloutLedger

/-! ## Steps

An operation on a store is a step: it answers or fails, leaves a state, and leaves notes in a
journal.  A failed step keeps the state and the notes it reached before it failed.
-/

/-- What a step leaves. -/
structure Outcome (σ α : Type) where
  answer : Except Error α
  state : σ
  journal : Journal

def Step (σ α : Type) : Type := σ → Outcome σ α

namespace Step

variable {σ α β : Type}

def answer (a : α) : Step σ α := fun s => ⟨.ok a, s, []⟩

def fail (e : Error) : Step σ α := fun s => ⟨.error e, s, []⟩

/-- One step, and another that depends on its answer unless it failed. -/
def andThen (x : Step σ α) (f : α → Step σ β) : Step σ β := fun s =>
  match x s with
  | ⟨.ok a, s', j⟩ => let o := f a s'; ⟨o.answer, o.state, j ++ o.journal⟩
  | ⟨.error e, s', j⟩ => ⟨.error e, s', j⟩

instance : Monad (Step σ) where
  pure := answer
  bind := andThen

def ofExcept : Except Error α → Step σ α
  | .ok a => answer a
  | .error e => fail e

def note (j : Journal) : Step σ Unit := fun s => ⟨.ok (), s, j⟩

def state : Step σ σ := fun s => ⟨.ok s, s, []⟩

def setState (s : σ) : Step σ Unit := fun _ => ⟨.ok (), s, []⟩

/-- A step that cannot fail: what it would have answered or failed with is its answer. -/
def attempt (x : Step σ α) : Step σ (Except Error α) := fun s =>
  let o := x s
  ⟨.ok o.answer, o.state, o.journal⟩

@[simp] theorem pure_apply (a : α) (s : σ) : (pure a : Step σ α) s = ⟨.ok a, s, []⟩ := rfl

@[simp] theorem fail_apply (e : Error) (s : σ) : (fail e : Step σ α) s = ⟨.error e, s, []⟩ :=
  rfl

@[simp] theorem note_apply (j : Journal) (s : σ) : note j s = ⟨.ok (), s, j⟩ := rfl

theorem bind_apply_ok {x : Step σ α} {s s' : σ} {a : α} {j : Journal}
    (h : x s = ⟨.ok a, s', j⟩) (f : α → Step σ β) :
    (x >>= f) s = ⟨(f a s').answer, (f a s').state, j ++ (f a s').journal⟩ := by
  simp [bind, andThen, h]

theorem bind_apply_error {x : Step σ α} {s s' : σ} {e : Error} {j : Journal}
    (h : x s = ⟨.error e, s', j⟩) (f : α → Step σ β) :
    (x >>= f) s = ⟨.error e, s', j⟩ := by
  simp [bind, andThen, h]

end Step

/-! ## Faults of a store

Calls to a store may meet faults.  A source of faults is asked at every call and says which
fault, if any, the call meets; it may change with each answer.  Two sources are given: one that
has no faults, and a script of rules, the first of which that fits a call counts.
-/

inductive Fault where
  /-- The cluster refused the call, with a status and a reason as it gave them. -/
  | refused (status reason : Value)
  /-- The connection broke. -/
  | disconnected (message : String)
  /-- No answer came in time. -/
  | overdue
  /-- The server reported that it took too long. -/
  | serverOverdue
  /-- The call was given up from outside. -/
  | cancelled
  /-- The store reported a failure of its own. -/
  | failed (operation detail : String)
  /-- Something that nobody expects. -/
  | crashed

class FaultSource (φ : Type) where
  /-- The fault a call meets, and the source after the call. -/
  next : φ → Operation → Option String → Option Fault × φ

/-- No call meets a fault. -/
instance : FaultSource Unit where
  next := fun _ _ _ => (none, ())

/-- A rule of a script: the calls it is for, the fault they meet, and how often. -/
structure FaultRule where
  operation : Operation
  /-- The name of the revision concerned; without one the rule is for every revision. -/
  name : Option String
  /-- How often the rule still applies; without a number it applies forever. -/
  times : Option Int
  fault : Fault

namespace FaultRule

def fits (r : FaultRule) (operation : Operation) (name : Option String) : Bool :=
  r.operation == operation && (r.name.isNone || r.name == name) && r.times != some 0

/-- A rule that was applied once. -/
def used (r : FaultRule) : FaultRule := { r with times := r.times.map (· - 1) }

/-- The first rule that fits a call, and the script after the call. -/
def apply (operation : Operation) (name : Option String) :
    List FaultRule → Option Fault × List FaultRule
  | [] => (none, [])
  | r :: rest =>
    if r.fits operation name then (some r.fault, r.used :: rest)
    else let (fault, rest') := apply operation name rest; (fault, r :: rest')

end FaultRule

/-- Calls meet the faults of a script. -/
instance : FaultSource (List FaultRule) where
  next := fun script operation name => FaultRule.apply operation name script

/-! ## Revision stores

What a store of revisions offers: listing, creating and deleting.  A store may list more than it
was asked for, so the revisions of an object are picked out of a listing again: those in the
object's namespace or in none, with the labels asked for, that no other object controls.
-/

def Revision.address (r : Revision) : Address := .ofTexts r.ns r.name

instance : Addressed Revision := ⟨Revision.address⟩

class RevisionStore (σ : Type) where
  /-- The revisions in a namespace that a selector picks, and perhaps more. -/
  list : (ns : String) → Selector → Step σ (List Revision)
  /-- Store a revision and answer with the stored one. -/
  create : Revision → Step σ Revision
  /-- Remove a revision; one that is not there counts as removed. -/
  delete : Revision → Step σ Unit

namespace Store

/-- Whether an object may take a revision as one of its own: no other object controls it. -/
def mayOwn (owner : Metadata) (r : Revision) : Bool :=
  match r.metadata.controller? with
  | none => true
  | some ref => ref.uid == owner.uid

def isIn (ns : String) (r : Revision) : Bool := r.ns == "" || r.ns == ns

def belongs (owner : Metadata) (s : Selector) (r : Revision) : Bool :=
  isIn owner.ns r && s.selects r.metadata.labels && mayOwn owner r

variable {σ : Type} [RevisionStore σ]

/-- The revisions of an object that a selector picks.  Without a selector there are none, and
the store is not asked. -/
def owned (owner : Metadata) : Option Selector → Step σ (List Revision)
  | none => pure []
  | some s => do
    let listed ← RevisionStore.list owner.ns s
    return listed.filter (belongs owner s)

end Store

end RolloutLedger
