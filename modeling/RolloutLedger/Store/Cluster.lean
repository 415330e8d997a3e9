import RolloutLedger.Store.Basic
/-! # A store in a cluster

Revisions kept as documents behind the interface of a cluster.  Every call has a deadline.  A
call that fails is counted and logged and fails with a store failure, with two exceptions: an
object that is gone already counts as deleted, and what is neither an answer of the cluster nor
a broken connection is passed on as it is.

What is read is decoded document by document, so one document without a reading fails a whole
listing.  What is created is written as a document and read back, which brings its data into
stored form.
-/

namespace RolloutLedger

open Entries (field)

structure ClusterObject where
  /-- The namespace and the name that the document gives, as it gives them. -/
  address : Address
  document : Value
  /-- Whether it comes as an object of the cluster's client, to be turned into its document. -/
  wrapped : Bool

namespace ClusterObject

instance : Addressed ClusterObject := ⟨address⟩

/-- An object from its document, which has to give a name that something can be kept under. -/
def ofDocument (document : Value) (wrapped : Bool) : Except Error ClusterObject := do
  let metadata := (← document.member "metadata").orEmpty
  let ns ← metadata.memberOr "namespace" (.text "")
  let name ← metadata.memberOr "name" (.text "")
  return ⟨⟨← ns.toKey, ← name.toKey, 0⟩, document, wrapped⟩

end ClusterObject

structure Cluster (φ : Type) where
  objects : Catalog ClusterObject
  clock : Time.Timestamp
  /-- The seconds a call may take; null if it may take any time. -/
  deadline : Value
  faults : φ
  /-- How often the connection was closed. -/
  closes : Nat

namespace Cluster

variable {φ : Type}

def empty (clock : Time.Timestamp) (deadline : Value) (faults : φ) : Cluster φ :=
  ⟨.empty, clock, deadline, faults, 0⟩

/-- The cluster with an object put into it as it is, in the place of one whose address agrees. -/
def seed (c : Cluster φ) (o : ClusterObject) : Cluster φ :=
  let address := o.address.among (c.objects.items.map (·.address))
  { c with objects := c.objects.put { o with address := address } }

def remove (c : Cluster φ) (a : Address) : Cluster φ :=
  { c with objects := c.objects.remove a }

def now (c : Cluster φ) : Time.Timestamp := c.clock.addSeconds 1

def stampedDocument (t : Time.Timestamp) : Value → Value
  | .object es =>
    let created := Value.text (t.wireText?.getD "")
    let metadata := match Entries.get? (.text "metadata") es with
      | some (.object ms) => ms
      | _ => []
    .object <| Entries.put (.text "metadata")
      (.object (Entries.put (.text "creationTimestamp") created metadata)) es
  | v => v

/-- The cluster with a document as a new object, one second later. -/
def add (c : Cluster φ) (a : Address) (document : Value) : Cluster φ :=
  { c with
    objects := c.objects.put ⟨a, stampedDocument c.now document, false⟩
    clock := c.now }

/-! ## Calls -/

def logger : Logger := .ofComponent "revision.store"

def warned (operation : Operation) (event : String) (fields : Entries) : Journal :=
  [.counted (.storeErrors operation),
    .logged (logger.record .warning event (field "operation" (.text operation.text) :: fields))]

def faultNotes (deadline : Value) (operation : Operation) : Fault → Journal
  | .refused status reason =>
    warned operation "revision_store_error"
      [field "status" status, field "reason" reason]
  | .disconnected message =>
    warned operation "revision_store_error" [field "error" (.text message)]
  | .overdue | .serverOverdue =>
    warned operation "revision_store_timeout" [field "timeout" deadline]
  | .cancelled | .failed _ _ | .crashed => []

def faultError (deadline : Value) (operation : Operation) : Fault → Error
  | .refused status reason =>
    .store (.refused operation.text (status.asText ++ " " ++ reason.asText))
  | .disconnected message => .store (.refused operation.text message)
  | .overdue | .serverOverdue =>
    .store ⟨operation.text, "deadline of " ++ deadline.asText ++ "s exceeded", true⟩
  | .failed operation detail => .store (.refused operation detail)
  | .cancelled => .cancelled
  | .crashed => .outage .unexpected

def failWith {α : Type} (operation : Operation) (fault : Fault) : Step (Cluster φ) α := do
  let deadline := (← Step.state).deadline
  Step.note (faultNotes deadline operation fault)
  Step.fail (faultError deadline operation fault)

/-- Whether a deadline has passed before a call can begin; one that is no number cannot be
waited for, and neither can an integer that no double comes near. -/
def isPast : Value → Except Error Bool
  | .null => .ok false
  | v => match v.scalar? with
    | some seconds =>
      if seconds.le (.int 0) then .ok true
      else if seconds.exceedsDoubles then .error .outOfRange
      else .ok false
    | none => .error .wrongType

/-- Make a call, and say which fault it met.  If the deadline has passed already, the call is
not made. -/
def call [FaultSource φ] (c : Call) (operation : Operation) (name : Option String) :
    Step (Cluster φ) (Option Fault) := fun s =>
  match isPast s.deadline with
  | .error e => ⟨.error e, s, []⟩
  | .ok true => ⟨.ok (some .overdue), s, []⟩
  | .ok false =>
    let (fault, faults) := FaultSource.next s.faults operation name
    ⟨.ok fault, { s with faults := faults }, [.called c]⟩

def conflict : Fault := .refused (.int 409) (.text "Conflict")

def isGone : Fault → Bool
  | .refused status _ => status.same (.int 404)
  | _ => false

def goneNotes (r : Revision) : Journal :=
  [.logged <| logger.record .debug "revision_already_deleted"
    [field "name" (.text r.name), field "namespace" (.text r.ns)]]

/-! ## Reading -/

def readObject (o : ClusterObject) : Step (Cluster φ) Revision := do
  if o.wrapped then Step.note [.called .unwrap]
  Step.ofExcept (Revision.ofDocument o.document)

def readObjects : List ClusterObject → Step (Cluster φ) (List Revision)
  | [] => pure []
  | o :: rest => do
    let r ← readObject o
    return r :: (← readObjects rest)

/-- Every revision in the cluster, read without a call. -/
def revisions : Step (Cluster φ) (List Revision) := do
  readObjects (← Step.state).objects.items

def close : Step (Cluster φ) Nat := do
  let s ← Step.state
  Step.setState { s with closes := s.closes + 1 }
  return s.closes + 1

instance [FaultSource φ] : RevisionStore (Cluster φ) where
  list ns selector := do
    let query ← Step.ofExcept selector.query
    match ← call (.list ns query) .list none with
    | some fault => failWith .list fault
    | none => revisions
  create r := do
    let body ← Step.ofExcept r.document
    match ← call (.submit r.ns body) .create (some r.name) with
    | some fault => failWith .create fault
    | none => do
      let s ← Step.state
      if s.objects.holds r.address then failWith .create conflict
      else do
        Step.setState (s.add r.address body)
        let created ← Step.ofExcept (Revision.ofDocument (stampedDocument s.now body))
        return { created with data := { created.data with object := r.data.object } }
  delete r := do
    match ← call (.delete r.ns r.name) .delete (some r.name) with
    | some fault => if isGone fault then Step.note (goneNotes r) else failWith .delete fault
    | none => do
      let s ← Step.state
      if s.objects.holds r.address then Step.setState (s.remove r.address)
      else Step.note (goneNotes r)

end Cluster

end RolloutLedger
