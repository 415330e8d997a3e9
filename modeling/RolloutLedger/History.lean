import RolloutLedger.Store.Basic
/-! # Histories

The revisions of one group: their order, the number of the next one, and how many are kept.
-/

namespace RolloutLedger.History

/-! ## The order of a history

Revisions are ordered by number, then by creation time, then by name; one without a creation
time counts as created at the earliest instant.  The highest revision is the one with the
greatest number, the last of them in the list if several share it; numbers below zero are never
the highest.  The next revision takes the number after the highest.
-/

/-- The element with the greatest number that is not below `floor`; of several the last. -/
def highestFrom {α : Type} (number : α → Int) (floor : Int) (best : Option α) :
    List α → Option α
  | [] => best
  | x :: rest =>
    if floor ≤ number x then highestFrom number (number x) (some x) rest
    else highestFrom number floor best rest

def highestBy? {α : Type} (number : α → Int) (xs : List α) : Option α :=
  highestFrom number 0 none xs

def highest? (revisions : List Revision) : Option Revision :=
  highestBy? Revision.number revisions

def nextNumber (revisions : List Revision) : Int :=
  match highest? revisions with
  | none => 1
  | some r => r.number + 1

/-- The instant at which a revision counts as created. -/
def creation (r : Revision) : Int :=
  (r.metadata.created.getD Time.Timestamp.earliest).instant

/-- Whether a revision may stand before another in a history. -/
def precedes (a b : Revision) : Bool :=
  a.number < b.number ||
    (a.number == b.number &&
      (creation a < creation b || (creation a == creation b && textLe a.name b.name)))

def sorted (revisions : List Revision) : List Revision := sortBy precedes revisions

/-! ## Retention

A history is kept to a number of revisions by deleting the oldest ones beyond it, one after the
other.  The first deletion that the store refuses stops this: the whole list is retained as it
was given, so that the same retention can be tried again later.  The newest revisions up to the
limit are never deleted.
-/

open Entries (field)

/-- A retention that was stopped: the list it was given, and the failure that stopped it. -/
structure Interruption where
  retained : List Revision
  cause : StoreFailure

namespace Interruption

def message (i : Interruption) : String := "pruning revisions stopped: " ++ i.cause.message

end Interruption

def defaultLimit : Int := 10

def logger : Logger := .ofComponent "revision.history"

def revisionFields (r : Revision) : Entries :=
  [field "name" (.text r.name), field "namespace" (.text r.ns), field "revision" (.int r.number)]

def prunedNotes (r : Revision) : Journal :=
  [.counted .pruned, .logged (logger.record .info "revision_pruned" (revisionFields r))]

def refusedNotes (r : Revision) (cause : StoreFailure) : Journal :=
  [.logged <| logger.record .warning "revision_prune_failed"
    (revisionFields r ++ [field "error" (.text cause.message)])]

variable {σ : Type} [RevisionStore σ]

/-- Delete revisions one after the other up to the first that the store refuses to delete, and
say why it refused. -/
def deleteAll : List Revision → Step σ (Option StoreFailure)
  | [] => pure none
  | r :: rest => do
    match ← (RevisionStore.delete r).attempt with
    | .ok () =>
      Step.note (prunedNotes r)
      deleteAll rest
    | .error (.store cause) =>
      Step.note (refusedNotes r cause)
      return some cause
    | .error e => Step.fail e

/-- How many of some revisions are more than a limit allows. -/
def surplus (revisions : List Revision) (limit : Int) : Nat :=
  ((revisions.length : Int) - limit).toNat

/-- Keep the newest revisions of a list, as many as the limit says, and answer with them in
order.  A list that is short enough is kept as it is. -/
def prune (revisions : List Revision) (limit : Int) :
    Step σ (Except Interruption (List Revision)) :=
  if limit < 1 then Step.fail (.limitTooSmall (Decimal.text limit))
  else if surplus revisions limit = 0 then pure (.ok revisions)
  else do
    let ordered := sorted revisions
    match ← deleteAll (ordered.take (surplus revisions limit)) with
    | none => return .ok (ordered.drop (surplus revisions limit))
    | some cause => return .error ⟨revisions, cause⟩

/-- Keep the newest revisions of a list under a limit that was not checked.  A double can be
compared with the number of revisions, but nothing can be cut by it. -/
def pruneUnchecked (revisions : List Revision) :
    Value → Step σ (Except Interruption (List Revision))
  | .int limit => prune revisions limit
  | .bool true => prune revisions 1
  | .bool false => Step.fail (.limitTooSmall (Value.bool false).literal)
  | .float x =>
    if (Scalar.float x).lt (.int 1) then Step.fail (.limitTooSmall x.text)
    else if (Scalar.int revisions.length).le (.float x) then pure (.ok revisions)
    else Step.fail .wrongType
  | _ => Step.fail .wrongType

theorem pruneUnchecked_int (revisions : List Revision) (limit : Int) :
    (pruneUnchecked revisions (.int limit) : Step σ _) = prune revisions limit := rfl

end RolloutLedger.History
