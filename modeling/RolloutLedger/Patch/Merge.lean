import RolloutLedger.Value.Literal
/-! # Applying patches

Objects of a patch merge into the objects they meet, null removes a member, and every other
value replaces what was there.  A map that asks for replacement overwrites each member it names
without looking into it, and a map that asks for deletion removes the member it stands for.

Values that replace something lose the directives inside them, at every depth.  As in writing, the
stack that goes down with the depth is not part of the model.
-/

namespace RolloutLedger.Patch

/-! ## Patch directives

A map inside a patch may carry a directive under a key of its own: merge its members into the
map it meets, replace each member it names, or delete the map.  Directives never become part of
a patched document.
-/

inductive Directive where
  | merge
  | replace
  | delete
  deriving DecidableEq

def directiveKey : Key := .text "$patch"

namespace Directive

def ofText? : String → Option Directive
  | "merge" => some .merge
  | "replace" => some .replace
  | "delete" => some .delete
  | _ => none

def text : Directive → String
  | .merge => "merge"
  | .replace => "replace"
  | .delete => "delete"

/-- The directive a value stands for; null stands for none, and a value that is not the name of
a directive is refused with its literal. -/
def ofValue : Value → Except String (Option Directive)
  | .null => .ok none
  | .text s => match ofText? s with
    | some d => .ok (some d)
    | none => .error (Value.text s).literal
  | v => .error v.literal

def ofEntries (es : Entries) : Except String (Option Directive) :=
  ofValue ((Entries.get? directiveKey es).getD .null)

end Directive

/-! ## Merging -/

mutual

/-- A value without directives at any depth. -/
def strip : Value → Value
  | .object es => .object (stripMembers es)
  | .list items => .list (stripItems items)
  | v => v
termination_by structural v => v

def stripItems : List Value → List Value
  | [] => []
  | v :: rest => strip v :: stripItems rest
termination_by structural vs => vs

def stripMembers : List (Key × Value) → List (Key × Value)
  | [] => []
  | (k, v) :: rest =>
    if k.same directiveKey then stripMembers rest else (k, strip v) :: stripMembers rest
termination_by structural es => es

end

/-- The directive of a map inside a patch; an unknown one is a fault of the patch. -/
def directiveOf (es : Entries) : Except PatchFault (Option Directive) :=
  (Directive.ofEntries es).mapError .unknownDirective

/-- Whether a member of a patch removes the member it names: it is null, or a map that asks for
deletion. -/
def removes : Value → Except PatchFault Bool
  | .null => .ok true
  | .object es => (directiveOf es).map (· == some .delete)
  | _ => .ok false

/-- The members of the value a patch meets; a value that is no object has none. -/
def membersOf : Value → Entries
  | .object es => es
  | _ => []

mutual

def merge (target : Value) : Value → Except PatchFault Value
  | .object es => do
    let directive ← directiveOf es
    return .object (← mergeMembers (directive == some .replace) (membersOf target) es)
  | patch => .ok (strip patch)
termination_by structural patch => patch

def mergeMembers (replaces : Bool) (target : Entries) :
    List (Key × Value) → Except PatchFault Entries
  | [] => .ok target
  | (k, v) :: rest =>
    if k.same directiveKey then mergeMembers replaces target rest
    else do
      if ← removes v then mergeMembers replaces (Entries.drop k target) rest
      else if replaces then mergeMembers replaces (Entries.put k (strip v) target) rest
      else
        let merged ← merge ((Entries.get? k target).getD .null) v
        mergeMembers replaces (Entries.put k merged target) rest
termination_by structural es => es

end

/-- A document with a patch applied.  The patch has to be an object and may not delete the whole
document. -/
def apply (document patch : Value) : Except PatchFault Value :=
  match patch with
  | .object es => do
    if (← directiveOf es) == some .delete then throw .deletesDocument
    merge document patch
  | _ => .error (.notAnObject patch.kind)

end RolloutLedger.Patch
