import RolloutLedger.Proofs.Digest.Canonical
import RolloutLedger.Proofs.Document.Closure
import RolloutLedger.Proofs.Patch.Merge
/-! # Stored snapshots

The snapshot of a group that fits has a stored form.  It is read as the ordered form of the
snapshot, and if every role has a name, then the digests of its roles can be taken.
-/

namespace RolloutLedger

open Entries (field)

/-! ## What snapshots tell apart

Two groups declare the same if their role documents are the same JSON in the same order and their
policies are both absent or the same JSON.  Encoded snapshots of plain groups are equal just then.
-/

namespace Group

/-- Whether the documents of a group's roles and of its policy are plain data. -/
def isPlain (g : Group) : Bool :=
  g.spec.roleDocuments.all Value.isPlain && (GangPolicy.documentOrNull g.spec.policy).isPlain

/-- Whether two groups declare the same roles, in the same order, and the same policy. -/
def declaresSame (a b : Group) : Bool :=
  Value.sameJson (.list a.spec.roleDocuments) (.list b.spec.roleDocuments) &&
    match a.spec.policy, b.spec.policy with
    | none, none => true
    | some p, some q => Value.sameJson p.document q.document
    | _, _ => false

end Group

namespace Patch

variable {a b g : Group}

theorem isPlain_snapshot (h : g.isPlain = true) : (snapshot g).isPlain = true := by
  rw [Group.isPlain, Bool.and_eq_true, List.all_eq_true] at h
  have hroles : (Value.list g.spec.roleDocuments).isPlain = true := Value.isPlain_list_iff.mpr h.1
  have hspec : Entries.keysApart [(directiveKey, Value.text Directive.replace.text),
      field "podGroupPolicy" (GangPolicy.documentOrNull g.spec.policy),
      field "roles" (.list g.spec.roleDocuments)] = true := by rfl
  have hwhole : ∀ v : Value, Entries.keysApart [field "spec" v] = true := fun _ => rfl
  rw [snapshot, Value.isPlain_object_iff]
  refine ⟨hwhole _, fun p hp => ?_⟩
  rw [List.mem_singleton.mp hp]
  refine Value.isPlain_object_iff.mpr ⟨hspec, fun q hq => ?_⟩
  rcases List.mem_cons.mp hq with rfl | hq
  · rfl
  rcases List.mem_cons.mp hq with rfl | hq
  · exact h.2
  · rw [List.mem_singleton.mp hq]
    exact hroles

/-- Snapshots are the same JSON exactly if the groups declare the same. -/
theorem sameJson_snapshot (a b : Group) :
    Value.sameJson (snapshot a) (snapshot b) = a.declaresSame b := by
  have hpolicy : Value.sameJson (GangPolicy.documentOrNull a.spec.policy)
      (GangPolicy.documentOrNull b.spec.policy) =
        match a.spec.policy, b.spec.policy with
        | none, none => true
        | some p, some q => Value.sameJson p.document q.document
        | _, _ => false := by
    cases a.spec.policy <;> cases b.spec.policy <;> rfl
  have hkeys : ∀ s t : String, (Key.text s == Key.text t) = (s == t) := fun s t => by
    rw [Bool.eq_iff_iff, beq_iff_eq, beq_iff_eq, Key.text.injEq]
  rw [Group.declaresSame, ← hpolicy]
  simp [snapshot, Value.sameJson, Value.sameMembers, field, directiveKey, hkeys, Bool.and_comm]

theorem encodeSnapshot_eq_iff {raw raw' : Bytes} (ha : a.isPlain = true) (hb : b.isPlain = true)
    (hraw : encodeSnapshot a = .ok raw) (hraw' : encodeSnapshot b = .ok raw') :
    raw = raw' ↔ a.declaresSame b = true := by
  rw [← sameJson_snapshot]
  exact Json.encode_eq_iff_sameJson (isPlain_snapshot ha) (isPlain_snapshot hb) hraw hraw'

end Patch

/-! ## The stored form -/

open Entries (field valueOr keysApart)

namespace GroupSpec

def isNamed (s : GroupSpec) : Bool := s.roles.all fun r => r.name != ""

end GroupSpec

namespace Patch

variable {room : Nat} {g : Group}

theorem keysApart_overwriting (policy roles : Value) :
    keysApart (overwriting policy roles) = true := rfl

theorem fits_snapshot (h : g.spec.Fits room) : (snapshot g).Fits (room + 10) := by
  have hwhole : ∀ v : Value, keysApart [field "spec" v] = true := fun _ => rfl
  rw [snapshot_eq]
  refine Value.Fits.object_iff.mpr ⟨hwhole _, ?_⟩
  rw [List.forall_mem_singleton]
  refine Value.Fits.object_iff.mpr ⟨keysApart_overwriting _ _, ?_⟩
  simp only [overwriting, List.forall_mem_cons, List.not_mem_nil, false_implies, implies_true,
    and_true]
  exact ⟨.text _, GroupSpec.fits_documentOrNull h, GroupSpec.fits_roleDocuments h⟩

theorem within_snapshot {t : Terms} {doc : Value} (h : doc.Within t (room + 10))
    (hg : Group.ofDocument doc = .ok g) (hkeys : t.apart → g.spec.hasTextKeys = true) :
    (snapshot g).Within t (room + 10) := by
  obtain ⟨es, rfl, -, hspec⟩ := Group.exists_object_of_ofDocument hg
  obtain ⟨hroles, hpolicy, -⟩ := GroupSpec.within_parts (h.valueOr "spec" .null) hspec hkeys
  have hwhole : ∀ v : Value, keysApart [field "spec" v] = true := fun _ => rfl
  rw [snapshot_eq]
  refine .object (.of_keysApart (hwhole _)) ?_
  rw [List.forall_mem_singleton]
  refine .object (.of_keysApart (keysApart_overwriting _ _)) ?_
  simp only [overwriting, List.forall_mem_cons, List.not_mem_nil, false_implies, implies_true,
    and_true]
  exact ⟨.text _, hpolicy, hroles⟩

/-- The members of a snapshot stand in the order of their names.  So a change that sorts members
reaches the documents in it and leaves the snapshot as it is otherwise. -/
theorem change_snapshot {change : Value → Value}
    (hobject : ∀ es, keysApart es = true →
      change (.object es) = .object (Entries.mapValues change (Entries.sorted es)))
    (hlist : ∀ items, change (.list items) = .list (items.map change))
    (htext : ∀ s, change (.text s) = .text s) (g : Group) :
    change (snapshot g) = .object [field "spec" (.object
      (overwriting (change (GangPolicy.documentOrNull g.spec.policy))
        (.list (g.spec.roleDocuments.map change))))] := by
  have hwhole : ∀ v : Value, keysApart [field "spec" v] = true := fun _ => rfl
  have hspec : ∀ v : Value, Entries.sorted [field "spec" v] = [field "spec" v] := fun _ => rfl
  have hsorted : ∀ policy roles : Value,
      Entries.sorted (overwriting policy roles) = overwriting policy roles := fun _ _ => rfl
  rw [snapshot_eq, hobject _ (hwhole _), hspec, Entries.mapValues_cons_field,
    Entries.mapValues_nil, hobject _ (keysApart_overwriting _ _), hsorted, overwriting, overwriting]
  simp [Entries.mapValues, field, hlist, htext]

theorem ordered_snapshot (g : Group) :
    (snapshot g).ordered = .object [field "spec" (.object
      (overwriting (GangPolicy.documentOrNull g.spec.policy).ordered
        (.list (g.spec.roleDocuments.map Value.ordered))))] :=
  change_snapshot (fun es _ => Value.ordered_object es) Value.ordered_list (fun _ => rfl) g

/-- The members of the policy document of a declaration, in ordered form. -/
def orderedPolicy (s : GroupSpec) : Option Entries :=
  s.policy.map fun p => Entries.ordered p.members

/-- A role document in its ordered form is read if it gives a name that is not empty. -/
theorem roleOf_ordered (r : Role) :
    Snapshot.roleOf r.document.ordered =
      if r.name != "" then .ok (Entries.ordered r.members) else .error .unnamedRole := by
  have hget : Entries.get? (.text "name") (Entries.ordered r.members) = some (.text r.name) := by
    rw [Entries.get?_ordered r.keysApart_members]
    simp [Role.members]
  rw [Role.document_eq, Value.ordered_object_eq, Snapshot.roleOf, Snapshot.roleName?, hget]
  by_cases hname : r.name = ""
  · simp [hname]
  · simp [hname]

/-- **A snapshot is read back**, if every role has a name. -/
theorem ofDocument_snapshot_ordered (g : Group) :
    Snapshot.ofDocument (snapshot g).ordered =
      if g.spec.isNamed then .ok ⟨g.spec.roles.map fun r => Entries.ordered r.members,
        orderedPolicy g.spec, some .replace⟩
      else .error .unnamedRole := by
  have hroles : (g.spec.roleDocuments.map Value.ordered).mapM Snapshot.roleOf =
      if g.spec.isNamed then .ok (g.spec.roles.map fun r => Entries.ordered r.members)
      else .error .unnamedRole := by
    rw [GroupSpec.roleDocuments, List.map_map, List.mapM_map]
    exact mapM_of_ite fun r _ => roleOf_ordered r
  have hpolicy : Snapshot.policyOf (GangPolicy.documentOrNull g.spec.policy).ordered =
      .ok (orderedPolicy g.spec) := by
    rw [orderedPolicy]
    cases g.spec.policy with
    | none => rfl
    | some p => rw [GangPolicy.documentOrNull, p.document_eq, Value.ordered_object_eq]; rfl
  rw [ordered_snapshot]
  show (do
    let roles ← (g.spec.roleDocuments.map Value.ordered).mapM Snapshot.roleOf
    let policy ← Snapshot.policyOf (GangPolicy.documentOrNull g.spec.policy).ordered
    return ⟨roles, policy, some .replace⟩ : Except MalformedPatch Snapshot) = _
  rw [hroles, hpolicy]
  by_cases hnamed : g.spec.isNamed = true
  · rw [if_pos hnamed, if_pos hnamed]
    rfl
  · rw [if_neg hnamed, if_neg hnamed]
    rfl

/-- The stored snapshot of a group is read as its roles and its policy, in ordered form, unless a
role has no name. -/
theorem decode_snapshot {raw : Bytes} (hraw : Json.decode raw = .ok (snapshot g).ordered) :
    Snapshot.decode raw =
      if g.spec.isNamed then .ok ⟨g.spec.roles.map fun r => Entries.ordered r.members,
        orderedPolicy g.spec, some .replace⟩
      else .error (.malformed .unnamedRole) := by
  rw [Snapshot.decode, hraw]
  show (Snapshot.ofDocument (snapshot g).ordered).mapError _ = _
  rw [ofDocument_snapshot_ordered]
  split
  · rfl
  · rfl

end Patch

namespace Digest

theorem exists_hashRoles {o : HashOptions} {room : Nat} {roles : List Entries}
    (h : ∀ es ∈ roles, (Value.object es).Within .exchange room) (known : List (String × String)) :
    ∃ hashes, hashRoles o known roles = .ok hashes := by
  induction roles generalizing known with
  | nil => exact ⟨known, rfl⟩
  | cons es rest ih =>
    obtain ⟨hash, hhash⟩ := exists_valueHash o (h es List.mem_cons_self)
    rw [hashRoles, hhash]
    exact ih (fun fs hfs => h fs (List.mem_cons_of_mem _ hfs)) _

end Digest

/-! ## What a stored snapshot puts in place

Roles and policy that a stored snapshot puts in place were read from their stored form and have
lost their directives since.  Rereading a value and stripping it is a recasting, for content of
every kind.  It leaves the keys of every object apart.
-/

open Entries (field valueOr keysApart mapValues)
open Value (Within)

namespace Patch

variable {room : Nat} {t : Terms} {v : Value} {g : Group}

theorem within_strip (h : v.Within t room) : (strip v).Within t room := by
  induction h with
  | scalar h =>
    cases h with
    | null => exact .null
    | bool b => exact .scalar (.bool b)
    | int h => exact .int h
    | float h => exact .scalar (.float h)
    | text s => exact .text s
  | list _ ih =>
    rw [strip_list]
    refine .list fun w hw => ?_
    obtain ⟨v, hv, rfl⟩ := List.mem_map.mp hw
    exact ih v hv
  | object keys _ ih =>
    rw [strip_object]
    refine .object ⟨fun q hq => ?_, fun hapart => keysApart_stripMembers (keys.apart hapart)⟩
      fun q hq => ?_
    · obtain ⟨p, hp, -, rfl⟩ := mem_stripMembers_iff.mp hq
      exact keys.scalar p hp
    · obtain ⟨p, hp, -, rfl⟩ := mem_stripMembers_iff.mp hq
      exact ih p hp

/-! ### Rereading and stripping -/

/-- Values as they are read from their stored form, less the directives in them. -/
def rereading : Recasting where
  value v := strip v.reread
  members es := stripMembers (Entries.asWritten (mapValues Value.reread es))
  value_list items := by
    rw [Value.reread_list, strip_list, List.map_map]
    rfl
  value_object es := by rw [Value.reread_object, strip_object]
  value_scalar {v} hlist hobject := by
    cases v with
    | list items => exact absurd rfl (hlist items)
    | object es => exact absurd rfl (hobject es)
    | _ => rfl
  members_nil := rfl
  get?_members {es} h {n} hn := by
    have hkeys : keysApart (mapValues Value.reread es) = true := by
      rw [Entries.keysApart_mapValues]
      exact h
    rw [get?_stripMembers hn, Entries.get?_asWritten hkeys, Entries.get?_mapValues, Option.map_map]
    rfl
  without_members {es} h names := by
    have hkeys : keysApart (mapValues Value.reread es) = true := by
      rw [Entries.keysApart_mapValues]
      exact h
    rw [without_stripMembers, Entries.without_asWritten hkeys, Entries.without_mapValues]
  fits h := by
    rw [(Within.of_fits (t := .exchange) h).reread_eq_ordered trivial]
    exact fits_strip h.ordered

theorem keysApart_rereading (es : Entries) : keysApart (rereading.members es) = true :=
  keysApart_stripMembers (Entries.keysApart_asWritten _)

theorem hasTextKeys_rereading (s : GroupSpec) : (s.recast rereading).hasTextKeys = true := by
  simp [GroupSpec.hasTextKeys, GroupSpec.recast, Role.hasTextKeys, Role.recast,
    PodTemplate.hasTextKeys, PodTemplate.recast, PodSpec.hasTextKeys, PodSpec.recast,
    Container.hasTextKeys, Container.recast, keysApart_rereading]

/-! ### Stored snapshots -/

theorem reread_snapshot (g : Group) :
    (snapshot g).reread = .object [field "spec" (.object
      (overwriting (GangPolicy.documentOrNull g.spec.policy).reread
        (.list (g.spec.roleDocuments.map Value.reread))))] :=
  change_snapshot (fun _ => Value.reread_object_of_keysApart) Value.reread_list (fun _ => rfl) g

/-- What is decoded from the stored snapshot of a group is the snapshot in its ordered form. -/
theorem ofDocument_of_decode {raw : Bytes} {s : Snapshot} (h : (snapshot g).Within .json room)
    (hraw : encodeSnapshot g = .ok raw) (hs : Snapshot.decode raw = .ok s) :
    Snapshot.ofDocument (snapshot g).ordered = .ok s := by
  obtain ⟨w, hw, hs⟩ := bind_eq_ok_iff.mp hs
  have hordered := Json.eq_reread_of_decode h hraw (mapError_eq_ok_iff.mp hw)
  rw [h.reread_eq_ordered trivial] at hordered
  rw [← hordered]
  exact mapError_eq_ok_iff.mp hs

/-- So its roles are those of the group, in their ordered form, and each of them has a name. -/
theorem roles_of_decode {raw : Bytes} {s : Snapshot} (h : (snapshot g).Within .json room)
    (hraw : encodeSnapshot g = .ok raw) (hs : Snapshot.decode raw = .ok s) :
    g.spec.isNamed = true ∧ s.roles = g.spec.roles.map fun r => Entries.ordered r.members := by
  have hread := ofDocument_of_decode h hraw hs
  rw [ofDocument_snapshot_ordered] at hread
  by_cases hnamed : g.spec.isNamed = true
  · rw [if_pos hnamed] at hread
    cases hread
    exact ⟨hnamed, rfl⟩
  · rw [if_neg hnamed] at hread
    cases hread

/-- A patch that overwrites roles and policy with those of a group, recast. -/
structure Overwrites (f : Recasting) (g : Group) (policy : Value) (docs : List Value) : Prop where
  /-- The policy is removed if it is null, and put in place as it is otherwise. -/
  kept : policy = .null ∨ removes policy = .ok false
  policy : strip policy = f.value (GangPolicy.documentOrNull g.spec.policy)
  roles : docs.map strip = g.spec.roleDocuments.map f.value

/-- Documents that were changed by a change that sorts members and keeps null. -/
theorem overwrites_change {f : Recasting} {change : Value → Value}
    (hobject : ∀ es, keysApart es = true →
      change (.object es) = .object (mapValues change (Entries.sorted es)))
    (hnull : change .null = .null) (hvalue : ∀ v, strip (change v) = f.value v) (g : Group) :
    Overwrites f g (change (GangPolicy.documentOrNull g.spec.policy))
      (g.spec.roleDocuments.map change) where
  kept := by
    cases g.spec.policy with
    | none => exact Or.inl hnull
    | some p =>
      rw [GangPolicy.documentOrNull, p.document_eq, hobject _ p.keysApart_members]
      exact Or.inr (removes_object (p.ne_directiveKey_of_mem change))
  policy := hvalue _
  roles := by
    rw [List.map_map]
    exact List.map_congr_left fun v _ => hvalue v

theorem overwrites_ordered (g : Group) :
    Overwrites stripping g (GangPolicy.documentOrNull g.spec.policy).ordered
      (g.spec.roleDocuments.map Value.ordered) :=
  overwrites_change (fun es _ => Value.ordered_object es) rfl (fun _ => rfl) g

theorem overwrites_reread (g : Group) :
    Overwrites rereading g (GangPolicy.documentOrNull g.spec.policy).reread
      (g.spec.roleDocuments.map Value.reread) :=
  overwrites_change (fun _ => Value.reread_object_of_keysApart) rfl (fun _ => rfl) g

end Patch

end RolloutLedger
