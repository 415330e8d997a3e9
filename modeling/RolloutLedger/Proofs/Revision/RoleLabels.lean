import RolloutLedger.Proofs.Digest.Roles
import RolloutLedger.Proofs.Revision.Build
import RolloutLedger.Proofs.Revision.SortKeys
/-! # Labels of built revisions

The labels of a built revision name the group, hold the digest of its snapshot, and hold one digest
for every name of a role.  Roles are digested after the snapshot was written and read again, in the
middle of all the others; still the digest is that of the last role with the name as the group has
it, with its keys sorted, and nothing else in the group has a part in it.
-/

namespace RolloutLedger

open Entries (field keysApart)

def GroupSpec.lastRole? (s : GroupSpec) (name : String) : Option Role :=
  s.roles.reverse.find? fun r => r.name == name

theorem GroupSpec.mem_of_lastRole? {s : GroupSpec} {name : String} {r : Role}
    (h : s.lastRole? name = some r) : r ∈ s.roles ∧ r.name = name := by
  rw [lastRole?] at h
  have hname := List.find?_some h
  exact ⟨List.mem_reverse.mp (List.mem_of_find?_eq_some h), beq_iff_eq.mp hname⟩

theorem GroupSpec.exists_lastRole? {s : GroupSpec} {r : Role} (hr : r ∈ s.roles) :
    ∃ last ∈ s.roles, s.lastRole? r.name = some last := by
  cases hlast : s.lastRole? r.name with
  | some last => exact ⟨last, (mem_of_lastRole? hlast).1, rfl⟩
  | none =>
    have hnone := List.find?_eq_none.mp hlast r (List.mem_reverse.mpr hr)
    exact absurd (beq_self_eq_true r.name) hnone

/-! ## The keys of labels -/

theorem roleHashLabel_inj {a b : String} : roleHashLabel a = roleHashLabel b ↔ a = b :=
  String.append_right_inj _

theorem nameLabel_ne_hashLabel : nameLabel ≠ hashLabel := by
  decide

/-- A text whose first characters are others does not have this beginning. -/
theorem ne_append_of_take_ne {text stem : String} {n : Nat} (hn : n ≤ stem.toList.length)
    (h : text.toList.take n ≠ stem.toList.take n) (rest : String) : text ≠ stem ++ rest := by
  rintro rfl
  apply h
  rw [String.toList_append, List.take_append_of_le_length hn]

theorem nameLabel_ne_roleHashLabel (role : String) : nameLabel ≠ roleHashLabel role :=
  @ne_append_of_take_ne _ _ 40 (by decide +kernel) (by decide +kernel) role

theorem hashLabel_ne_roleHashLabel (role : String) : hashLabel ≠ roleHashLabel role :=
  @ne_append_of_take_ne _ _ 40 (by decide +kernel) (by decide +kernel) role

namespace Revision

section Labels

variable {group hash : String} {roleHashes : List (String × String)}

theorem get?_labelsFor_name :
    Entries.get? (.text nameLabel) (labelsFor group hash roleHashes) = some (.text group) := by
  rw [labelsFor, Entries.get?_cons_field, if_pos rfl]

theorem get?_labelsFor_hash :
    Entries.get? (.text hashLabel) (labelsFor group hash roleHashes) = some (.text hash) := by
  rw [labelsFor, Entries.get?_cons_field, if_neg nameLabel_ne_hashLabel, Entries.get?_cons_field,
    if_pos rfl]

theorem get?_labelsFor_role (role : String) :
    Entries.get? (.text (roleHashLabel role)) (labelsFor group hash roleHashes) =
      (roleHashes.lookup role).map Value.text := by
  rw [labelsFor, Entries.get?_cons_field, if_neg (nameLabel_ne_roleHashLabel role),
    Entries.get?_cons_field, if_neg (hashLabel_ne_roleHashLabel role)]
  induction roleHashes with
  | nil => rfl
  | cons p rest ih =>
    rw [List.map_cons, Entries.get?_cons_field, Digest.lookup_cons_eq, ih]
    by_cases hp : p.1 = role
    · rw [if_pos hp, if_pos (roleHashLabel_inj.mpr hp)]
      rfl
    · rw [if_neg hp, if_neg fun h => hp (roleHashLabel_inj.mp h)]

theorem map_fst_labelsFor :
    (labelsFor group hash roleHashes).map (·.1) = Key.text nameLabel :: Key.text hashLabel ::
      (roleHashes.map (·.1)).map fun name => Key.text (roleHashLabel name) := by
  rw [labelsFor, List.map_cons, List.map_cons, List.map_map, List.map_map]
  rfl

theorem keysApart_labelsFor (h : (roleHashes.map (·.1)).Nodup) :
    keysApart (labelsFor group hash roleHashes) = true := by
  refine Entries.keysApart_iff.mpr ⟨?_, ?_⟩
  · intro p hp
    rw [labelsFor, List.mem_cons, List.mem_cons, List.mem_map] at hp
    rcases hp with rfl | rfl | ⟨q, -, rfl⟩
    · exact ⟨_, rfl⟩
    · exact ⟨_, rfl⟩
    · exact ⟨_, rfl⟩
  · have hroles : ∀ label, (∀ role, label ≠ roleHashLabel role) →
        Key.text label ∉ (roleHashes.map (·.1)).map fun name => Key.text (roleHashLabel name) := by
      intro label hlabel hmem
      obtain ⟨role, -, hrole⟩ := List.mem_map.mp hmem
      exact hlabel role (Key.text.inj hrole).symm
    rw [map_fst_labelsFor, List.nodup_cons, List.nodup_cons, List.mem_cons, not_or]
    refine ⟨⟨?_, hroles _ nameLabel_ne_roleHashLabel⟩, hroles _ hashLabel_ne_roleHashLabel, ?_⟩
    · intro hkey
      exact nameLabel_ne_hashLabel (Key.text.inj hkey)
    · exact h.map fun _ _ hkey => roleHashLabel_inj.mp (Key.text.inj hkey)

end Labels

/-! ## What is digested of a group -/

variable {o : HashOptions} {g : Group} {n : Int} {r : Revision} {room : Nat}

theorem nameOf_ordered (role : Role) :
    Digest.nameOf (Entries.ordered role.members) = role.name := by
  have hget : Entries.get? (.text "name") (Entries.ordered role.members) =
      some (.text role.name) := by
    rw [Entries.get?_ordered role.keysApart_members]
    simp [Role.members]
  rw [Digest.nameOf, Patch.Snapshot.roleName?, hget]
  by_cases hname : role.name = ""
  · simp [hname]
  · simp [hname]

theorem lastNamed_ordered (s : GroupSpec) (name : String) :
    Digest.lastNamed name (s.roles.map fun role => Entries.ordered role.members) =
      (s.lastRole? name).map fun role => Entries.ordered role.members := by
  rw [Digest.lastNamed, ← List.map_reverse, List.find?_map, GroupSpec.lastRole?]
  refine congrArg _ (congrArg (List.find? · _) (funext fun role => ?_))
  rw [Function.comp, nameOf_ordered]

/-- A role of a stored snapshot is digested as the role of the group is with its keys sorted. -/
theorem valueHash_members (h : (Patch.snapshot g).IsJson) {role : Role}
    (hrole : role ∈ g.spec.roles) (o : HashOptions) :
    Digest.valueHash o (.object (Entries.ordered role.members)) =
      Digest.valueHash ⟨true, o.indent⟩ role.document := by
  rw [← Value.ordered_object_eq, ← Role.document_eq]
  exact Digest.valueHash_ordered o
    (Digest.isJson_roleDocuments h _ (List.mem_map_of_mem hrole))

theorem exists_hashes_of_build (h : (Patch.snapshot g).Within .json room)
    (hbuild : build o g n = .ok r) :
    g.spec.isNamed = true ∧ ∃ raw hashes, Patch.encodeSnapshot g = .ok raw ∧
      Digest.hashRoles o [] (g.spec.roles.map fun role => Entries.ordered role.members) =
        .ok hashes ∧
      r = assemble g n raw (Digest.shown (Digest.ofBytes raw)) hashes := by
  obtain ⟨raw, hashes, hraw, hhashes, rfl⟩ := exists_assemble_of_build hbuild
  have hne : ¬ raw.isEmpty = true := by
    intro hempty
    exact Json.ne_nil_of_encode h hraw (List.isEmpty_iff.mp hempty)
  rw [Digest.roleHashes, if_neg hne] at hhashes
  obtain ⟨s, hs, hhashes⟩ := bind_eq_ok_iff.mp hhashes
  obtain ⟨hnamed, hroles⟩ := Patch.roles_of_decode h hraw hs
  rw [hroles] at hhashes
  exact ⟨hnamed, raw, hashes, hraw, hhashes, rfl⟩

/-- A role without a name keeps a revision from being built. -/
theorem build_of_unnamed (h : g.spec.Fits room) (hroom : room + 10 ≤ Json.maxDepth)
    (hunnamed : ¬ g.spec.isNamed = true) : build o g n = .error (.malformed .unnamedRole) := by
  obtain ⟨raw, hraw, hdecode⟩ := Json.decode_encode ((Patch.fits_snapshot h).mono hroom)
  have hne : ¬ raw.isEmpty = true := by
    intro hempty
    exact ne_nil_of_decode hdecode (List.isEmpty_iff.mp hempty)
  have hsnapshot : Patch.Snapshot.decode raw = .error (.malformed .unnamedRole) := by
    rw [Patch.decode_snapshot hdecode, if_neg hunnamed]
  have hhash : Digest.contentHash o raw .null = .ok (Digest.shown (Digest.ofBytes raw)) := rfl
  rw [build, Patch.encodeSnapshot, hraw, ok_bind, hhash, ok_bind, Digest.roleHashes, if_neg hne,
    hsnapshot]
  rfl

/-! ## Labels -/

/-- The labels of a revision that was built for a group. -/
structure HasLabels (o : HashOptions) (g : Group) (labels : Entries) : Prop where
  /-- The keys are texts, no two of them equal. -/
  apart : keysApart labels = true
  keys : ∀ k, k ∈ labels.map (·.1) ↔ k = .text nameLabel ∨ k = .text hashLabel ∨
    ∃ role ∈ g.spec.roles, k = .text (roleHashLabel role.name)
  name : Entries.get? (.text nameLabel) labels = some (.text g.metadata.name)
  /-- The digest of the group's snapshot. -/
  hash : ∃ raw hash, Patch.encodeSnapshot g = .ok raw ∧
    Digest.contentHash o raw .null = .ok hash ∧
      Entries.get? (.text hashLabel) labels = some (.text hash)
  /-- The digest of the last role with the name, as the group has it and with sorted keys. -/
  roles : ∀ role ∈ g.spec.roles, ∃ last bytes, g.spec.lastRole? role.name = some last ∧
    Digest.canonical ⟨true, o.indent⟩ last.document = .ok bytes ∧
      Entries.get? (.text (roleHashLabel role.name)) labels =
        some (.text (Digest.shown (Digest.ofBytes bytes)))

theorem hasLabels_of_build (h : (Patch.snapshot g).Within .json room)
    (hbuild : build o g n = .ok r) : HasLabels o g r.metadata.labels := by
  obtain ⟨-, raw, hashes, hraw, hhashes, rfl⟩ := exists_hashes_of_build h hbuild
  have hnames : ∀ m, m ∈ hashes.map (·.1) ↔ ∃ role ∈ g.spec.roles, role.name = m := by
    intro m
    rw [Digest.mem_names_hashRoles hhashes]
    simp [nameOf_ordered]
  constructor
  · exact keysApart_labelsFor (Digest.nodup_hashRoles hhashes List.nodup_nil)
  · intro k
    show k ∈ (labelsFor g.metadata.name _ hashes).map (·.1) ↔ _
    rw [map_fst_labelsFor, List.mem_cons, List.mem_cons, List.mem_map]
    refine or_congr_right (or_congr_right ?_)
    constructor
    · rintro ⟨m, hm, rfl⟩
      obtain ⟨role, hrole, rfl⟩ := (hnames m).mp hm
      exact ⟨role, hrole, rfl⟩
    · rintro ⟨role, hrole, rfl⟩
      exact ⟨role.name, (hnames _).mpr ⟨role, hrole, rfl⟩, rfl⟩
  · exact get?_labelsFor_name
  · exact ⟨raw, _, hraw, rfl, get?_labelsFor_hash⟩
  · intro role hrole
    obtain ⟨last, hmem, hlast⟩ := GroupSpec.exists_lastRole? hrole
    have hlookup := Digest.lookup_hashRoles hhashes role.name
    rw [lastNamed_ordered, hlast, Option.map_some, Option.bind_some,
      valueHash_members (h.isJson trivial) hmem] at hlookup
    obtain ⟨hash, hhash⟩ := Digest.exists_valueHash_of_hashRoles hhashes _
      (List.mem_map_of_mem hmem)
    rw [valueHash_members (h.isJson trivial) hmem] at hhash
    obtain ⟨bytes, hbytes, rfl⟩ := map_eq_ok_iff.mp hhash
    refine ⟨last, bytes, hlast, hbytes, ?_⟩
    show Entries.get? _ (labelsFor g.metadata.name _ hashes) = _
    rw [get?_labelsFor_role, hlookup, hhash]
    rfl

/-- **Labels of roles are local.**  Two groups whose last roles with a name are the same JSON have
the same label for that name. -/
theorem HasLabels.get?_congr {g' : Group} {labels labels' : Entries} (h : HasLabels o g labels)
    (h' : HasLabels o g' labels') (hjson : (Patch.snapshot g).IsJson)
    (hjson' : (Patch.snapshot g').IsJson) {name : String} {role role' : Role}
    (hlast : g.spec.lastRole? name = some role) (hlast' : g'.spec.lastRole? name = some role')
    (hsame : Value.sameJson role.document role'.document = true) :
    Entries.get? (.text (roleHashLabel name)) labels =
      Entries.get? (.text (roleHashLabel name)) labels' := by
  obtain ⟨hmem, hname⟩ := GroupSpec.mem_of_lastRole? hlast
  obtain ⟨hmem', hname'⟩ := GroupSpec.mem_of_lastRole? hlast'
  obtain ⟨last, bytes, hl, hbytes, hlabel⟩ := h.roles role hmem
  obtain ⟨last', bytes', hl', hbytes', hlabel'⟩ := h'.roles role' hmem'
  rw [hname] at hl hlabel
  rw [hname'] at hl' hlabel'
  cases hl.symm.trans hlast
  cases hl'.symm.trans hlast'
  have hcanonical := Digest.canonical_congr (o := ⟨true, o.indent⟩) rfl
    (Digest.isJson_roleDocuments hjson _ (List.mem_map_of_mem hmem))
    (Digest.isJson_roleDocuments hjson' _ (List.mem_map_of_mem hmem')) hsame
  rw [hbytes, hbytes'] at hcanonical
  cases hcanonical
  rw [hlabel, hlabel']

theorem isNamed_iff {s : GroupSpec} : s.isNamed = true ↔ ∀ role ∈ s.roles, role.name ≠ "" := by
  simp [GroupSpec.isNamed]

/-- What becomes of building within the limits of the runtime. -/
theorem build_spec (h : g.spec.Fits room) (hroom : room + 10 ≤ Json.maxDepth) (o : HashOptions)
    (n : Int) :
    ((∃ cause, build o g n = .error (.malformed cause)) ↔ ∃ role ∈ g.spec.roles, role.name = "") ∧
    ((∀ role ∈ g.spec.roles, role.name ≠ "") →
      ∃ r, build o g n = if Decimal.isExchangeable n then .ok r else .error .unreadable) := by
  by_cases hnamed : g.spec.isNamed = true
  · obtain ⟨raw, r, -, -, -, hbuild⟩ := @exists_built _ _ o n h hroom hnamed
    refine ⟨?_, fun _ => ⟨r, hbuild⟩⟩
    constructor
    · rintro ⟨cause, hcause⟩
      rw [hbuild] at hcause
      by_cases hn : Decimal.isExchangeable n = true
      · rw [if_pos hn] at hcause
        cases hcause
      · rw [if_neg hn] at hcause
        cases hcause
    · rintro ⟨role, hrole, hname⟩
      exact absurd hname (isNamed_iff.mp hnamed role hrole)
  · refine ⟨?_, fun hnames => absurd (isNamed_iff.mpr hnames) hnamed⟩
    constructor
    · intro _
      rw [isNamed_iff] at hnamed
      push Not at hnamed
      exact hnamed
    · intro _
      exact ⟨_, build_of_unnamed h hroom hnamed⟩

/-- **Labels of roles are exact and local.**  Let a group be read from a document without doubles,
such that the keys of labels, annotations and resources are texts.  Within the limits of the
runtime, building reports a malformed snapshot exactly if some role has no name; otherwise there is
a revision for every number that has a numeral.  Whenever there is one, its labels are exactly those
meant, the selector for the revisions of the group picks it and the group may own it.  And the label
for a name is the same in every other such revision, of whatever group, if the last roles with that
name are the same JSON. -/
theorem build_labels {doc : Value} (hdoc : doc.isPlain = true) (hg : Group.ofDocument doc = .ok g)
    (hkeys : g.spec.hasTextKeys = true) (o : HashOptions) (n : Int) :
    (doc.WithinLimits Json.maxDepth →
      ((∃ cause, build o g n = .error (.malformed cause)) ↔
        ∃ role ∈ g.spec.roles, role.name = "") ∧
      ((∀ role ∈ g.spec.roles, role.name ≠ "") →
        ∃ r, build o g n = if Decimal.isExchangeable n then .ok r else .error .unreadable)) ∧
    ∀ r, build o g n = .ok r →
      HasLabels o g r.metadata.labels ∧
      g.revisionSelector.selects r.metadata.labels = true ∧ Store.mayOwn g.metadata r = true ∧
      ∀ doc' g' n' r', doc'.isPlain = true → Group.ofDocument doc' = .ok g' →
        g'.spec.hasTextKeys = true → build o g' n' = .ok r' →
        ∀ name role role', g.spec.lastRole? name = some role →
          g'.spec.lastRole? name = some role' →
          Value.sameJson role.document role'.document = true →
          Entries.get? (.text (roleHashLabel name)) r.metadata.labels =
            Entries.get? (.text (roleHashLabel name)) r'.metadata.labels := by
  have hsnapshot : ∀ {doc : Value} {g : Group}, doc.isPlain = true → Group.ofDocument doc = .ok g →
      g.spec.hasTextKeys = true → (Patch.snapshot g).Within .json (doc.depth + 10) := by
    intro doc g hdoc hg hkeys
    exact Patch.within_snapshot ((Value.Within.of_isPlain hdoc).mono (Nat.le_add_right _ 10)) hg
      fun _ => hkeys
  constructor
  · intro hlimits
    have hmax : Json.maxDepth = 980 + 10 := rfl
    rw [hmax] at hlimits
    have hspec := Group.fits_spec_of_ofDocument ⟨hdoc, hlimits⟩ hg hkeys
    exact build_spec hspec (Nat.le_of_eq hmax.symm) o n
  · intro r hbuild
    have hlabels := hasLabels_of_build (hsnapshot hdoc hg hkeys) hbuild
    have hbelongs := (IsCopyOf.refl r).belongs hbuild rfl rfl rfl
    rw [Store.belongs, Bool.and_eq_true, Bool.and_eq_true] at hbelongs
    obtain ⟨⟨-, hselects⟩, hown⟩ := hbelongs
    refine ⟨hlabels, hselects, hown, ?_⟩
    intro doc' g' n' r' hdoc' hg' hkeys' hbuild' name role role' hlast hlast' hsame
    exact hlabels.get?_congr (hasLabels_of_build (hsnapshot hdoc' hg' hkeys') hbuild')
      ((hsnapshot hdoc hg hkeys).isJson trivial) ((hsnapshot hdoc' hg' hkeys').isJson trivial)
      hlast hlast' hsame

def rolesDocument (name : String) (roles : List Value) : Value :=
  .object [field "metadata" (.object [field "name" (.text name)]),
    field "spec" (.object [field "roles" (.list roles)])]

def leaderDocument (first second : Key × Value) : Value :=
  .object [field "name" (.text "leader"),
    field "template" (.object [field "spec" (.object [field "containers" (.list [.object [
      field "name" (.text "main"), field "lifecycle" (.object [first, second])]])])])]

theorem build_labels_leader :
    ∃ g g' r r', Group.ofDocument (rolesDocument "web" [.object [field "name" (.text "leader")],
        leaderDocument (field "preStop" .null) (field "postStart" (.int 1)),
        .object [field "name" (.text "worker")]]) = .ok g ∧
      Group.ofDocument (rolesDocument "db"
        [leaderDocument (field "postStart" (.int 1)) (field "preStop" .null)]) = .ok g' ∧
      build .standard g 7 = .ok r ∧ build .standard g' 2 = .ok r' ∧
      HasLabels .standard g r.metadata.labels ∧
      Entries.get? (.text (roleHashLabel "leader")) r.metadata.labels =
        Entries.get? (.text (roleHashLabel "leader")) r'.metadata.labels := by
  have hread : ∃ g role, Group.ofDocument (rolesDocument "web"
        [.object [field "name" (.text "leader")],
          leaderDocument (field "preStop" .null) (field "postStart" (.int 1)),
          .object [field "name" (.text "worker")]]) = .ok g ∧
      g.spec.hasTextKeys = true ∧ g.spec.isNamed = true ∧
      g.spec.lastRole? "leader" = some role ∧ ∃ g' role', Group.ofDocument (rolesDocument "db"
        [leaderDocument (field "postStart" (.int 1)) (field "preStop" .null)]) = .ok g' ∧
      g'.spec.hasTextKeys = true ∧ g'.spec.isNamed = true ∧
      g'.spec.lastRole? "leader" = some role' ∧
      Value.sameJson role.document role'.document = true :=
    ⟨_, _, rfl, rfl, rfl, rfl, _, _, rfl, rfl, rfl, rfl, by decide +kernel⟩
  obtain ⟨g, role, hg, hkeys, hnamed, hlast, g', role', hg', hkeys', hnamed', hlast', hsame⟩ :=
    hread
  have hnumber : ∀ n ∈ [2, 7], Decimal.isExchangeable n = true := by decide +kernel
  obtain ⟨hlimits, hlabels⟩ := build_labels rfl hg hkeys .standard 7
  obtain ⟨hlimits', -⟩ := build_labels rfl hg' hkeys' .standard 2
  obtain ⟨r, hbuild⟩ := (hlimits (by decide +kernel)).2 (isNamed_iff.mp hnamed)
  obtain ⟨r', hbuild'⟩ :=
    (hlimits' (by decide +kernel)).2 (isNamed_iff.mp hnamed')
  rw [if_pos (hnumber 7 (by decide))] at hbuild
  rw [if_pos (hnumber 2 (by decide))] at hbuild'
  obtain ⟨hhas, -, -, hlocal⟩ := hlabels r hbuild
  exact ⟨g, g', r, r', hg, hg', hbuild, hbuild', hhas,
    hlocal _ g' 2 r' rfl hg' hkeys' hbuild' "leader" role role' hlast hlast' hsame⟩

end Revision

end RolloutLedger
