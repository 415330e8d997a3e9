import RolloutLedger.Proofs.Digest.Roles
import RolloutLedger.Proofs.Patch.Stored
/-! # The format of stored snapshots

A document is read as a snapshot exactly if it has the format of one, and what was read tells the
parts of the document it was read from: the roles in their order, the policy, the directive.
Everything else is refused as malformed, save what exceeds the limits of the reader: an integer
with too many digits, or nesting that is too deep.

The digests of the roles can be taken of every stored snapshot that is read, and of no other data.
-/

namespace RolloutLedger

open Entries (field)

namespace Patch

/-! ## Parts of a snapshot -/

/-- Whether a role document gives a name: a text that is not empty. -/
def HasName (role : Entries) : Prop :=
  ∃ name, Entries.get? (.text "name") role = some (.text name) ∧ name ≠ ""

theorem roleName?_eq_some_iff {role : Entries} {name : String} :
    Snapshot.roleName? role = some name ↔
      Entries.get? (.text "name") role = some (.text name) ∧ name ≠ "" := by
  unfold Snapshot.roleName?
  split
  · rename_i s hs
    rw [hs, Option.some.injEq, Value.text.injEq]
    by_cases hempty : s = ""
    · rw [if_pos hempty]
      constructor
      · intro h
        cases h
      · rintro ⟨rfl, hname⟩
        exact absurd hempty hname
    · rw [if_neg hempty, Option.some.injEq]
      constructor
      · rintro rfl
        exact ⟨rfl, hempty⟩
      · exact And.left
  · rename_i hother
    constructor
    · intro h
      cases h
    · rintro ⟨hname, -⟩
      exact absurd hname (hother name)

theorem roleOf_eq_ok_iff (v : Value) (role : Entries) :
    Snapshot.roleOf v = .ok role ↔ v = .object role ∧ HasName role := by
  have hname : ∀ es, (Snapshot.roleName? es).isSome = true ↔ HasName es := by
    intro es
    rw [Option.isSome_iff_exists]
    exact exists_congr fun name => roleName?_eq_some_iff
  cases v with
  | object es =>
    rw [Snapshot.roleOf, Value.object.injEq]
    by_cases h : (Snapshot.roleName? es).isSome = true
    · rw [if_pos h, Except.ok.injEq]
      constructor
      · rintro rfl
        exact ⟨rfl, (hname es).mp h⟩
      · exact And.left
    · rw [if_neg h]
      constructor
      · intro herror
        cases herror
      · rintro ⟨rfl, hes⟩
        exact absurd ((hname es).mpr hes) h
  | _ =>
    refine iff_of_false ?_ ?_
    · intro h
      cases h
    · rintro ⟨h, -⟩
      cases h

theorem policyOf_eq_ok_iff {v : Value} {policy : Option Entries} :
    Snapshot.policyOf v = .ok policy ↔ v = (policy.map Value.object).getD .null := by
  cases policy with
  | none => cases v <;> simp [Snapshot.policyOf]
  | some es => cases v <;> simp [Snapshot.policyOf]

theorem Directive.ofText?_eq_some_iff {s : String} {d : Directive} :
    ofText? s = some d ↔ s = d.text := by
  constructor
  · intro h
    unfold ofText? at h
    split at h <;> cases h <;> rfl
  · rintro rfl
    cases d <;> rfl

theorem Directive.ofValue_eq_ok_iff {v : Value} {directive : Option Directive} :
    ofValue v = .ok directive ↔
      v = (directive.map fun d => Value.text d.text).getD .null := by
  cases v with
  | null => cases directive <;> simp [ofValue]
  | text s =>
    rw [ofValue]
    cases hs : ofText? s with
    | none =>
      cases directive with
      | none => simp
      | some d => simp [← ofText?_eq_some_iff, hs]
    | some e =>
      cases directive with
      | none => simp
      | some d => simp [← ofText?_eq_some_iff, hs]
  | _ => cases directive <;> simp [ofValue]

/-! ## Reading a document -/

namespace Snapshot

/-- What a snapshot tells of the members of the declaration that it was read from. -/
structure IsReadFrom (s : Snapshot) (spec : Entries) : Prop where
  roles : Entries.get? (.text "roles") spec = some (.list (s.roles.map Value.object))
  named : ∀ role ∈ s.roles, HasName role
  policy : (Entries.get? (.text "podGroupPolicy") spec).getD .null =
    (s.policy.map Value.object).getD .null
  directive : (Entries.get? directiveKey spec).getD .null =
    (s.directive.map fun d => Value.text d.text).getD .null

/-- **What a document is read as.** -/
theorem ofDocument_eq_ok_iff {doc : Value} {s : Snapshot} :
    ofDocument doc = .ok s ↔ ∃ es spec, doc = .object es ∧
      Entries.get? (.text "spec") es = some (.object spec) ∧ s.IsReadFrom spec := by
  constructor
  · intro h
    unfold ofDocument at h
    split at h
    swap
    · exact nomatch h
    split at h
    swap
    · exact nomatch h
    split at h
    swap
    · exact nomatch h
    rename_i es _ spec hspec _ items hitems
    obtain ⟨roles, hroles, h⟩ := bind_eq_ok_iff.mp h
    obtain ⟨policy, hpolicy, h⟩ := bind_eq_ok_iff.mp h
    obtain ⟨directive, hdirective, h⟩ := bind_eq_ok_iff.mp h
    cases h
    obtain ⟨rfl, hnamed⟩ := (mapM_eq_ok_iff_map roleOf_eq_ok_iff).mp hroles
    exact ⟨es, spec, rfl, hspec, hitems, hnamed, policyOf_eq_ok_iff.mp hpolicy,
      Directive.ofValue_eq_ok_iff.mp (mapError_eq_ok_iff.mp hdirective)⟩
  · rintro ⟨es, spec, rfl, hspec, h⟩
    have hroles := (mapM_eq_ok_iff_map roleOf_eq_ok_iff).mpr ⟨Eq.refl (s.roles.map Value.object),
      h.named⟩
    have hdirective : (Directive.ofEntries spec).mapError MalformedPatch.unknownDirective =
        .ok s.directive :=
      mapError_eq_ok_iff.mpr (Directive.ofValue_eq_ok_iff.mpr h.directive)
    unfold ofDocument
    simp only [hspec, h.roles, hroles, policyOf_eq_ok_iff.mpr h.policy, hdirective, ok_bind]
    rfl

theorem within_roles_of_ofDocument {t : Terms} {room : Nat} {doc : Value} {s : Snapshot}
    (h : doc.Within t room) (hs : ofDocument doc = .ok s) :
    ∀ role ∈ s.roles, (Value.object role).Within t room := by
  obtain ⟨es, spec, rfl, hspec, hread⟩ := ofDocument_eq_ok_iff.mp hs
  intro role hrole
  cases h with
  | scalar h => cases h
  | object _ hmembers =>
    have hspec := hmembers _ (Entries.mem_of_get? hspec)
    cases hspec with
    | scalar h => cases h
    | object _ hmembers =>
      have hroles := hmembers _ (Entries.mem_of_get? hread.roles)
      cases hroles with
      | scalar h => cases h
      | list hitems => exact (hitems _ (List.mem_map_of_mem hrole)).mono (by omega)

/-! ## Stored bytes -/

structure HasFormat (spec : Entries) : Prop where
  /-- The roles are a list of objects, each of which gives its name. -/
  roles : ∃ roles : List Entries,
    Entries.get? (.text "roles") spec = some (.list (roles.map Value.object)) ∧
      ∀ role ∈ roles, HasName role
  /-- The policy may be absent. -/
  policy : ∀ v, Entries.get? (.text "podGroupPolicy") spec = some v →
    v = .null ∨ ∃ es, v = .object es
  /-- The directive may be absent. -/
  directive : ∀ v, Entries.get? (.text "$patch") spec = some v →
    v = .null ∨ v = .text "merge" ∨ v = .text "replace" ∨ v = .text "delete"

theorem IsReadFrom.hasFormat {s : Snapshot} {spec : Entries} (h : s.IsReadFrom spec) :
    HasFormat spec where
  roles := ⟨s.roles, h.roles, h.named⟩
  policy v hv := by
    have hpolicy := h.policy
    rw [hv, Option.getD_some] at hpolicy
    rw [hpolicy]
    cases s.policy with
    | none => exact Or.inl rfl
    | some es => exact Or.inr ⟨es, rfl⟩
  directive v hv := by
    have hdirective := h.directive
    rw [directiveKey, hv, Option.getD_some] at hdirective
    rw [hdirective]
    cases s.directive with
    | none => exact Or.inl rfl
    | some d => cases d <;> simp [Directive.text]

theorem HasFormat.exists_isReadFrom {spec : Entries} (h : HasFormat spec) :
    ∃ s : Snapshot, s.IsReadFrom spec := by
  obtain ⟨roles, hroles, hnamed⟩ := h.roles
  have hpolicy : ∃ policy : Option Entries,
      (Entries.get? (.text "podGroupPolicy") spec).getD .null =
        (policy.map Value.object).getD .null := by
    cases hget : Entries.get? (.text "podGroupPolicy") spec with
    | none => exact ⟨none, rfl⟩
    | some v =>
      rcases h.policy v hget with rfl | ⟨es, rfl⟩
      · exact ⟨none, rfl⟩
      · exact ⟨some es, rfl⟩
  have hdirective : ∃ directive : Option Directive, (Entries.get? directiveKey spec).getD .null =
      (directive.map fun d => Value.text d.text).getD .null := by
    cases hget : Entries.get? directiveKey spec with
    | none => exact ⟨none, rfl⟩
    | some v =>
      rcases h.directive v hget with rfl | rfl | rfl | rfl
      · exact ⟨none, rfl⟩
      · exact ⟨some .merge, rfl⟩
      · exact ⟨some .replace, rfl⟩
      · exact ⟨some .delete, rfl⟩
  obtain ⟨policy, hpolicy⟩ := hpolicy
  obtain ⟨directive, hdirective⟩ := hdirective
  exact ⟨⟨roles, policy, directive⟩, hroles, hnamed, hpolicy, hdirective⟩

/-- Whether stored bytes are those of an object with a declaration in the format of a snapshot. -/
def Accepts (raw : Bytes) : Prop :=
  ∃ es spec, Json.decode raw = .ok (.object es) ∧
    Entries.get? (.text "spec") es = some (.object spec) ∧ HasFormat spec

/-- Whether stored bytes exceed the limits of the runtime: they hold an integer with too many
digits, or are nested too deeply. -/
def ExceedsLimits (raw : Bytes) : Prop :=
  Json.decode raw = .error .unreadable ∨ Json.decode raw = .error .tooDeep

theorem decode_eq_ok_iff {raw : Bytes} {s : Snapshot} :
    decode raw = .ok s ↔ ∃ doc, Json.decode raw = .ok doc ∧ ofDocument doc = .ok s := by
  unfold decode
  simp only [bind_eq_ok_iff, mapError_eq_ok_iff]

/-- Stored bytes are read exactly if they have the format. -/
theorem exists_decode_iff (raw : Bytes) : (∃ s, decode raw = .ok s) ↔ Accepts raw := by
  constructor
  · rintro ⟨s, hs⟩
    obtain ⟨doc, hdoc, hs⟩ := decode_eq_ok_iff.mp hs
    obtain ⟨es, spec, rfl, hspec, hread⟩ := ofDocument_eq_ok_iff.mp hs
    exact ⟨es, spec, hdoc, hspec, hread.hasFormat⟩
  · rintro ⟨es, spec, hdoc, hspec, hformat⟩
    obtain ⟨s, hread⟩ := hformat.exists_isReadFrom
    exact ⟨s, decode_eq_ok_iff.mpr
      ⟨_, hdoc, ofDocument_eq_ok_iff.mpr ⟨es, spec, rfl, hspec, hread⟩⟩⟩

/-- Bytes that are not read are malformed, unless the reader has met its limits. -/
theorem malformed_of_not_accepts {raw : Bytes} (h : ¬ Accepts raw) (hlimits : ¬ ExceedsLimits raw) :
    ∃ cause, decode raw = .error (.malformed cause) := by
  unfold decode
  cases hdoc : Json.decode raw with
  | error e =>
    cases (Json.meets_decode raw).of_error hdoc with
    | undecodable => exact ⟨.undecodable, rfl⟩
    | unreadable => exact absurd (Or.inl hdoc) hlimits
    | tooDeep => exact absurd (Or.inr hdoc) hlimits
  | ok doc =>
    show ∃ cause, (ofDocument doc).mapError Error.malformed = .error (.malformed cause)
    cases hs : ofDocument doc with
    | error cause => exact ⟨cause, rfl⟩
    | ok s => exact absurd ((exists_decode_iff raw).mp ⟨s, decode_eq_ok_iff.mpr ⟨doc, hdoc, hs⟩⟩) h

end Snapshot

end Patch

/-! ## Digests of roles -/

namespace Digest

open Patch (HasName)
open Patch.Snapshot (decode)

variable {o : HashOptions} {raw : Bytes} {s : Patch.Snapshot}

theorem roleHashes_eq (hraw : raw ≠ []) :
    roleHashes o raw = decode raw >>= fun s => hashRoles o [] s.roles := by
  rw [roleHashes, if_neg (mt List.isEmpty_iff.mp hraw)]

/-- The digests of the roles of a snapshot that was read can be taken. -/
theorem exists_roleHashes_of_decode (o : HashOptions) (hraw : raw ≠ []) (hs : decode raw = .ok s) :
    ∃ hashes, roleHashes o raw = .ok hashes := by
  obtain ⟨doc, hdoc, hread⟩ := Patch.Snapshot.decode_eq_ok_iff.mp hs
  have hroles := Patch.Snapshot.within_roles_of_ofDocument (Json.within_of_decode hdoc) hread
  rw [roleHashes_eq hraw, hs]
  exact exists_hashRoles hroles []

theorem nameOf_eq_iff {role : Entries} (h : HasName role) (name : String) :
    nameOf role = name ↔ Entries.get? (.text "name") role = some (.text name) := by
  obtain ⟨given, hgiven⟩ := h
  rw [nameOf, Patch.roleName?_eq_some_iff.mpr hgiven, hgiven.1, Option.getD_some,
    Option.some.injEq, Value.text.injEq]

theorem names_of_roleHashes {hashes : List (String × String)} (hraw : raw ≠ [])
    (hs : decode raw = .ok s) (h : roleHashes o raw = .ok hashes) :
    (hashes.map (·.1)).Nodup ∧ ∀ name, name ∈ hashes.map (·.1) ↔
      ∃ role ∈ s.roles, Entries.get? (.text "name") role = some (.text name) := by
  obtain ⟨doc, -, hread⟩ := Patch.Snapshot.decode_eq_ok_iff.mp hs
  obtain ⟨es, spec, -, -, hread⟩ := Patch.Snapshot.ofDocument_eq_ok_iff.mp hread
  rw [roleHashes_eq hraw, hs, ok_bind] at h
  refine ⟨nodup_hashRoles h List.nodup_nil, fun name => ?_⟩
  rw [mem_names_hashRoles h, List.map_nil, or_iff_right List.not_mem_nil]
  exact exists_congr fun role => and_congr_right fun hrole =>
    nameOf_eq_iff (hread.named role hrole) name

end Digest

/-! ## The format -/

namespace Patch

/-- The stored snapshot of a group whose roles have names is read as its roles and its policy. -/
theorem exists_decode_snapshot {g : Group} {room : Nat} (h : g.spec.Fits room)
    (hroom : room + 10 ≤ Json.maxDepth) (hnamed : ∀ role ∈ g.spec.roles, role.name ≠ "") :
    ∃ raw s, encodeSnapshot g = .ok raw ∧ Snapshot.decode raw = .ok s ∧
      s.directive = some .replace ∧
      Value.sameJson (.list (s.roles.map Value.object)) (.list g.spec.roleDocuments) = true ∧
      Value.sameJson ((s.policy.map Value.object).getD .null)
        (GangPolicy.documentOrNull g.spec.policy) = true := by
  have hisNamed : g.spec.isNamed = true := by
    simpa [GroupSpec.isNamed] using hnamed
  obtain ⟨raw, hraw, hdecode⟩ := Json.decode_encode ((fits_snapshot h).mono hroom)
  have hs := decode_snapshot hdecode
  rw [if_pos hisNamed] at hs
  refine ⟨raw, _, hraw, hs, rfl, ?_, ?_⟩
  · have hroles : (g.spec.roles.map fun r => Entries.ordered r.members).map Value.object =
        g.spec.roleDocuments.map Value.ordered := by
      rw [GroupSpec.roleDocuments, List.map_map, List.map_map]
      refine List.map_congr_left fun role _ => ?_
      rw [Function.comp, Function.comp, Role.document_eq, Value.ordered_object_eq]
    rw [hroles, ← Value.ordered_list]
    exact Value.sameJson_ordered (GroupSpec.fits_roleDocuments h).plain
  · have hpolicy : ((orderedPolicy g.spec).map Value.object).getD .null =
        (GangPolicy.documentOrNull g.spec.policy).ordered := by
      rw [orderedPolicy]
      cases g.spec.policy with
      | none => rfl
      | some p => rw [GangPolicy.documentOrNull, p.document_eq, Value.ordered_object_eq]; rfl
    rw [hpolicy]
    exact Value.sameJson_ordered (GroupSpec.fits_documentOrNull h).plain

/-- **Stored snapshots have one format.**  Bytes are read as a snapshot exactly if they have the
format, and all others are malformed, within the limits of the runtime.  What is stored for a group
that was read from a document without doubles, such that the keys of labels, annotations and
resources are texts and every role has a name, is read with the directive to replace, the roles in
their order and the policy, if there is one.  And the digests of the roles can be taken of bytes,
where there are any, exactly if they have the format; they are kept under the names of the roles,
each name once. -/
theorem decode_accepts :
    (∀ raw, ((∃ s, Snapshot.decode raw = .ok s) ↔ Snapshot.Accepts raw) ∧
      (¬ Snapshot.Accepts raw → ¬ Snapshot.ExceedsLimits raw →
        ∃ cause, Snapshot.decode raw = .error (.malformed cause))) ∧
    (∀ doc g, doc.isPlain = true → Group.ofDocument doc = .ok g → g.spec.hasTextKeys = true →
      (∀ role ∈ g.spec.roles, role.name ≠ "") → doc.WithinLimits Json.maxDepth →
      ∃ raw s, encodeSnapshot g = .ok raw ∧
        Snapshot.decode raw = .ok s ∧ s.directive = some .replace ∧
        Value.sameJson (.list (s.roles.map Value.object)) (.list g.spec.roleDocuments) = true ∧
        Value.sameJson ((s.policy.map Value.object).getD .null)
          (GangPolicy.documentOrNull g.spec.policy) = true) ∧
    ∀ o raw, raw ≠ [] →
      ((∃ hashes, Digest.roleHashes o raw = .ok hashes) ↔ Snapshot.Accepts raw) ∧
      (¬ Snapshot.Accepts raw → ¬ Snapshot.ExceedsLimits raw →
        ∃ cause, Digest.roleHashes o raw = .error (.malformed cause)) ∧
      ∀ s hashes, Snapshot.decode raw = .ok s → Digest.roleHashes o raw = .ok hashes →
        (hashes.map (·.1)).Nodup ∧ ∀ name, name ∈ hashes.map (·.1) ↔
          ∃ role ∈ s.roles, Entries.get? (.text "name") role = some (.text name) := by
  refine ⟨?_, ?_, ?_⟩
  · intro raw
    exact ⟨Snapshot.exists_decode_iff raw, Snapshot.malformed_of_not_accepts⟩
  · intro doc g hdoc hg hkeys hnamed hlimits
    have hmax : Json.maxDepth = 980 + 10 := rfl
    rw [hmax] at hlimits
    have hspec := Group.fits_spec_of_ofDocument ⟨hdoc, hlimits⟩ hg hkeys
    exact exists_decode_snapshot hspec (Nat.le_of_eq hmax.symm) hnamed
  · intro o raw hraw
    refine ⟨?_, ?_, ?_⟩
    · rw [← Snapshot.exists_decode_iff]
      constructor
      · rintro ⟨hashes, hhashes⟩
        rw [Digest.roleHashes_eq hraw] at hhashes
        obtain ⟨s, hs, -⟩ := bind_eq_ok_iff.mp hhashes
        exact ⟨s, hs⟩
      · rintro ⟨s, hs⟩
        exact Digest.exists_roleHashes_of_decode o hraw hs
    · intro hrefused hlimits
      obtain ⟨cause, hcause⟩ := Snapshot.malformed_of_not_accepts hrefused hlimits
      rw [Digest.roleHashes_eq hraw, hcause]
      exact ⟨cause, rfl⟩
    · intro s hashes hs hhashes
      exact Digest.names_of_roleHashes hraw hs hhashes

def bytesOfNamed : Bytes := Utf8.encode
  ("\x7b\"spec\":\x7b\"$patch\":\"merge\",\"roles\":[" ++
    "\x7b\"name\":\"a\"\x7d,\x7b\"name\":\"a\"\x7d]\x7d\x7d").toList

def bytesOfUnnamed : Bytes := Utf8.encode
  "\x7b\"spec\":\x7b\"roles\":[\x7b\"name\":\"\"\x7d]\x7d\x7d".toList

theorem decode_accepts_named :
    Snapshot.Accepts bytesOfNamed ∧ ¬ Snapshot.Accepts bytesOfUnnamed ∧
      (∃ cause, Snapshot.decode bytesOfUnnamed = .error (.malformed cause)) ∧
      (∃ hashes, Digest.roleHashes .standard bytesOfNamed = .ok hashes ∧
        (hashes.map (·.1)).Nodup ∧ "a" ∈ hashes.map (·.1)) ∧
      ∃ g raw s, Group.ofDocument (.object [field "spec" (.object [
          field "roles" (.list [.object [field "name" (.text "b")]])])]) = .ok g ∧
        encodeSnapshot g = .ok raw ∧ Snapshot.decode raw = .ok s ∧
        s.directive = some .replace ∧ s.policy = none := by
  obtain ⟨hbytes, hgroup, hhashes⟩ := decode_accepts
  have hnamesRead : (Snapshot.decode bytesOfNamed).toOption.map
      (fun s => s.roles.map Snapshot.roleName?) = some [some "a", some "a"] := by decide +kernel
  have hread : ∃ s, Snapshot.decode bytesOfNamed = .ok s ∧
      ∃ role ∈ s.roles, Entries.get? (.text "name") role = some (.text "a") := by
    cases hs : Snapshot.decode bytesOfNamed with
    | error e =>
      rw [hs] at hnamesRead
      cases hnamesRead
    | ok s =>
      rw [hs] at hnamesRead
      have hroles : s.roles.map Snapshot.roleName? = [some "a", some "a"] :=
        Option.some.inj hnamesRead
      have hmem : some "a" ∈ s.roles.map Snapshot.roleName? := by
        rw [hroles]
        exact List.mem_cons_self
      obtain ⟨role, hrole, hname⟩ := List.mem_map.mp hmem
      exact ⟨s, rfl, role, hrole, (roleName?_eq_some_iff.mp hname).1⟩
  obtain ⟨s, hs, hrole⟩ := hread
  have haccepts := (hbytes bytesOfNamed).1.mp ⟨s, hs⟩
  have hrefuses : ¬ Snapshot.Accepts bytesOfUnnamed := by
    have hfails : (Snapshot.decode bytesOfUnnamed).isOk = false := by decide +kernel
    intro h
    obtain ⟨s, hs⟩ := (hbytes bytesOfUnnamed).1.mpr h
    rw [hs] at hfails
    cases hfails
  have hlimits : ¬ Snapshot.ExceedsLimits bytesOfUnnamed := by
    have hjson : (Json.decode bytesOfUnnamed).isOk = true := by decide +kernel
    rintro (h | h)
    · rw [h] at hjson
      cases hjson
    · rw [h] at hjson
      cases hjson
  obtain ⟨haccepted, -, hnames⟩ := hhashes .standard bytesOfNamed (by decide)
  obtain ⟨hashes, hdigests⟩ := haccepted.mpr haccepts
  obtain ⟨hnodup, hmem⟩ := hnames s hashes hs hdigests
  have hgiven : ∃ g, Group.ofDocument (.object [field "spec" (.object [
      field "roles" (.list [.object [field "name" (.text "b")]])])]) = .ok g ∧
      g.spec.hasTextKeys = true ∧ g.spec.policy = none ∧ ∀ role ∈ g.spec.roles, role.name ≠ "" :=
    ⟨_, rfl, rfl, rfl, by simp⟩
  obtain ⟨g, hg, hkeys, hnone, hnamed⟩ := hgiven
  obtain ⟨raw, t, hraw, ht, hreplace, -, hpolicy⟩ :=
    hgroup _ g rfl hg hkeys hnamed (by decide +kernel)
  refine ⟨haccepts, hrefuses, (hbytes bytesOfUnnamed).2 hrefuses hlimits,
    ⟨hashes, hdigests, hnodup, (hmem "a").mpr hrole⟩, g, raw, t, hg, hraw, ht, hreplace, ?_⟩
  rw [hnone] at hpolicy
  cases hp : t.policy with
  | none => rfl
  | some es => rw [hp] at hpolicy; exact Bool.noConfusion hpolicy

end Patch

end RolloutLedger
