import Mathlib.Data.List.Nodup
import RolloutLedger.Digest
import RolloutLedger.Proofs.Outcomes
/-! # Digests of roles by name

Roles are digested one after the other, and each digest is put under the name of its role.  A name
that comes back keeps its place and gets the new digest.  So no name is there twice, and what is
found under a name is the digest of the last role with that name.
-/

namespace RolloutLedger.Digest

variable {o : HashOptions} {known hashes : List (String × String)} {roles : List Entries}

/-! ## Putting one digest -/

theorem lookup_cons_eq (p : String × String) (rest : List (String × String)) (m : String) :
    (p :: rest).lookup m = if p.1 = m then some p.2 else rest.lookup m := by
  obtain ⟨name, hash⟩ := p
  rw [List.lookup_cons]
  by_cases h : name = m
  · simp [h]
  · rw [beq_eq_false_iff_ne.mpr (Ne.symm h), if_neg h]

theorem lookup_putHash (name hash m : String) (known : List (String × String)) :
    (putHash name hash known).lookup m = if name = m then some hash else known.lookup m := by
  induction known with
  | nil => rw [putHash, lookup_cons_eq]
  | cons p rest ih =>
    rw [putHash]
    by_cases hn : p.1 = name
    · rw [if_pos hn, lookup_cons_eq, lookup_cons_eq, hn]
      by_cases hm : name = m
      · rw [if_pos hm, if_pos hm]
      · rw [if_neg hm, if_neg hm, if_neg hm]
    · rw [if_neg hn, lookup_cons_eq, lookup_cons_eq, ih]
      by_cases hp : p.1 = m
      · rw [if_pos hp, if_pos hp, if_neg fun hm => hn (hp.trans hm.symm)]
      · rw [if_neg hp, if_neg hp]

/-- A name that is there keeps its place, another one goes to the end. -/
theorem map_fst_putHash (name hash : String) (known : List (String × String)) :
    (putHash name hash known).map (·.1) =
      if name ∈ known.map (·.1) then known.map (·.1) else known.map (·.1) ++ [name] := by
  induction known with
  | nil => rfl
  | cons p rest ih =>
    obtain ⟨n, old⟩ := p
    by_cases hn : n = name
    · simp [putHash, hn]
    · rw [putHash, if_neg hn, List.map_cons, ih]
      by_cases hrest : name ∈ rest.map (·.1)
      · simp [hrest]
      · simp [hrest, Ne.symm hn]

theorem mem_names_putHash {name hash m : String} :
    m ∈ (putHash name hash known).map (·.1) ↔ m ∈ known.map (·.1) ∨ name = m := by
  rw [map_fst_putHash]
  by_cases h : name ∈ known.map (·.1)
  · rw [if_pos h]
    constructor
    · exact Or.inl
    · rintro (hm | rfl)
      · exact hm
      · exact h
  · rw [if_neg h, List.mem_append, List.mem_singleton, eq_comm (a := name)]

theorem nodup_putHash {name hash : String} (h : (known.map (·.1)).Nodup) :
    ((putHash name hash known).map (·.1)).Nodup := by
  rw [map_fst_putHash]
  by_cases hname : name ∈ known.map (·.1)
  · rw [if_pos hname]
    exact h
  · rw [if_neg hname, ← List.concat_eq_append]
    exact h.concat hname

/-! ## Digesting one role after the other -/

def nameOf (role : Entries) : String := (Patch.Snapshot.roleName? role).getD ""

def lastNamed (name : String) (roles : List Entries) : Option Entries :=
  roles.reverse.find? fun role => nameOf role == name

theorem lastNamed_cons (name : String) (role : Entries) (rest : List Entries) :
    lastNamed name (role :: rest) =
      (lastNamed name rest).or (if nameOf role = name then some role else none) := by
  rw [lastNamed, List.reverse_cons, List.find?_append]
  by_cases h : nameOf role = name
  · simp [lastNamed, h]
  · simp [lastNamed, h]

theorem mem_of_lastNamed {name : String} {role : Entries} (h : lastNamed name roles = some role) :
    role ∈ roles := List.mem_reverse.mp (List.mem_of_find?_eq_some h)

theorem hashRoles_cons_eq_ok_iff {role : Entries} {rest : List Entries} :
    hashRoles o known (role :: rest) = .ok hashes ↔
      ∃ hash, valueHash o (.object role) = .ok hash ∧
        hashRoles o (putHash (nameOf role) hash known) rest = .ok hashes := bind_eq_ok_iff

theorem exists_valueHash_of_hashRoles (h : hashRoles o known roles = .ok hashes) :
    ∀ role ∈ roles, ∃ hash, valueHash o (.object role) = .ok hash := by
  induction roles generalizing known with
  | nil =>
    intro role hrole
    exact absurd hrole List.not_mem_nil
  | cons first rest ih =>
    obtain ⟨hash, hhash, hrest⟩ := hashRoles_cons_eq_ok_iff.mp h
    intro role hrole
    rcases List.mem_cons.mp hrole with rfl | hrole
    · exact ⟨hash, hhash⟩
    · exact ih hrest role hrole

theorem nodup_hashRoles (h : hashRoles o known roles = .ok hashes)
    (hknown : (known.map (·.1)).Nodup) : (hashes.map (·.1)).Nodup := by
  induction roles generalizing known with
  | nil =>
    cases h
    exact hknown
  | cons role rest ih =>
    obtain ⟨hash, -, hrest⟩ := hashRoles_cons_eq_ok_iff.mp h
    exact ih hrest (nodup_putHash hknown)

theorem mem_names_hashRoles (h : hashRoles o known roles = .ok hashes) {m : String} :
    m ∈ hashes.map (·.1) ↔ m ∈ known.map (·.1) ∨ ∃ role ∈ roles, nameOf role = m := by
  induction roles generalizing known with
  | nil =>
    cases h
    simp
  | cons role rest ih =>
    obtain ⟨hash, -, hrest⟩ := hashRoles_cons_eq_ok_iff.mp h
    rw [ih hrest, mem_names_putHash, List.exists_mem_cons_iff, or_assoc]

/-- **The last role with a name counts.** -/
theorem lookup_hashRoles (h : hashRoles o known roles = .ok hashes) (m : String) :
    hashes.lookup m = ((lastNamed m roles).bind fun role =>
      (valueHash o (.object role)).toOption).or (known.lookup m) := by
  induction roles generalizing known with
  | nil =>
    cases h
    rfl
  | cons role rest ih =>
    obtain ⟨hash, hhash, hrest⟩ := hashRoles_cons_eq_ok_iff.mp h
    rw [ih hrest, lookup_putHash, lastNamed_cons]
    cases hlast : lastNamed m rest with
    | some last =>
      -- a later role of that name has a digest, so nothing that was put before matters
      obtain ⟨late, hlate⟩ := exists_valueHash_of_hashRoles hrest last (mem_of_lastNamed hlast)
      simp [hlate, Except.toOption]
    | none =>
      by_cases hname : nameOf role = m
      · simp [hname, hhash, Except.toOption]
      · simp [hname]

end RolloutLedger.Digest
