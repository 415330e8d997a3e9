import RolloutLedger.Proofs.Document.Recasting
/-! # Values without their directives

Stripping takes the directives out of a value at every depth and changes nothing else: what is left
fits what the value fitted, every other name looks up to the stripped value, and lists keep their
length.  So ordering a value and stripping it is a recasting.  It gives the value back exactly if
the value carried no directive.
-/

namespace RolloutLedger

open Entries (keysApart mapValues)

namespace Patch

variable {room : Nat} {v : Value} {es : Entries} {n : String}

/-! ## Data without directives -/

mutual

/-- Whether no object inside a value carries a directive. -/
def isDirectiveFree : Value → Bool
  | .object es => areDirectiveFreeMembers es
  | .list items => areDirectiveFreeItems items
  | _ => true
termination_by structural v => v

def areDirectiveFreeItems : List Value → Bool
  | [] => true
  | v :: rest => isDirectiveFree v && areDirectiveFreeItems rest
termination_by structural vs => vs

def areDirectiveFreeMembers : List (Key × Value) → Bool
  | [] => true
  | (k, v) :: rest => !k.same directiveKey && isDirectiveFree v && areDirectiveFreeMembers rest
termination_by structural es => es

end

theorem same_directiveKey_iff {k : Key} : k.same directiveKey = true ↔ k = directiveKey := by
  cases k with
  | text s => rw [directiveKey, Key.same_text, beq_iff_eq, Key.text.injEq]
  | _ => exact ⟨Bool.noConfusion, Key.noConfusion⟩

@[simp] theorem isDirectiveFree_list_iff {items : List Value} :
    isDirectiveFree (.list items) = true ↔ ∀ v ∈ items, isDirectiveFree v = true := by
  rw [isDirectiveFree]
  induction items with
  | nil => simp [areDirectiveFreeItems]
  | cons v rest ih => simp [areDirectiveFreeItems, ih]

theorem isDirectiveFree_object_iff {es : Entries} :
    isDirectiveFree (.object es) = true ↔
      ∀ p ∈ es, p.1 ≠ directiveKey ∧ isDirectiveFree p.2 = true := by
  rw [isDirectiveFree]
  induction es with
  | nil => simp [areDirectiveFreeMembers]
  | cons p rest ih =>
    obtain ⟨k, v⟩ := p
    rw [areDirectiveFreeMembers, Bool.and_eq_true, Bool.and_eq_true, Bool.not_eq_true',
      ← Bool.not_eq_true, same_directiveKey_iff, ih]
    simp

theorem isDirectiveFree_ordered_iff (h : v.isPlain = true) :
    isDirectiveFree v.ordered = true ↔ isDirectiveFree v = true := by
  induction v, h using Value.isPlain_induction with
  | null | bool _ | int _ | text _ => rfl
  | list items _ ih =>
    rw [Value.ordered_list, isDirectiveFree_list_iff, isDirectiveFree_list_iff, List.forall_mem_map]
    exact forall₂_congr ih
  | object es _ ih =>
    rw [Value.ordered_object, isDirectiveFree_object_iff, isDirectiveFree_object_iff, mapValues,
      List.forall_mem_map]
    simp only [(Entries.sorted_perm es).mem_iff]
    exact forall₂_congr fun p hp => and_congr_right fun _ => ih p hp

/-! ## What stripping leaves -/

theorem stripItems_eq_map (items : List Value) : stripItems items = items.map strip := by
  induction items with
  | nil => rfl
  | cons v rest ih => rw [stripItems, ih, List.map_cons]

@[simp] theorem strip_list (items : List Value) :
    strip (.list items) = .list (items.map strip) := by
  rw [strip, stripItems_eq_map]

@[simp] theorem strip_object (es : Entries) : strip (.object es) = .object (stripMembers es) := by
  rw [strip]

theorem stripMembers_eq (es : Entries) :
    stripMembers es = mapValues strip (es.filter fun p => !p.1.same directiveKey) := by
  induction es with
  | nil => rfl
  | cons p rest ih =>
    obtain ⟨k, v⟩ := p
    rw [stripMembers, List.filter_cons, ih]
    cases k.same directiveKey <;> rfl

theorem mem_stripMembers_iff {q : Key × Value} :
    q ∈ stripMembers es ↔ ∃ p ∈ es, p.1 ≠ directiveKey ∧ (p.1, strip p.2) = q := by
  rw [stripMembers_eq, Entries.mem_mapValues]
  constructor
  · rintro ⟨p, hp, hq⟩
    obtain ⟨hp, hkey⟩ := List.mem_filter.mp hp
    rw [Bool.not_eq_true', ← Bool.not_eq_true, same_directiveKey_iff] at hkey
    exact ⟨p, hp, hkey, hq⟩
  · rintro ⟨p, hp, hkey, hq⟩
    refine ⟨p, List.mem_filter.mpr ⟨hp, ?_⟩, hq⟩
    rw [Bool.not_eq_true', ← Bool.not_eq_true, same_directiveKey_iff]
    exact hkey

theorem keysApart_stripMembers (h : keysApart es = true) : keysApart (stripMembers es) = true := by
  rw [stripMembers_eq, Entries.keysApart_mapValues]
  exact Entries.keysApart_of_sublist h List.filter_sublist

theorem get?_stripMembers (hn : Key.text n ≠ directiveKey) (es : Entries) :
    Entries.get? (.text n) (stripMembers es) = (Entries.get? (.text n) es).map strip := by
  induction es with
  | nil => rfl
  | cons p rest ih =>
    obtain ⟨k, v⟩ := p
    rw [stripMembers]
    by_cases hk : k = directiveKey
    · rw [if_pos (same_directiveKey_iff.mpr hk), ih, Entries.get?_cons, if_neg]
      rw [hk]
      exact Ne.symm hn
    · rw [if_neg (mt same_directiveKey_iff.mp hk), Entries.get?_cons, Entries.get?_cons, ih]
      split <;> rfl

theorem without_stripMembers (es : Entries) (names : List String) :
    Entries.without names (stripMembers es) = stripMembers (es.without names) := by
  rw [stripMembers_eq, stripMembers_eq, mapValues, mapValues, Entries.without, Entries.without,
    List.filter_map, List.filter_comm]
  rfl

theorem fits_strip (h : v.Fits room) : (strip v).Fits room := by
  induction room, v, h using Value.Fits.induction with
  | null room => exact .null
  | bool room b => exact .bool b
  | int room i h => exact Value.Fits.int_iff.mpr h
  | text room s => exact .text s
  | list room items _ ih =>
    rw [strip_list, Value.Fits.list_iff]
    intro w hw
    obtain ⟨v, hv, rfl⟩ := List.mem_map.mp hw
    exact ih v hv
  | object room es h ih =>
    rw [strip_object, Value.Fits.object_iff]
    refine ⟨keysApart_stripMembers (Value.Fits.object_iff.mp h).1, fun q hq => ?_⟩
    obtain ⟨p, hp, -, rfl⟩ := mem_stripMembers_iff.mp hq
    exact ih p hp

theorem strip_other (hlist : ∀ items, v ≠ .list items) (hobject : ∀ es, v ≠ .object es) :
    strip v = v := by
  cases v with
  | list items => exact absurd rfl (hlist items)
  | object es => exact absurd rfl (hobject es)
  | _ => rfl

theorem isDirectiveFree_other (hlist : ∀ items, v ≠ .list items)
    (hobject : ∀ es, v ≠ .object es) : isDirectiveFree v = true := by
  cases v with
  | list items => exact absurd rfl (hlist items)
  | object es => exact absurd rfl (hobject es)
  | _ => rfl

theorem isDirectiveFree_strip (v : Value) : isDirectiveFree (strip v) = true := by
  induction v using Value.induction with
  | list items ih =>
    rw [strip_list, isDirectiveFree_list_iff]
    intro w hw
    obtain ⟨v, hv, rfl⟩ := List.mem_map.mp hw
    exact ih v hv
  | object es ih =>
    rw [strip_object, isDirectiveFree_object_iff]
    intro q hq
    obtain ⟨p, hp, hkey, rfl⟩ := mem_stripMembers_iff.mp hq
    exact ⟨hkey, ih p hp⟩
  | other v hlist hobject =>
    rw [strip_other hlist hobject]
    exact isDirectiveFree_other hlist hobject

theorem strip_eq_self (hfree : isDirectiveFree v = true) : strip v = v := by
  induction v using Value.induction with
  | list items ih =>
    rw [isDirectiveFree_list_iff] at hfree
    rw [strip_list, List.map_congr_left fun v hv => ih v hv (hfree v hv), List.map_id']
  | object es ih =>
    rw [isDirectiveFree_object_iff] at hfree
    have hall : es.filter (fun p => !p.1.same directiveKey) = es := by
      refine List.filter_eq_self.mpr fun p hp => ?_
      rw [Bool.not_eq_true', ← Bool.not_eq_true, same_directiveKey_iff]
      exact (hfree p hp).1
    have hvalues : mapValues strip es = mapValues (fun v => v) es :=
      Entries.mapValues_congr fun p hp => ih p hp (hfree p hp).2
    rw [strip_object, stripMembers_eq, hall, hvalues]
    exact congrArg Value.object (List.map_id' es)
  | other v hlist hobject => exact strip_other hlist hobject

/-- **Stripping as a recasting.**  The members are put in order, and lose their directives. -/
def stripping : Recasting where
  value v := strip v.ordered
  members es := stripMembers (Entries.ordered es)
  value_list items := by rw [Value.ordered_list, strip_list, List.map_map]; rfl
  value_object es := by rw [Value.ordered_object_eq, strip_object]
  value_scalar {v} hlist hobject := by
    cases v with
    | list items => exact absurd rfl (hlist items)
    | object es => exact absurd rfl (hobject es)
    | _ => rfl
  members_nil := rfl
  get?_members {es} h {n} hn := by
    rw [get?_stripMembers hn, Entries.get?_ordered h, Option.map_map]
    rfl
  without_members h names := by rw [without_stripMembers, Entries.without_ordered h]
  fits h := fits_strip h.ordered

theorem value_stripping (h : v.isPlain = true) (hfree : isDirectiveFree v = true) :
    stripping.value v = v.ordered :=
  strip_eq_self ((isDirectiveFree_ordered_iff h).mpr hfree)

/-- **What stripping keeps.**  A value stays the same JSON exactly if it carries no directive. -/
theorem sameJson_stripping_iff (h : v.Fits room) :
    Value.sameJson (stripping.value v) v = true ↔ isDirectiveFree v = true := by
  have hstripped := (stripping.fits h).plain
  constructor
  · intro hsame
    have heq := (Value.sameJson_iff_ordered_eq hstripped h.plain).mp hsame
    rw [← isDirectiveFree_ordered_iff h.plain, ← heq, isDirectiveFree_ordered_iff hstripped]
    exact isDirectiveFree_strip v.ordered
  · intro hfree
    rw [value_stripping h.plain hfree]
    exact Value.sameJson_ordered h.plain

end Patch

end RolloutLedger
