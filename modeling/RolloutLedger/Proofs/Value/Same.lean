import Mathlib.Data.List.Perm.Subperm
import RolloutLedger.Proofs.Value.Plain
/-! # Values that are the same

Two relations between plain values, to be the same JSON and to hold the same content, each with one
representative for each class.
-/

namespace RolloutLedger

open Entries (mapValues)

/-! ## The same JSON

Two values are the same JSON when they differ in nothing but the order in which objects hold
their members.  Ordering the members at every depth gives one representative for each class of
plain values; it is the form in which data is stored.
-/

namespace Value

/-! ### The ordered form -/

mutual

/-- A value with the members of objects in the order of their keys, at every depth. -/
def ordered : Value → Value
  | list items => list (orderedItems items)
  | object es => object (Entries.sorted (orderedMembers es))
  | v => v
termination_by structural v => v

def orderedItems : List Value → List Value
  | [] => []
  | v :: rest => ordered v :: orderedItems rest
termination_by structural vs => vs

def orderedMembers : List (Key × Value) → List (Key × Value)
  | [] => []
  | (k, v) :: rest => (k, ordered v) :: orderedMembers rest
termination_by structural es => es

end

theorem orderedItems_eq_map (items : List Value) : orderedItems items = items.map ordered := by
  induction items with
  | nil => rfl
  | cons v rest ih => rw [orderedItems, ih, List.map_cons]

theorem orderedMembers_eq_mapValues (es : Entries) :
    orderedMembers es = mapValues ordered es := by
  induction es with
  | nil => rfl
  | cons p rest ih =>
    obtain ⟨k, v⟩ := p
    rw [orderedMembers, ih]
    rfl

@[simp] theorem ordered_list (items : List Value) :
    (list items).ordered = list (items.map ordered) := by
  rw [ordered, orderedItems_eq_map]

@[simp] theorem ordered_object (es : Entries) :
    (object es).ordered = object (mapValues ordered (Entries.sorted es)) := by
  rw [ordered, orderedMembers_eq_mapValues, Entries.sorted_mapValues]

@[simp] theorem ordered_null : null.ordered = null := rfl

@[simp] theorem ordered_int (i : Int) : (int i).ordered = int i := rfl

@[simp] theorem ordered_text (s : String) : (text s).ordered = text s := rfl

theorem ordered_ordered {v : Value} (h : v.isPlain = true) : v.ordered.ordered = v.ordered := by
  induction v, h using isPlain_induction with
  | null => rfl
  | bool b => rfl
  | int i => rfl
  | text s => rfl
  | list items _ ih =>
    rw [ordered_list, ordered_list, List.map_map]
    exact congrArg list (List.map_congr_left ih)
  | object es h ih =>
    rw [ordered_object, ordered_object, Entries.sorted_mapValues,
      Entries.sorted_sorted (keysApart_of_isPlain h), Entries.mapValues_mapValues]
    refine congrArg object (Entries.mapValues_congr fun p hp => ?_)
    exact ih p ((Entries.sorted_perm es).mem_iff.mp hp)

theorem Fits.ordered {room : Nat} {v : Value} (h : Fits room v) : Fits room v.ordered := by
  induction room, v, h using Fits.induction with
  | null room => exact .null
  | bool room b => exact .bool b
  | int room i h => exact Fits.int_iff.mpr h
  | text room s => exact .text s
  | list room items _ ih =>
    rw [ordered_list, Fits.list_iff]
    intro w hw
    obtain ⟨v, hv, rfl⟩ := List.mem_map.mp hw
    exact ih v hv
  | object room es h ih =>
    rw [ordered_object, Fits.object_iff, Entries.keysApart_mapValues]
    refine ⟨Entries.keysApart_sorted (Fits.object_iff.mp h).1, fun q hq => ?_⟩
    obtain ⟨p, hp, rfl⟩ := Entries.mem_mapValues.mp hq
    exact ih p ((Entries.sorted_perm es).mem_iff.mp hp)

theorem isPlain_ordered {v : Value} (h : v.isPlain = true) : v.ordered.isPlain = true := by
  induction v, h using isPlain_induction with
  | null => rfl
  | bool b => rfl
  | int i => rfl
  | text s => rfl
  | list items _ ih =>
    rw [ordered_list, isPlain_list_iff]
    intro w hw
    obtain ⟨v, hv, rfl⟩ := List.mem_map.mp hw
    exact ih v hv
  | object es h ih =>
    rw [ordered_object, isPlain_object_iff, Entries.keysApart_mapValues]
    refine ⟨Entries.keysApart_sorted (keysApart_of_isPlain h), fun q hq => ?_⟩
    obtain ⟨p, hp, rfl⟩ := Entries.mem_mapValues.mp hq
    exact ih p ((Entries.sorted_perm es).mem_iff.mp hp)

/-! ### Equality up to the order of members -/

mutual

/-- Whether two values are the same as JSON: scalars of one type and equal, lists place by place,
objects with the same members in whatever order.  Values that are not JSON are the same as
nothing. -/
def sameJson : Value → Value → Bool
  | null, null => true
  | bool a, bool b => a == b
  | int i, int j => i == j
  | text s, text t => s == t
  | list xs, list ys => sameItems xs ys
  | object es, object fs => es.length == fs.length && sameMembers es fs
  | _, _ => false
termination_by structural a => a

def sameItems : List Value → List Value → Bool
  | [], [] => true
  | x :: xs, y :: ys => sameJson x y && sameItems xs ys
  | _, _ => false
termination_by structural a => a

/-- Whether each of some members is among others, with the same JSON as its value. -/
def sameMembers : List (Key × Value) → List (Key × Value) → Bool
  | [], _ => true
  | (k, v) :: rest, fs => fs.any (fun q => k == q.1 && sameJson v q.2) && sameMembers rest fs
termination_by structural a => a

end

theorem sameMembers_iff {es fs : Entries} :
    sameMembers es fs = true ↔
      ∀ p ∈ es, ∃ q ∈ fs, p.1 = q.1 ∧ sameJson p.2 q.2 = true := by
  induction es with
  | nil => simp [sameMembers]
  | cons p rest ih =>
    obtain ⟨k, v⟩ := p
    rw [sameMembers, Bool.and_eq_true, ih, List.any_eq_true]
    simp

theorem sameItems_iff {xs : List Value}
    (ih : ∀ x ∈ xs, ∀ y : Value, y.isPlain = true →
      (sameJson x y = true ↔ x.ordered = y.ordered)) {ys : List Value}
    (hys : ∀ y ∈ ys, y.isPlain = true) :
    sameItems xs ys = true ↔ xs.map ordered = ys.map ordered := by
  induction xs generalizing ys with
  | nil => cases ys <;> simp [sameItems]
  | cons x xs hrest =>
    cases ys with
    | nil => simp [sameItems]
    | cons y ys =>
      rw [sameItems, Bool.and_eq_true, ih x List.mem_cons_self y (hys y List.mem_cons_self),
        hrest (fun x hx => ih x (List.mem_cons_of_mem _ hx))
          (fun y hy => hys y (List.mem_cons_of_mem _ hy)),
        List.map_cons, List.map_cons, List.cons.injEq]

/-- Members that are all among others, as many in number, are these others up to their order. -/
theorem sorted_mapValues_eq_iff {es fs : Entries} (hes : Entries.keysApart es = true)
    (f : Value → Value) :
    mapValues f (Entries.sorted es) = mapValues f (Entries.sorted fs) ↔
      es.length = fs.length ∧ ∀ p ∈ es, ∃ q ∈ fs, p.1 = q.1 ∧ f p.2 = f q.2 := by
  rw [← Entries.sorted_mapValues, ← Entries.sorted_mapValues]
  constructor
  · intro h
    have hperm : (mapValues f es).Perm (mapValues f fs) :=
      (Entries.sorted_perm _).symm.trans (h ▸ Entries.sorted_perm _)
    refine ⟨by simpa [mapValues] using hperm.length_eq, fun p hp => ?_⟩
    have hmem : (p.1, f p.2) ∈ mapValues f fs :=
      hperm.mem_iff.mp (Entries.mem_mapValues.mpr ⟨p, hp, rfl⟩)
    obtain ⟨q, hq, heq⟩ := Entries.mem_mapValues.mp hmem
    obtain ⟨hkey, hvalue⟩ := Prod.mk.inj heq
    exact ⟨q, hq, hkey.symm, hvalue.symm⟩
  · rintro ⟨hlength, hmem⟩
    have hkeys : Entries.keysApart (mapValues f es) = true := by
      rw [Entries.keysApart_mapValues]
      exact hes
    have hsub : mapValues f es ⊆ mapValues f fs := by
      intro x hx
      obtain ⟨p, hp, rfl⟩ := Entries.mem_mapValues.mp hx
      obtain ⟨q, hq, hkey, hvalue⟩ := hmem p hp
      exact Entries.mem_mapValues.mpr ⟨q, hq, by rw [hkey, hvalue]⟩
    have hnodup : (mapValues f es).Nodup :=
      List.Pairwise.of_map _ (fun _ _ hne heq => hne (congrArg _ heq))
        (Entries.nodup_of_keysApart hkeys)
    have hperm : (mapValues f es).Perm (mapValues f fs) := by
      refine (List.subperm_of_subset hnodup hsub).perm_of_length_le ?_
      simp [mapValues, hlength]
    exact Entries.sorted_eq_of_perm hkeys hperm

/-- **The ordered form decides.**  Plain values are the same JSON exactly if they have the same
ordered form. -/
theorem sameJson_iff_ordered_eq {a b : Value} (ha : a.isPlain = true) (hb : b.isPlain = true) :
    sameJson a b = true ↔ a.ordered = b.ordered := by
  induction a, ha using isPlain_induction generalizing b with
  | null => cases b <;> simp_all [sameJson, ordered]
  | bool x => cases b <;> simp_all [sameJson, ordered]
  | int i => cases b <;> simp_all [sameJson, ordered]
  | text s => cases b <;> simp_all [sameJson, ordered]
  | list xs _ ih =>
    cases b with
    | list ys =>
      rw [ordered_list, ordered_list, list.injEq, sameJson]
      exact sameItems_iff (fun x hx _ hy => ih x hx hy) (isPlain_list_iff.mp hb)
    | object fs => simp [sameJson]
    | _ => simp [sameJson, ordered]
  | object es hes ih =>
    cases b with
    | object fs =>
      have hmembers := (isPlain_object_iff.mp hb).2
      rw [ordered_object, ordered_object, object.injEq, sameJson, Bool.and_eq_true, beq_iff_eq,
        sameMembers_iff, sorted_mapValues_eq_iff (keysApart_of_isPlain hes)]
      refine and_congr_right fun _ => ?_
      refine forall₂_congr fun p hp => exists_congr fun q => ?_
      exact and_congr_right fun hq => and_congr_right fun _ => ih p hp (hmembers q hq)
    | list ys => simp [sameJson]
    | _ => simp [sameJson, ordered]

theorem sameJson_ordered {a : Value} (ha : a.isPlain = true) : sameJson a.ordered a = true :=
  (sameJson_iff_ordered_eq (isPlain_ordered ha) ha).mpr (ordered_ordered ha)

/-! ### The same JSON and the same content -/

theorem alikeItems_of_sameItems {oneSource : Bool} {xs : List Value}
    (ih : ∀ x ∈ xs, ∀ y : Value, sameJson x y = true → alike oneSource x y = true) :
    ∀ {ys : List Value}, sameItems xs ys = true → alikeItems oneSource xs ys = true := by
  induction xs with
  | nil =>
    intro ys h
    cases ys with
    | nil => rfl
    | cons y ys => exact Bool.noConfusion h
  | cons x xs hrest =>
    intro ys h
    cases ys with
    | nil => exact Bool.noConfusion h
    | cons y ys =>
      rw [sameItems, Bool.and_eq_true] at h
      rw [alikeItems, Bool.and_eq_true]
      exact ⟨ih x List.mem_cons_self y h.1,
        hrest (fun x hx => ih x (List.mem_cons_of_mem _ hx)) h.2⟩

theorem alikeMembers_of_sameMembers {oneSource : Bool} {es fs : Entries}
    (hkeys : ∀ p ∈ es, ∃ s, p.1 = .text s)
    (ih : ∀ p ∈ es, ∀ y : Value, sameJson p.2 y = true → alike oneSource p.2 y = true)
    (h : sameMembers es fs = true) : alikeMembers oneSource es fs = true := by
  induction es with
  | nil => rfl
  | cons p rest hrest =>
    obtain ⟨k, v⟩ := p
    obtain ⟨q, hq, hkey, hvalue⟩ := sameMembers_iff.mp h (k, v) List.mem_cons_self
    obtain ⟨s, hs⟩ := hkeys (k, v) List.mem_cons_self
    rw [alikeMembers, Bool.and_eq_true, List.any_eq_true]
    refine ⟨⟨q, hq, ?_⟩, hrest (fun p hp => hkeys p (List.mem_cons_of_mem _ hp))
      (fun p hp => ih p (List.mem_cons_of_mem _ hp)) ?_⟩
    · have hsame : k.same q.1 = true := by
        rw [← hkey, show k = .text s from hs]
        exact Key.same_text_iff.mpr rfl
      rw [Bool.and_eq_true, alikeKeys, hsame]
      exact ⟨rfl, ih (k, v) List.mem_cons_self q.2 hvalue⟩
    · exact sameMembers_iff.mpr fun p hp =>
        sameMembers_iff.mp h p (List.mem_cons_of_mem _ hp)

theorem alike_of_sameJson (oneSource : Bool) {a b : Value} (ha : a.isPlain = true)
    (h : sameJson a b = true) : alike oneSource a b = true := by
  induction a, ha using isPlain_induction generalizing b with
  | null => cases b <;> simp_all [sameJson, alike]
  | bool x => cases b <;> simp_all [sameJson, alike, scalar?, alikeScalars, Scalar.same]
  | int i => cases b <;> simp_all [sameJson, alike, scalar?, alikeScalars, Scalar.same]
  | text s => cases b <;> simp_all [sameJson, alike]
  | list xs _ ih =>
    cases b with
    | list ys =>
      rw [sameJson] at h
      exact alikeItems_of_sameItems (fun x hx _ hxy => ih x hx hxy) h
    | _ => exact Bool.noConfusion h
  | object es hes ih =>
    cases b with
    | object fs =>
      rw [sameJson, Bool.and_eq_true] at h
      rw [alike, h.1]
      exact alikeMembers_of_sameMembers
        (fun p hp => Entries.text_of_keysApart (keysApart_of_isPlain hes) hp)
        (fun p hp _ hxy => ih p hp hxy) h.2
    | _ => exact Bool.noConfusion h

end Value

/-! ## The same content

Two values of JSON hold the same content if they are the same JSON once truth values are counted as
0 and 1.  So for plain values being the same content is an equivalence, with one representative for
each class.
-/

namespace Value

/-! ### Truth values as numbers -/

mutual

/-- A value with 0 and 1 for truth values, at every depth. -/
def counted : Value → Value
  | bool b => int (if b then 1 else 0)
  | list items => list (countedItems items)
  | object es => object (countedMembers es)
  | v => v
termination_by structural v => v

def countedItems : List Value → List Value
  | [] => []
  | v :: rest => counted v :: countedItems rest
termination_by structural vs => vs

def countedMembers : List (Key × Value) → List (Key × Value)
  | [] => []
  | (k, v) :: rest => (k, counted v) :: countedMembers rest
termination_by structural es => es

end

@[simp] theorem counted_list (items : List Value) :
    (list items).counted = list (items.map counted) := by
  rw [counted]
  congr 1
  induction items with
  | nil => rfl
  | cons v rest ih => rw [countedItems, ih, List.map_cons]

@[simp] theorem counted_object (es : Entries) :
    (object es).counted = object (mapValues counted es) := by
  rw [counted]
  congr 1
  induction es with
  | nil => rfl
  | cons p rest ih =>
    obtain ⟨k, v⟩ := p
    rw [countedMembers, ih]
    rfl

theorem isPlain_counted {v : Value} (h : v.isPlain = true) : v.counted.isPlain = true := by
  induction v, h using isPlain_induction with
  | null => rfl
  | bool b => rfl
  | int i => rfl
  | text s => rfl
  | list items _ ih =>
    rw [counted_list, isPlain_list_iff]
    intro w hw
    obtain ⟨v, hv, rfl⟩ := List.mem_map.mp hw
    exact ih v hv
  | object es h ih =>
    rw [counted_object, isPlain_object_iff, Entries.keysApart_mapValues]
    refine ⟨keysApart_of_isPlain h, ?_⟩
    intro q hq
    obtain ⟨p, hp, rfl⟩ := Entries.mem_mapValues.mp hq
    exact ih p hp

/-! ### Equality with a scalar -/

theorem same_null_iff {v : Value} : same v .null = true ↔ v = .null := by
  cases v <;> simp [same, alike, scalar?]

theorem same_text_iff {v : Value} {t : String} : same v (.text t) = true ↔ v = .text t := by
  cases v <;> simp [same, alike, scalar?]

/-- Integers, and truth values counted as integers, are compared as integers. -/
theorem same_of_scalar? {a b : Value} {i j : Int} (ha : a.scalar? = some (.int i))
    (hb : b.scalar? = some (.int j)) : same a b = (i == j) := by
  cases a <;> cases ha <;> cases b <;> cases hb <;> exact Bool.or_false _

/-! ### Equality as the same JSON -/

theorem alikeItems_eq_sameItems {xs : List Value}
    (ih : ∀ x ∈ xs, ∀ y : Value, y.isPlain = true → same x y = sameJson x.counted y.counted)
    {ys : List Value} (hys : ∀ y ∈ ys, y.isPlain = true) :
    alikeItems false xs ys = sameItems (xs.map counted) (ys.map counted) := by
  induction xs generalizing ys with
  | nil => cases ys <;> rfl
  | cons x xs hrest =>
    cases ys with
    | nil => rfl
    | cons y ys =>
      obtain ⟨hy, hys⟩ := List.forall_mem_cons.mp hys
      have hhead := ih x List.mem_cons_self y hy
      rw [same] at hhead
      rw [List.map_cons, List.map_cons, alikeItems, sameItems, hhead,
        hrest (fun x hx => ih x (List.mem_cons_of_mem _ hx)) hys]

theorem alikeKeys_text (n : String) (k : Key) :
    alikeKeys false (.text n) k = (Key.text n == k) := by
  rw [alikeKeys, Bool.false_and, Bool.false_and, Bool.or_false, Bool.eq_iff_iff,
    Key.same_text_iff, beq_iff_eq, eq_comm]

theorem alikeMembers_eq_sameMembers {es fs : Entries} (hkeys : ∀ p ∈ es, ∃ s, p.1 = .text s)
    (ih : ∀ p ∈ es, ∀ y : Value, y.isPlain = true → same p.2 y = sameJson p.2.counted y.counted)
    (hfs : ∀ q ∈ fs, q.2.isPlain = true) :
    alikeMembers false es fs = sameMembers (mapValues counted es) (mapValues counted fs) := by
  induction es with
  | nil => rfl
  | cons p rest hrest =>
    obtain ⟨k, v⟩ := p
    obtain ⟨⟨n, hn⟩, hrestKeys⟩ := List.forall_mem_cons.mp hkeys
    obtain ⟨hvalue, hvalues⟩ := List.forall_mem_cons.mp ih
    cases hn
    have hhead : (fs.any fun q => alikeKeys false (.text n) q.1 && alike false v q.2) =
        (mapValues counted fs).any fun q => Key.text n == q.1 && sameJson v.counted q.2 := by
      rw [mapValues, List.any_map, Bool.eq_iff_iff, List.any_eq_true, List.any_eq_true]
      refine exists_congr fun q => and_congr_right fun hq => ?_
      have hq := hvalue q.2 (hfs q hq)
      rw [same] at hq
      rw [Function.comp, alikeKeys_text, hq]
    show _ = sameMembers ((Key.text n, v.counted) :: mapValues counted rest) _
    rw [alikeMembers, sameMembers, hhead, hrest hrestKeys hvalues]

/-- **The same content is the same JSON, up to truth values.** -/
theorem same_eq_sameJson {a b : Value} (ha : a.isPlain = true) (hb : b.isPlain = true) :
    same a b = sameJson a.counted b.counted := by
  induction a, ha using isPlain_induction generalizing b with
  | null => cases b <;> rfl
  | bool x =>
    cases b with
    | float y => exact Bool.noConfusion hb
    | bool y => exact same_of_scalar? rfl rfl
    | int j => exact same_of_scalar? rfl rfl
    | _ => rfl
  | int i =>
    cases b with
    | float y => exact Bool.noConfusion hb
    | bool y => exact same_of_scalar? rfl rfl
    | int j => exact same_of_scalar? rfl rfl
    | _ => rfl
  | text s => cases b <;> rfl
  | list xs _ ih =>
    cases b with
    | list ys =>
      rw [counted_list, counted_list, same, alike, sameJson]
      exact alikeItems_eq_sameItems (fun x hx _ hy => ih x hx hy) (isPlain_list_iff.mp hb)
    | _ => rfl
  | object es hes ih =>
    cases b with
    | object fs =>
      rw [counted_object, counted_object, same, alike, sameJson,
        alikeMembers_eq_sameMembers
          (fun p hp => Entries.text_of_keysApart (keysApart_of_isPlain hes) hp)
          (fun p hp _ hy => ih p hp hy) (isPlain_object_iff.mp hb).2, mapValues, mapValues,
        List.length_map, List.length_map]
    | _ => rfl

/-- **One representative for the same content.** -/
theorem same_iff_ordered_eq {a b : Value} (ha : a.isPlain = true) (hb : b.isPlain = true) :
    same a b = true ↔ a.counted.ordered = b.counted.ordered := by
  rw [same_eq_sameJson ha hb, sameJson_iff_ordered_eq (isPlain_counted ha) (isPlain_counted hb)]

theorem same_refl {a : Value} (ha : a.isPlain = true) : same a a = true :=
  (same_iff_ordered_eq ha ha).mpr rfl

end Value

end RolloutLedger
