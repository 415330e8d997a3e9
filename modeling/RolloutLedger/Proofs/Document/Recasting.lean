import RolloutLedger.Patch.Merge
import RolloutLedger.Proofs.Document.Members
/-! # Documents whose values are recast

What is stored may come back changed: the members of objects in another order, and nothing left of
what was taken for a directive.  A document is read the same way as long as every name by which it
is read finds the changed value.  Such changes are recastings; ordering is one of them.
-/

namespace RolloutLedger

open Entries (valueOr keysApart)

theorem Patch.text_eq_directiveKey_iff {n : String} :
    Key.text n = directiveKey ↔ n = "$patch" := by
  rw [directiveKey, Key.text.injEq]

theorem Entries.HasNames.ne_directiveKey {names : List String} {es : Entries}
    (h : HasNames names es) (hfree : ∀ n ∈ names, Key.text n ≠ Patch.directiveKey) :
    ∀ p ∈ es, p.1 ≠ Patch.directiveKey := by
  intro p hp
  obtain ⟨n, hn, hkey⟩ := h.exists_name p hp
  rw [hkey]
  exact hfree n hn

/-- A change of values at every depth.  Lists are changed item by item, scalars not at all, and an
object holds the changed values under the names it had, the one of directives apart. -/
structure Recasting where
  value : Value → Value
  members : Entries → Entries
  value_list (items : List Value) : value (.list items) = .list (items.map value)
  value_object (es : Entries) : value (.object es) = .object (members es)
  value_scalar {v : Value} (hlist : ∀ items, v ≠ .list items) (hobject : ∀ es, v ≠ .object es) :
    value v = v
  members_nil : members [] = []
  get?_members {es : Entries} (h : keysApart es = true) {n : String}
    (hn : Key.text n ≠ Patch.directiveKey) :
    Entries.get? (.text n) (members es) = (Entries.get? (.text n) es).map value
  without_members {es : Entries} (h : keysApart es = true) (names : List String) :
    (members es).without names = members (es.without names)
  fits {room : Nat} {v : Value} (h : v.Fits room) : (value v).Fits room

namespace Recasting

def ordering : Recasting where
  value := Value.ordered
  members := Entries.ordered
  value_list := Value.ordered_list
  value_object := Value.ordered_object_eq
  value_scalar {v} hlist hobject := by
    cases v with
    | list items => exact absurd rfl (hlist items)
    | object es => exact absurd rfl (hobject es)
    | _ => rfl
  members_nil := rfl
  get?_members h _ _ := Entries.get?_ordered h _
  without_members h names := Entries.without_ordered h names
  fits := Value.Fits.ordered

def unchanged : Recasting where
  value v := v
  members es := es
  value_list items := by rw [List.map_id']
  value_object _ := rfl
  value_scalar _ _ := rfl
  members_nil := rfl
  get?_members _ _ _ := by rw [Option.map_id']
  without_members _ _ := rfl
  fits h := h

variable (f : Recasting) {es extra known : Entries} {names : List String} {n : String}

@[simp] theorem value_null : f.value .null = .null :=
  f.value_scalar (fun _ => Value.noConfusion) fun _ => Value.noConfusion

@[simp] theorem value_int (i : Int) : f.value (.int i) = .int i :=
  f.value_scalar (fun _ => Value.noConfusion) fun _ => Value.noConfusion

@[simp] theorem value_text (s : String) : f.value (.text s) = .text s :=
  f.value_scalar (fun _ => Value.noConfusion) fun _ => Value.noConfusion

theorem keysApart_members {room : Nat} (h : (Value.object es).Fits room) :
    keysApart (f.members es) = true := by
  have hfits := f.fits h
  rw [f.value_object] at hfits
  exact Value.keysApart_of_isPlain hfits.plain

/-! ## Looking up -/

theorem valueOr_members (h : keysApart es = true) (hn : Key.text n ≠ Patch.directiveKey)
    {d : Value} (hd : f.value d = d) : valueOr (f.members es) n d = f.value (valueOr es n d) := by
  rw [valueOr, valueOr, f.get?_members h hn]
  cases Entries.get? (.text n) es with
  | none => exact hd.symm
  | some v => rfl

theorem valueOr_null (h : keysApart es = true) (n : String)
    (hn : Key.text n ≠ Patch.directiveKey) :
    valueOr (f.members es) n .null = f.value (valueOr es n .null) :=
  f.valueOr_members h hn f.value_null

theorem valueOr_text (h : keysApart es = true) (n s : String)
    (hn : Key.text n ≠ Patch.directiveKey) :
    valueOr (f.members es) n (.text s) = f.value (valueOr es n (.text s)) :=
  f.valueOr_members h hn (f.value_text s)

theorem valueOr_of_extra (hkeys : keysApart (extra ++ known) = true)
    (hextra : ∀ p ∈ extra, ∀ n ∈ names, p.1 ≠ .text n) (hn : n ∈ names)
    (hfree : ∀ n ∈ names, Key.text n ≠ Patch.directiveKey) {d : Value} (hd : f.value d = d) :
    valueOr (f.members (extra ++ known)) n d = f.value (valueOr known n d) := by
  rw [f.valueOr_members hkeys (hfree n hn) hd, Entries.valueOr_append_of_extra hextra hn]

theorem without_of_extra (hkeys : keysApart (extra ++ known) = true)
    (hextra : ∀ p ∈ extra, ∀ n ∈ names, p.1 ≠ .text n)
    (hknown : ∀ p ∈ known, ∃ n ∈ names, p.1 = .text n) :
    (f.members (extra ++ known)).without names = f.members extra := by
  rw [f.without_members hkeys, Entries.without_append hextra hknown]

/-! ## Members that are left out -/

@[simp] theorem entries_of_leftOut (es : Entries) :
    (f.value ((if es = [] then none else some (.object es)).getD .null)).entriesOrNone =
      .ok (f.members es) := by
  split
  · rename_i h
    rw [h, f.members_nil, Option.getD_none, f.value_null]
    rfl
  · rw [Option.getD_some, f.value_object, Value.entriesOrNone_object]

@[simp] theorem items_of_leftOut (items : List Value) :
    (f.value ((if items = [] then none else some (.list items)).getD .null)).itemsOrNone =
      .ok (items.map f.value) := by
  split
  · rename_i h
    rw [h, Option.getD_none, f.value_null]
    rfl
  · rw [Option.getD_some, f.value_list, Value.itemsOrNone_list]

@[simp] theorem documents_of_leftOut {α : Type} (document : α → Value) (xs : List α) :
    (f.value ((if xs = [] then none else some (.list (xs.map document))).getD
      .null)).itemsOrNone = .ok (xs.map fun x => f.value (document x)) := by
  cases xs with
  | nil =>
    rw [if_pos rfl, Option.getD_none, f.value_null]
    rfl
  | cons x xs =>
    rw [if_neg (List.cons_ne_nil x xs), Option.getD_some, f.value_list, Value.itemsOrNone_list,
      List.map_map]
    rfl

theorem optional {α β : Type} {document : α → Value} {read : Value → Except Error β}
    {g : α → β} {o : Option α} (hobject : ∀ x, ∃ es, document x = .object es)
    (h : ∀ x, o = some x → read (f.value (document x)) = .ok (g x)) :
    (f.value ((o.map document).getD .null)).optional read = .ok (o.map g) := by
  cases o with
  | none =>
    rw [Option.map_none, Option.getD_none, f.value_null]
    rfl
  | some x =>
    obtain ⟨es, hes⟩ := hobject x
    have hread := h x rfl
    rw [Option.map_some, Option.getD_some, Option.map_some]
    rw [hes, f.value_object] at hread ⊢
    rw [Value.optional.eq_2 _ _ (by simp), hread]
    rfl

end Recasting

namespace Value

@[simp] theorem entries_of_leftOut_ordered (es : Entries) :
    ((if es = [] then none else some (object es)).getD null).ordered.entriesOrNone =
      .ok es.ordered := Recasting.ordering.entries_of_leftOut es

@[simp] theorem documents_of_leftOut_ordered {α : Type} (document : α → Value) (xs : List α) :
    ((if xs = [] then none else some (list (xs.map document))).getD null).ordered.itemsOrNone =
      .ok (xs.map fun x => (document x).ordered) :=
  Recasting.ordering.documents_of_leftOut document xs

end Value

end RolloutLedger
