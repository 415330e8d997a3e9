import RolloutLedger.Proofs.Outcomes
import RolloutLedger.Proofs.Value.Same
import RolloutLedger.Value.Lenient
/-! # Reading the members of a document

What is read from an object depends on what its members look up to, and not on their order.  The
ordered form of an object looks up to the ordered forms of the values.
-/

namespace RolloutLedger

namespace Entries

def valueOr (es : Entries) (n : String) (d : Value) : Value := (get? (.text n) es).getD d

def ordered (es : Entries) : Entries := mapValues Value.ordered (sorted es)

variable {es : Entries}

theorem isEmpty_ordered (es : Entries) : es.ordered.isEmpty = es.isEmpty := by
  have hperm := (sorted_perm es).length_eq
  rw [ordered, mapValues, List.isEmpty_map, Bool.eq_iff_iff, List.isEmpty_iff, List.isEmpty_iff,
    ← List.length_eq_zero_iff, ← List.length_eq_zero_iff, hperm]

theorem get?_ordered (h : keysApart es = true) (n : String) :
    get? (.text n) es.ordered = (get? (.text n) es).map Value.ordered := by
  rw [ordered, get?_mapValues, get?_sorted h]

theorem valueOr_ordered (h : keysApart es = true) (n : String) {d : Value} (hd : d.ordered = d) :
    es.ordered.valueOr n d = (es.valueOr n d).ordered := by
  rw [valueOr, valueOr, get?_ordered h]
  cases get? (.text n) es with
  | none => exact hd.symm
  | some v => rfl

theorem valueOr_null_ordered (h : keysApart es = true) (n : String) :
    es.ordered.valueOr n .null = (es.valueOr n .null).ordered := valueOr_ordered h n rfl

theorem valueOr_text_ordered (h : keysApart es = true) (n s : String) :
    es.ordered.valueOr n (.text s) = (es.valueOr n (.text s)).ordered := valueOr_ordered h n rfl

/-- Members of the same names whose values have the same ordered forms, in whatever order. -/
theorem ordered_eq_of_perm {fs : Entries} (h : keysApart es = true)
    (hperm : (mapValues Value.ordered es).Perm (mapValues Value.ordered fs)) :
    es.ordered = fs.ordered := by
  rw [ordered, ordered, ← sorted_mapValues, ← sorted_mapValues]
  refine sorted_eq_of_perm ?_ hperm
  rw [keysApart_mapValues]
  exact h

/-! ## Members that may be left out -/

theorem fieldIf_sublist (b : Bool) (n : String) (v : Value) :
    (fieldIf b n v).Sublist [field n v] := by
  cases b
  · exact List.nil_sublist _
  · exact List.Sublist.refl _

theorem forall_mem_fieldIf {P : Value → Prop} {b : Bool} {n : String} {v : Value} (h : P v) :
    ∀ p ∈ fieldIf b n v, P p.2 := by
  intro p hp
  rw [List.mem_singleton.mp ((fieldIf_sublist b n v).subset hp)]
  exact h

def optionalField (n : String) (o : Option Value) : Entries := (o.map (field n)).toList

theorem forall_mem_optionalField {P : Value → Prop} {n : String} {o : Option Value}
    (h : ∀ v, o = some v → P v) : ∀ p ∈ optionalField n o, P p.2 := by
  intro p hp
  cases o with
  | none => exact absurd hp List.not_mem_nil
  | some v =>
    rw [List.mem_singleton.mp hp]
    exact h v rfl

@[simp] theorem get?_optionalField (n m : String) (o : Option Value) :
    get? (.text n) (optionalField m o) = if m = n then o else none := by
  cases o <;> simp [optionalField]

/-- The keys of some members are among given names, in the order of the names. -/
def HasNames (names : List String) (es : Entries) : Prop :=
  (es.map (·.1)).Sublist (names.map Key.text)

namespace HasNames

variable {names names' : List String} {fs : Entries}

theorem field (n : String) (v : Value) : HasNames [n] [Entries.field n v] := List.Sublist.refl _

theorem fieldIf (b : Bool) (n : String) (v : Value) : HasNames [n] (Entries.fieldIf b n v) :=
  (fieldIf_sublist b n v).map _

theorem optionalField (n : String) (o : Option Value) :
    HasNames [n] (Entries.optionalField n o) := by
  cases o with
  | none => exact List.nil_sublist _
  | some v => exact field n v

theorem append (h : HasNames names es) (h' : HasNames names' fs) :
    HasNames (names ++ names') (es ++ fs) := by
  rw [HasNames, List.map_append, List.map_append]
  exact List.Sublist.append h h'

theorem exists_name (h : HasNames names es) : ∀ p ∈ es, ∃ n ∈ names, p.1 = .text n := by
  intro p hp
  obtain ⟨n, hn, hkey⟩ := List.mem_map.mp (h.subset (List.mem_map_of_mem hp))
  exact ⟨n, hn, hkey.symm⟩

theorem keysApart (h : HasNames names es) (hnames : names.Nodup) :
    Entries.keysApart es = true := by
  have hkeys : (names.map Key.text).Nodup :=
    List.Pairwise.map Key.text (fun _ _ => mt Key.text.inj) hnames
  refine keysApart_iff.mpr ⟨fun p hp => ?_, h.nodup hkeys⟩
  obtain ⟨n, -, hkey⟩ := h.exists_name p hp
  exact ⟨n, hkey⟩

theorem keysApart_append {extra : Entries} (h : HasNames names es) (hnames : names.Nodup)
    (hextra : Entries.keysApart extra = true) (hapart : ∀ p ∈ extra, ∀ n ∈ names, p.1 ≠ .text n) :
    Entries.keysApart (extra ++ es) = true := by
  obtain ⟨htext, hnodup⟩ := keysApart_iff.mp hextra
  obtain ⟨htext', hnodup'⟩ := keysApart_iff.mp (h.keysApart hnames)
  refine keysApart_iff.mpr ⟨fun p hp => ?_, ?_⟩
  · exact (List.mem_append.mp hp).elim (htext p) (htext' p)
  · rw [List.map_append, List.nodup_append]
    refine ⟨hnodup, hnodup', fun k hk l hl hkl => ?_⟩
    obtain ⟨p, hp, rfl⟩ := List.mem_map.mp hk
    obtain ⟨q, hq, rfl⟩ := List.mem_map.mp hl
    obtain ⟨n, hn, hkey⟩ := h.exists_name q hq
    exact hapart p hp n hn (hkl.trans hkey)

end HasNames

@[simp] theorem mapValues_nil (f : Value → Value) : mapValues f [] = [] := rfl

@[simp] theorem mapValues_append (f : Value → Value) (es fs : Entries) :
    mapValues f (es ++ fs) = mapValues f es ++ mapValues f fs := List.map_append

@[simp] theorem mapValues_cons_field (f : Value → Value) (n : String) (v : Value) (es : Entries) :
    mapValues f (field n v :: es) = field n (f v) :: mapValues f es := rfl

@[simp] theorem mapValues_fieldIf (f : Value → Value) (b : Bool) (n : String) (v : Value) :
    mapValues f (fieldIf b n v) = fieldIf b n (f v) := by
  cases b <;> rfl

@[simp] theorem mapValues_optionalField (f : Value → Value) (n : String) (o : Option Value) :
    mapValues f (optionalField n o) = optionalField n (o.map f) := by
  cases o <;> rfl

/-- Ordering the values of ordered members changes nothing but the order of the members. -/
theorem perm_mapValues_ordered (h : (Value.object es).isPlain = true) :
    (mapValues Value.ordered es).Perm (mapValues Value.ordered es.ordered) := by
  rw [ordered, mapValues_mapValues]
  have hvalues : mapValues (fun v => v.ordered.ordered) (sorted es) =
      mapValues Value.ordered (sorted es) :=
    mapValues_congr fun p hp => Value.ordered_ordered <|
      Value.isPlain_of_mem_object h ((sorted_perm es).mem_iff.mp hp)
  rw [hvalues]
  exact ((sorted_perm es).map _).symm

/-! ## Members with fields of their own, and others -/

variable {names : List String} {extra known : Entries}

theorem mem_without_iff {p : Key × Value} :
    p ∈ es.without names ↔ p ∈ es ∧ ∀ n ∈ names, p.1 ≠ .text n := by
  rw [without, List.mem_filter, Bool.not_eq_true', ← Bool.not_eq_true, List.any_eq_true]
  refine and_congr_right fun _ => ⟨fun h n hn hp => h ⟨n, hn, Key.same_text_iff.mpr hp⟩, ?_⟩
  rintro h ⟨n, hn, hsame⟩
  exact h n hn (Key.same_text_iff.mp hsame)

theorem apart_of_without (h : es.without names = extra) :
    ∀ p ∈ extra, ∀ n ∈ names, p.1 ≠ .text n := by
  intro p hp
  rw [← h] at hp
  exact (mem_without_iff.mp hp).2

theorem valueOr_append_of_extra (hextra : ∀ p ∈ extra, ∀ n ∈ names, p.1 ≠ .text n) {n : String}
    (hn : n ∈ names) (d : Value) : (extra ++ known).valueOr n d = known.valueOr n d := by
  rw [valueOr, get?_append, get?_eq_none fun p hp => hextra p hp n hn, Option.none_or, valueOr]

theorem ordered_append_of_extra {known' : Entries} (hkeys : keysApart (extra ++ known) = true)
    (hextra : (Value.object extra).isPlain = true)
    (hknown : mapValues Value.ordered known' = mapValues Value.ordered known) :
    ordered (extra.ordered ++ known') = ordered (extra ++ known) := by
  refine (ordered_eq_of_perm hkeys ?_).symm
  rw [mapValues_append, mapValues_append, hknown]
  exact (perm_mapValues_ordered hextra).append_right _

theorem without_append (hextra : ∀ p ∈ extra, ∀ n ∈ names, p.1 ≠ .text n)
    (hknown : ∀ p ∈ known, ∃ n ∈ names, p.1 = .text n) :
    (extra ++ known).without names = extra := by
  have hall : extra.without names = extra := by
    refine List.filter_eq_self.mpr fun p hp => ?_
    exact (List.mem_filter.mp (mem_without_iff.mpr ⟨hp, hextra p hp⟩)).2
  have hnone : known.without names = [] := by
    refine List.eq_nil_iff_forall_not_mem.mpr fun p hp => ?_
    obtain ⟨hp, hnot⟩ := mem_without_iff.mp hp
    obtain ⟨n, hn, hkey⟩ := hknown p hp
    exact hnot n hn hkey
  rw [without, List.filter_append, ← without, ← without, hall, hnone, List.append_nil]

theorem without_mapValues (f : Value → Value) (es : Entries) (names : List String) :
    without names (mapValues f es) = mapValues f (es.without names) := List.filter_map

theorem without_sorted (h : keysApart es = true) (names : List String) :
    without names (sorted es) = sorted (es.without names) := by
  rw [without, sorted_filter h, without]

theorem without_ordered (h : keysApart es = true) (names : List String) :
    es.ordered.without names = ordered (es.without names) := by
  rw [ordered, without_mapValues, without_sorted h, ordered]

end Entries

namespace Value

@[simp] theorem isSome_present?_ordered (v : Value) :
    v.ordered.present?.isSome = v.present?.isSome := by
  cases v <;> rfl

theorem ordered_object_eq (es : Entries) : (object es).ordered = object es.ordered :=
  ordered_object es

theorem map_ordered_ordered {items : List Value} (h : ∀ v ∈ items, v.isPlain = true) :
    (items.map ordered).map ordered = items.map ordered := by
  rw [List.map_map]
  exact List.map_congr_left fun v hv => ordered_ordered (h v hv)

theorem map_documents_ordered {α : Type} {document : α → Value} {f : α → α} {xs : List α}
    (h : ∀ x ∈ xs, (document (f x)).ordered = (document x).ordered) :
    ((xs.map f).map document).map ordered = (xs.map document).map ordered := by
  rw [List.map_map, List.map_map, List.map_map]
  exact List.map_congr_left h

/-! ## Lenient readings of what was written -/

theorem memberOr_object (es : Entries) (n : String) (d : Value) :
    (object es).memberOr n d = .ok (es.valueOr n d) := rfl

theorem exists_object_of_memberOr {v w : Value} {n : String} {d : Value}
    (h : v.memberOr n d = .ok w) : ∃ es : Entries, v = object es ∧ es.valueOr n d = w := by
  cases v with
  | object es => exact ⟨es, rfl, Except.ok.inj h⟩
  | _ => exact nomatch h

theorem orEmpty_object (es : Entries) : (object es).orEmpty = object es := by
  cases es <;> rfl

theorem entriesOrNone_object (es : Entries) : (object es).entriesOrNone = .ok es := by
  rw [entriesOrNone, orEmpty_object]
  rfl

theorem itemsOrNone_list (items : List Value) : (list items).itemsOrNone = .ok items := by
  cases items <;> rfl

theorem toInteger_int_orElse (i : Int) : ((int i).orElse (int 0)).toInteger = .ok i := by
  rw [orElse]
  split
  · rename_i h
    rw [isBlank, beq_iff_eq] at h
    rw [h]
    rfl
  · rfl

@[simp] theorem asText_text (s : String) : (text s).asText = s := rfl

@[simp] theorem textOrEmpty_text (s : String) : (text s).textOrEmpty = s := by
  rw [textOrEmpty, orElse]
  split
  · rename_i h
    rw [isBlank, beq_iff_eq] at h
    rw [h]
    rfl
  · rfl

end Value

theorem mapM_values {α β ε : Type} {value : α → Value} {read : Value → Except ε β} {f : α → β}
    {xs : List α} (h : ∀ x ∈ xs, read (value x) = .ok (f x)) :
    (xs.map value).mapM read = .ok (xs.map f) := by
  rw [List.mapM_map]
  exact mapM_eq_ok_map h

theorem mapM_documents {α : Type} {document : α → Value} {read : Value → Except Error α}
    (h : ∀ x, read (document x) = .ok x) (xs : List α) :
    (xs.map document).mapM read = .ok xs := by
  have hmap := mapM_values (f := id) fun x (_ : x ∈ xs) => h x
  rwa [List.map_id] at hmap

namespace Value

/-! ## Members that are left out -/

@[simp] theorem text_of_leftOut (s : String) :
    (if s = "" then none else some (text s)).getD (text "") = text s := by
  split
  · rename_i h
    rw [h]
    rfl
  · rfl

@[simp] theorem present_of_leftOut (v : Value) :
    (if v.present?.isSome = true then some v else none).getD null = v := by
  cases v <;> rfl

@[simp] theorem entries_of_leftOut (es : Entries) :
    ((if es = [] then none else some (object es)).getD null).entriesOrNone = .ok es := by
  split
  · rename_i h
    rw [h]
    rfl
  · exact entriesOrNone_object es

@[simp] theorem items_of_leftOut (items : List Value) :
    ((if items = [] then none else some (list items)).getD null).itemsOrNone = .ok items := by
  split
  · rename_i h
    rw [h]
    rfl
  · exact itemsOrNone_list items

@[simp] theorem documents_of_leftOut {α : Type} (f : α → Value) (xs : List α) :
    ((if xs = [] then none else some (list (xs.map f))).getD null).itemsOrNone =
      .ok (xs.map f) := by
  cases xs with
  | nil => rfl
  | cons x xs => exact itemsOrNone_list _

end Value

end RolloutLedger
