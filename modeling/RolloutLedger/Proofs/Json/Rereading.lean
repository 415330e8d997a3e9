import RolloutLedger.Proofs.Json.Data
import RolloutLedger.Proofs.Json.Doubles
import RolloutLedger.Proofs.Text.Utf8
/-! # What a written value is read as

Whatever value has a stored form, with doubles and with any keys that have texts, the stored form
is read as the value reread: every key by its text, the members in the order in which they are
written, and the last of two members with one text.  Where keys are texts and apart, that is the
ordered form.

The same holds of every layout that sorts keys: the blanks of a text that is broken into lines are
skipped.
-/

namespace RolloutLedger

open Entries (mapValues keysApart ofPairs)

/-! ## Rereading -/

/-- The text by which a key is written; empty for a key that has none. -/
def Key.writtenText (k : Key) : String :=
  match Json.keyText k with
  | .ok cs => String.ofList cs
  | .error _ => ""

theorem Key.writtenText_eq {k : Key} {cs : List Char} (h : Json.keyText k = .ok cs) :
    k.writtenText = String.ofList cs := by
  rw [writtenText, h]

@[simp] theorem Key.writtenText_text (s : String) : (Key.text s).writtenText = s :=
  String.ofList_toList

namespace Entries

/-- Members in the order in which they are written, under the texts of their keys. -/
def spelled (es : Entries) : Entries :=
  ((sortMembers? es).getD es).map fun p => (.text p.1.writtenText, p.2)

def asWritten (es : Entries) : Entries := ofPairs es.spelled

theorem keysApart_asWritten (es : Entries) : keysApart es.asWritten = true := by
  refine (keysApart_ofPairs fun p hp => ?_).1
  obtain ⟨q, -, rfl⟩ := List.mem_map.mp hp
  exact ⟨_, rfl⟩

/-- Members whose keys are texts and apart come back in the order of their keys. -/
theorem asWritten_eq_sorted {es : Entries} (h : keysApart es = true) :
    es.asWritten = sorted es := by
  have hsorted := keysApart_sorted h
  have hspelled : (sorted es).map (fun p => (Key.text p.1.writtenText, p.2)) = sorted es := by
    conv => rhs; rw [← List.map_id (sorted es)]
    refine List.map_congr_left fun p hp => ?_
    obtain ⟨s, hs⟩ := text_of_keysApart hsorted hp
    rw [hs, Key.writtenText_text, ← hs]
    rfl
  rw [asWritten, spelled, sortMembers?_eq h, Option.getD_some, hspelled, ofPairs_eq_self hsorted]

theorem get?_asWritten {es : Entries} (h : keysApart es = true) (n : String) :
    get? (.text n) es.asWritten = get? (.text n) es := by
  rw [asWritten_eq_sorted h, get?_sorted h]

theorem without_asWritten {es : Entries} (h : keysApart es = true) (names : List String) :
    es.asWritten.without names = asWritten (es.without names) := by
  have hrest : keysApart (es.without names) = true :=
    keysApart_of_sublist h List.filter_sublist
  rw [asWritten_eq_sorted h, without_sorted h, asWritten_eq_sorted hrest]

end Entries

namespace Value

mutual

/-- A value as its stored form is read. -/
def reread : Value → Value
  | list items => list (rereadItems items)
  | object es => object (Entries.asWritten (rereadMembers es))
  | v => v
termination_by structural v => v

def rereadItems : List Value → List Value
  | [] => []
  | v :: rest => reread v :: rereadItems rest
termination_by structural vs => vs

def rereadMembers : List (Key × Value) → List (Key × Value)
  | [] => []
  | (k, v) :: rest => (k, reread v) :: rereadMembers rest
termination_by structural es => es

end

theorem rereadItems_eq_map (items : List Value) : rereadItems items = items.map reread := by
  induction items with
  | nil => rfl
  | cons v rest ih => rw [rereadItems, ih, List.map_cons]

theorem rereadMembers_eq_mapValues (es : Entries) : rereadMembers es = mapValues reread es := by
  induction es with
  | nil => rfl
  | cons p rest ih =>
    obtain ⟨k, v⟩ := p
    rw [rereadMembers, ih]
    rfl

@[simp] theorem reread_list (items : List Value) :
    (list items).reread = list (items.map reread) := by
  rw [reread, rereadItems_eq_map]

theorem reread_object (es : Entries) :
    (object es).reread = object (Entries.asWritten (mapValues reread es)) := by
  rw [reread, rereadMembers_eq_mapValues]

theorem reread_object_of_keysApart {es : Entries} (h : keysApart es = true) :
    (object es).reread = object (mapValues reread (Entries.sorted es)) := by
  rw [reread_object, Entries.asWritten_eq_sorted (by rw [Entries.keysApart_mapValues]; exact h),
    Entries.sorted_mapValues]

/-- **Where keys are texts and apart, rereading only orders.** -/
theorem Within.reread_eq_ordered {t : Terms} (hapart : t.apart) {room : Nat} {v : Value}
    (h : v.Within t room) : v.reread = v.ordered := by
  induction h with
  | scalar h => cases h <;> rfl
  | list _ ih => rw [reread_list, ordered_list, List.map_congr_left ih]
  | object keys _ ih =>
    rw [reread_object_of_keysApart (keys.apart hapart), ordered_object]
    refine congrArg Value.object (Entries.mapValues_congr fun p hp => ?_)
    exact ih p ((Entries.sorted_perm _).mem_iff.mp hp)

end Value

namespace Json

open Value (Within)

variable {t : Terms} {room : Nat} {v : Value} {l : Layout}

/-! ## What was written -/

theorem forall₂_of_mapM_eq_ok {ε α β : Type} {f : α → Except ε β} {xs : List α} {ys : List β}
    (h : xs.mapM f = .ok ys) : List.Forall₂ (fun y x => x ∈ xs ∧ f x = .ok y) ys xs := by
  induction xs generalizing ys with
  | nil =>
    cases h
    exact .nil
  | cons x xs ih =>
    rw [List.mapM_cons] at h
    obtain ⟨y, hy, h⟩ := bind_eq_ok_iff.mp h
    obtain ⟨zs, hzs, h⟩ := bind_eq_ok_iff.mp h
    cases h
    exact .cons ⟨List.mem_cons_self, hy⟩
      ((ih hzs).imp fun _ _ h => ⟨List.mem_cons_of_mem _ h.1, h.2⟩)

theorem exists_of_forall₂_of_mem {α β : Type} {R : α → β → Prop} {P : β → Prop} {xs : List α}
    {ys : List β} (h : List.Forall₂ (fun x y => P y ∧ R x y) xs ys) {x : α} (hx : x ∈ xs) :
    ∃ y, P y ∧ R x y := by
  induction h with
  | nil => exact absurd hx List.not_mem_nil
  | @cons _ y _ _ hy _ ih =>
    rcases List.mem_cons.mp hx with rfl | hx
    · exact ⟨y, hy⟩
    · exact ih hx

variable (l) in
def WrittenMember (inside : Bool) (level : Nat) (text : List Char) (p : Key × Value) : Prop :=
  ∃ key cs, keyText p.1 = .ok key ∧ write l inside level p.2 = .ok cs ∧
    text = memberText l key cs

theorem exists_of_write_object (hl : l.sortKeys = true) {inside : Bool} {level : Nat}
    {es : Entries} {text : List Char} (h : write l inside level (.object es) = .ok text) :
    ∃ sorted parts, sortMembers? es = some sorted ∧
      List.Forall₂ (fun part p => p ∈ es ∧ WrittenMember l inside (level + 1) part p) parts sorted ∧
        text = bracketed l level '\x7b' '\x7d' parts := by
  rw [write, writeMembers_eq_mapValues, objectText] at h
  obtain ⟨arranged, harranged, h⟩ := bind_eq_ok_iff.mp h
  obtain ⟨parts, hparts, h⟩ := bind_eq_ok_iff.mp h
  cases h
  rw [arrange, if_pos hl, Entries.sortMembers?_mapValues] at harranged
  cases hsorted : sortMembers? es with
  | none =>
    rw [hsorted] at harranged
    cases harranged
  | some sorted =>
    rw [hsorted] at harranged
    cases harranged
    refine ⟨sorted, parts, rfl, ?_, rfl⟩
    rw [mapValues, List.mapM_map] at hparts
    refine (forall₂_of_mapM_eq_ok hparts).imp fun part p h => ?_
    obtain ⟨hp, hpart⟩ := h
    obtain ⟨key, hkey, hpart⟩ := bind_eq_ok_iff.mp hpart
    obtain ⟨cs, hcs, hpart⟩ := bind_eq_ok_iff.mp hpart
    exact ⟨(sortMembers?_perm hsorted).mem_iff.mp hp, key, cs, hkey, hcs,
      (Except.ok.inj hpart).symm⟩

theorem exists_of_write_list {inside : Bool} {level : Nat} {items : List Value} {text : List Char}
    (h : write l inside level (.list items) = .ok text) :
    ∃ parts, List.Forall₂
        (fun part v => v ∈ items ∧ write l inside (level + 1) v = .ok part) parts items ∧
      text = bracketed l level '[' ']' parts := by
  rw [write, writeItems_eq_mapM] at h
  obtain ⟨parts, hparts, rfl⟩ := map_eq_ok_iff.mp h
  exact ⟨parts, forall₂_of_mapM_eq_ok hparts, rfl⟩

theorem integer_of_integerText {i : Int} {text : List Char} (h : integerText i = .ok text) :
    Decimal.isExchangeable i = true ∧ text = Decimal.integer i := by
  rw [integerText] at h
  split at h
  · rename_i hi
    exact ⟨hi, (Except.ok.inj h).symm⟩
  · exact nomatch h

/-! ## What is read -/

/-- **A written value is read back as it is reread**, if its keys were sorted. -/
theorem readsAs_of_write (hl : l.sortKeys = true) (h : v.Within t room) {inside : Bool}
    {level : Nat} {text : List Char} (hwrite : write l inside level v = .ok text) :
    ReadsAs room text v.reread := by
  induction h generalizing level text with
  | scalar h =>
    cases h with
    | null =>
      cases hwrite
      exact readsAs_null _
    | bool b =>
      cases hwrite
      exact readsAs_bool _ b
    | int _ =>
      obtain ⟨hi, rfl⟩ := integer_of_integerText hwrite
      exact readsAs_integer _ hi
    | float h =>
      cases hwrite
      exact readsAs_floatText _ h
    | text s =>
      cases hwrite
      exact readsAs_text _ s
  | list _ ih =>
    obtain ⟨parts, hparts, rfl⟩ := exists_of_write_list hwrite
    rw [Value.reread_list]
    refine ReadsAs.list (List.forall₂_map_right_iff.mpr (hparts.imp fun part v h => ?_))
    exact ih v h.1 h.2
  | @object room es keys _ ih =>
    obtain ⟨sorted, parts, hsorted, hparts, rfl⟩ := exists_of_write_object hl hwrite
    rw [Value.reread_object, Entries.asWritten, Entries.spelled, Entries.sortMembers?_mapValues,
      hsorted, Option.map_some, Option.getD_some, mapValues, List.map_map]
    refine ReadsAs.object (List.forall₂_map_right_iff.mpr (hparts.imp fun part p h => ?_))
    obtain ⟨hp, key, cs, hkey, hcs, rfl⟩ := h
    refine ⟨_, cs, rfl, ?_, ih p hp hcs⟩
    rw [Key.writtenText_eq hkey, String.toList_ofList]

theorem readsAs_write (h : v.Within t room) {inside : Bool} {level : Nat} {text : List Char}
    (hwrite : write .stored inside level v = .ok text) : ReadsAs room text v.reread :=
  readsAs_of_write rfl h hwrite

/-! ## Bytes -/

theorem toNat_hexDigit_ge : ∀ d, d < 16 → 0x20 ≤ (Text.hexDigit d).toNat := by
  decide +kernel

theorem toNat_ge_of_mem_escapeChar {c d : Char} (h : d ∈ escapeChar c) : 0x20 ≤ d.toNat := by
  have hlit : ∀ x ∈ ['\\', '"', 'n', 'r', 't', 'b', 'f', 'u', '0'], 0x20 ≤ x.toNat := by simp
  have hpair : ∀ {x}, x ∈ ['\\', '"', 'n', 'r', 't', 'b', 'f', 'u', '0'] → d ∈ ['\\', x] →
      0x20 ≤ d.toNat := by
    intro x hx hd
    rcases List.mem_cons.mp hd with rfl | hd
    · exact hlit _ (by decide)
    · exact hlit d (List.mem_singleton.mp hd ▸ hx)
  unfold escapeChar at h
  iterate 7
    split at h
    · exact hpair (by decide) h
  split at h
  · rename_i hcontrol
    rw [hexPadded_control hcontrol] at h
    simp only [List.mem_cons, List.not_mem_nil, or_false] at h
    rcases h with rfl | rfl | rfl | rfl | rfl | rfl
    iterate 4 exact hlit _ (by decide)
    · exact toNat_hexDigit_ge _ (by omega)
    · exact toNat_hexDigit_ge _ (by omega)
  · rw [List.mem_singleton.mp h]
    omega

theorem toNat_ge_of_mem_quote {cs : List Char} {d : Char} (h : d ∈ quote cs) :
    0x20 ≤ d.toNat := by
  rcases List.mem_cons.mp h with rfl | h
  · decide
  rcases List.mem_append.mp h with h | h
  · obtain ⟨c, -, hd⟩ := List.mem_flatMap.mp h
    exact toNat_ge_of_mem_escapeChar hd
  · rw [List.mem_singleton.mp h]
    decide

theorem mem_intercalate {c d : Char} {parts : List (List Char)}
    (h : d ∈ [c].intercalate parts) : d = c ∨ ∃ p ∈ parts, d ∈ p := by
  induction parts with
  | nil => exact absurd h List.not_mem_nil
  | cons p ps ih =>
    cases ps with
    | nil =>
      rw [List.intercalate_singleton] at h
      exact Or.inr ⟨p, List.mem_cons_self, h⟩
    | cons q ps =>
      rw [List.intercalate_cons_cons, List.mem_append, List.mem_append] at h
      rcases h with (h | h) | h
      · exact Or.inr ⟨p, List.mem_cons_self, h⟩
      · exact Or.inl (List.mem_singleton.mp h)
      · rcases ih h with h | ⟨q', hq', hd⟩
        · exact Or.inl h
        · exact Or.inr ⟨q', List.mem_cons_of_mem _ hq', hd⟩

theorem toNat_ge_of_mem_bracketed {level : Nat} {left right d : Char} {parts : List (List Char)}
    (hleft : 0x20 ≤ left.toNat) (hright : 0x20 ≤ right.toNat)
    (hparts : ∀ p ∈ parts, ∀ c ∈ p, 0x20 ≤ c.toNat)
    (h : d ∈ bracketed .stored level left right parts) : 0x20 ≤ d.toNat := by
  by_cases hne : parts = []
  · rw [hne] at h
    rcases List.mem_cons.mp h with rfl | h
    · exact hleft
    · rw [List.mem_singleton.mp h]
      exact hright
  · rw [bracketed_stored hne, List.mem_cons, List.mem_append] at h
    rcases h with rfl | h | h
    · exact hleft
    · rcases mem_intercalate h with rfl | ⟨p, hp, hd⟩
      · decide
      · exact hparts p hp d hd
    · rw [List.mem_singleton.mp h]
      exact hright

theorem toNat_ge_of_isDigit {c : Char} (h : Decimal.isDigit c = true) : 0x20 ≤ c.toNat := by
  rw [Decimal.isDigit, Bool.and_eq_true, decide_eq_true_eq] at h
  omega

theorem toNat_ge_of_mem_integer {i : Int} {c : Char} (h : c ∈ Decimal.integer i) :
    0x20 ≤ c.toNat := by
  cases i with
  | ofNat n => exact toNat_ge_of_isDigit (Decimal.isDigit_of_mem_digits h)
  | negSucc n =>
    rcases List.mem_cons.mp h with rfl | h
    · decide
    · exact toNat_ge_of_isDigit (Decimal.isDigit_of_mem_digits h)

theorem toNat_ge_of_mem_write (h : v.Within t room) {inside : Bool} {level : Nat}
    {text : List Char} (hwrite : write .stored inside level v = .ok text) :
    ∀ c ∈ text, 0x20 ≤ c.toNat := by
  induction h generalizing level text with
  | scalar h =>
    cases h with
    | null =>
      cases hwrite
      exact toNat_ge_of_all rfl
    | bool b =>
      cases hwrite
      cases b with
      | false => exact toNat_ge_of_all rfl
      | true => exact toNat_ge_of_all rfl
    | int _ =>
      obtain ⟨-, rfl⟩ := integer_of_integerText hwrite
      exact fun _ => toNat_ge_of_mem_integer
    | float h =>
      cases hwrite
      exact fun _ => toNat_ge_of_mem_floatText h
    | text s =>
      cases hwrite
      exact fun _ => toNat_ge_of_mem_quote
  | list _ ih =>
    obtain ⟨parts, hparts, rfl⟩ := exists_of_write_list hwrite
    refine fun c => toNat_ge_of_mem_bracketed (by decide) (by decide) fun part hpart => ?_
    obtain ⟨v, hv, hwritten⟩ := exists_of_forall₂_of_mem hparts hpart
    exact ih v hv hwritten
  | object _ _ ih =>
    obtain ⟨sorted, parts, -, hparts, rfl⟩ := exists_of_write_object rfl hwrite
    refine fun c => toNat_ge_of_mem_bracketed (by decide) (by decide) fun part hpart d hd => ?_
    obtain ⟨p, hp, key, cs, -, hcs, rfl⟩ := exists_of_forall₂_of_mem hparts hpart
    rw [memberText_stored, List.mem_append, List.mem_cons] at hd
    rcases hd with hd | rfl | hd
    · exact toNat_ge_of_mem_quote hd
    · decide
    · exact ih p hp hcs d hd

theorem toNat_lt_of_number {c : Char} {cs : List Char} (h : number (c :: cs) ≠ .error .notJson) :
    c.toNat < 0x80 := by
  rw [number.eq_def] at h
  split at h
  · rename_i heq
    rw [(List.cons.inj heq).1]
    decide
  · rename_i heq
    rw [(List.cons.inj heq).1]
    decide
  · obtain ⟨d, r, heq, hd⟩ := exists_digit_of_unsigned h
    rw [(List.cons.inj heq).1]
    rw [Decimal.isDigit, Bool.and_eq_true, decide_eq_true_eq, decide_eq_true_eq] at hd
    omega

theorem toNat_lt_of_comesTo {c : Char} {cs : List Char} {x : Except Error Value}
    (h : ComesTo room (c :: cs) x) : c.toNat < 0x80 := by
  have hread := h.value_eq (2 * cs.length + 1 + 1) [] (by rw [List.length_cons]; omega) rfl
  rw [List.append_nil, value.eq_def] at hread
  simp only at hread
  split at hread
  case h_9 =>
    have hnumber : number (c :: cs) ≠ .error .notJson := by
      intro hnumber
      rw [hnumber] at hread
      exact h.isJson.of_error (map_eq_error_iff.mp hread.symm) rfl
    exact toNat_lt_of_number hnumber
  all_goals
    rename_i heq
    rw [(List.cons.inj heq).1]
    decide

theorem decodeAny?_of_comesTo {text : List Char} {x : Except Error Value} (h : ComesTo room text x)
    (hchars : ∀ c ∈ text, 0x20 ≤ c.toNat) :
    Text.Encoding.decodeAny? (Utf8.encode text) = some text := by
  obtain ⟨c, cs, rfl, -⟩ := h.exists_cons
  refine Text.Encoding.decodeAny?_encode (toNat_lt_of_comesTo h) fun d hd => ?_
  have := hchars d hd
  omega

theorem decodeAny?_write (h : v.Within t room) {inside : Bool} {level : Nat} {text : List Char}
    (hwrite : write .stored inside level v = .ok text) :
    Text.Encoding.decodeAny? (Utf8.encode text) = some text :=
  decodeAny?_of_comesTo (readsAs_write h hwrite).comesTo (toNat_ge_of_mem_write h hwrite)

/-! ## Stored forms -/

variable {raw : Bytes}

theorem ne_nil_of_encodeWith (hl : l.sortKeys = true) (h : v.Within t room)
    (hraw : encodeWith l v = .ok raw) : raw ≠ [] := by
  obtain ⟨text, htext, rfl⟩ := map_eq_ok_iff.mp hraw
  obtain ⟨c, cs, rfl, -⟩ := (readsAs_of_write hl h htext).exists_cons
  exact fun hnil => List.cons_ne_nil c cs (Utf8.encode_injective (hnil.trans rfl))

theorem ne_nil_of_encode (h : v.Within t room) (hraw : encode v = .ok raw) : raw ≠ [] :=
  ne_nil_of_encodeWith rfl h hraw

/-- **A stored form is read as the value reread**, if there is room for its nesting. -/
theorem decodeWithin_of_encode (h : v.Within t room) (hraw : encode v = .ok raw) :
    decodeWithin room raw = .ok v.reread := by
  obtain ⟨text, htext, rfl⟩ := map_eq_ok_iff.mp hraw
  rw [decodeWithin, decodeAny?_write h htext]
  show (readWithin room text).mapError dataError = _
  rw [(readsAs_write h htext).comesTo.readWithin_eq]
  rfl

theorem decode_of_encode (h : v.Within t maxDepth) (hraw : encode v = .ok raw) :
    decode raw = .ok v.reread := decodeWithin_of_encode h hraw

/-- Whatever a stored form is read as, it is the value reread. -/
theorem eq_reread_of_decode {room' : Nat} {w : Value} (h : v.Within t room)
    (hraw : encode v = .ok raw) (hw : decodeWithin room' raw = .ok w) : w = v.reread := by
  obtain ⟨text, htext, rfl⟩ := map_eq_ok_iff.mp hraw
  rw [decodeWithin, decodeAny?_write h htext] at hw
  exact (readsAs_write h htext).eq_of_readWithin (mapError_eq_ok_iff.mp hw)

theorem reread_eq_of_encodeWith_eq {t' : Terms} {room' : Nat} {w : Value} (hl : l.sortKeys = true)
    (h : v.Within t room) (h' : w.Within t' room') (hraw : encodeWith l v = .ok raw)
    (hraw' : encodeWith l w = .ok raw) : v.reread = w.reread := by
  obtain ⟨text, htext, hbytes⟩ := map_eq_ok_iff.mp hraw
  obtain ⟨text', htext', hbytes'⟩ := map_eq_ok_iff.mp hraw'
  obtain rfl := Utf8.encode_injective (hbytes.trans hbytes'.symm)
  exact (readsAs_of_write hl h htext).unique (readsAs_of_write hl h' htext')

end Json

end RolloutLedger
