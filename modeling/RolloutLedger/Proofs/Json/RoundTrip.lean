import RolloutLedger.Proofs.Json.Rereading
/-! # Stored forms

The stored form of a plain value is read as the value in its ordered form.  So writing forgets
nothing but the order of members: values with equal stored forms are the same JSON, and what was
read from a stored form is written as the same bytes again.
-/

namespace RolloutLedger

open Entries (keysApart mapValues text_of_keysApart)
open Value (Within)

/-! ## What a stored form is read as -/

theorem Value.within_of_isPlain {v : Value} (h : v.isPlain = true)
    (hexchangeable : v.isExchangeable = true) : v.Within .exchange v.depth :=
  .of_fits ⟨h, hexchangeable, Nat.le_refl _⟩

theorem Value.reread_eq_ordered {v : Value} (h : v.isPlain = true)
    (hexchangeable : v.isExchangeable = true) : v.reread = v.ordered :=
  (within_of_isPlain h hexchangeable).reread_eq_ordered trivial

namespace Json

variable {v w : Value} {raw : Bytes}

theorem meets_write {room : Nat} (h : v.Within .exchange room) (l : Layout) (inside : Bool)
    (level : Nat) : Meets (fun _ => True) (fun _ => False) (write l inside level v) := by
  induction h generalizing level with
  | scalar h =>
    cases h with
    | @int i h =>
      have hi : Decimal.isExchangeable i = true := h
      rw [write, integerText, if_pos hi]
      exact .ok trivial
    | null | bool _ | float _ | text _ => exact .ok trivial
  | list _ ih =>
    rw [write, writeItems_eq_mapM]
    refine (Meets.mapM (R := fun _ => True) fun v hv => ?_).map fun _ _ => trivial
    exact ih v hv (level + 1)
  | @object _ es keys _ ih =>
    rw [write, writeMembers_eq_mapValues, objectText_mapValues l _ (keys.apart trivial), mapValues,
      List.mapM_map]
    refine (Meets.mapM (R := fun _ => True) fun p hp => ?_).map fun _ _ => trivial
    have hp := (l.arranged_perm es).mem_iff.mp hp
    obtain ⟨s, hs⟩ := text_of_keysApart (keys.apart trivial) hp
    rw [Function.comp, member, hs]
    exact (ih p hp (level + 1)).bind fun _ _ => .ok trivial

/-- **Writing orders.**  A value in its ordered form is written as the value is with its keys
sorted, whether keys are sorted or not. -/
theorem write_ordered (h : v.IsJson) (sortKeys : Bool) (indent : Option Int)
    (standIns inside : Bool) (level : Nat) :
    write ⟨sortKeys, indent, standIns⟩ inside level v.ordered =
      write ⟨true, indent, standIns⟩ inside level v := by
  induction h generalizing level with
  | null | bool _ | int _ | float _ | text _ => rfl
  | list _ ih =>
    rw [Value.ordered_list, write, write, writeItems_eq_mapM, writeItems_eq_mapM, List.mapM_map]
    exact congrArg _ (mapM_congr fun v hv => ih v hv (level + 1))
  | @object es keys _ ih =>
    have hkeys : keysApart (mapValues Value.ordered (Entries.sorted es)) = true := by
      rw [Entries.keysApart_mapValues]
      exact Entries.keysApart_sorted keys
    -- the members stand in the order in which sorting would put them
    have harranged : Layout.arranged ⟨sortKeys, indent, standIns⟩
        (mapValues Value.ordered (Entries.sorted es)) =
          mapValues Value.ordered (Entries.sorted es) := by
      rw [Layout.arranged, Entries.sorted_mapValues, Entries.sorted_sorted keys, ite_self]
    have hvalues : mapValues (write ⟨sortKeys, indent, standIns⟩ inside (level + 1))
          (mapValues Value.ordered (Entries.sorted es)) =
        mapValues (write ⟨true, indent, standIns⟩ inside (level + 1)) (Entries.sorted es) := by
      rw [Entries.mapValues_mapValues]
      refine Entries.mapValues_congr fun p hp => ?_
      exact ih p ((Entries.sorted_perm es).mem_iff.mp hp) (level + 1)
    rw [Value.ordered_object, write, write, writeMembers_eq_mapValues, writeMembers_eq_mapValues,
      objectText_mapValues _ _ hkeys, objectText_mapValues _ _ keys, harranged, hvalues]
    rfl

theorem encode_ordered_eq (h : v.IsJson) : encode v.ordered = encode v :=
  congrArg (·.map Utf8.encode) (write_ordered h true none false false 0)

/-- **The round trip.**  Data that can be exchanged has a stored form, and the stored form is read
as the data in its ordered form. -/
theorem decodeWithin_encode_of_within {room : Nat} (h : v.Within .exchange room) :
    ∃ raw, encode v = .ok raw ∧ decodeWithin room raw = .ok v.ordered := by
  obtain ⟨text, htext⟩ := (meets_write h .stored false 0).exists_ok
  have hraw : encode v = .ok (Utf8.encode text) := map_eq_ok_iff.mpr ⟨text, htext, rfl⟩
  exact ⟨_, hraw, by rw [decodeWithin_of_encode h hraw, h.reread_eq_ordered trivial]⟩

theorem decode_encode_of_within (h : v.Within .exchange maxDepth) :
    ∃ raw, encode v = .ok raw ∧ decode raw = .ok v.ordered := decodeWithin_encode_of_within h

theorem decode_encode (h : v.Fits maxDepth) :
    ∃ raw, encode v = .ok raw ∧ decode raw = .ok v.ordered :=
  decode_encode_of_within (.of_fits h)

theorem isExchangeable_of_encodeWith {l : Layout} (h : v.isPlain = true)
    (hraw : encodeWith l v = .ok raw) : v.isExchangeable = true := by
  rw [encodeWith_of_isPlain l h] at hraw
  by_cases hv : v.isExchangeable = true
  · exact hv
  · rw [if_neg hv] at hraw
    exact nomatch hraw

theorem isExchangeable_of_encode (h : v.isPlain = true) (hraw : encode v = .ok raw) :
    v.isExchangeable = true := isExchangeable_of_encodeWith h hraw

theorem encodeWith_eq_ok {l : Layout} (hl : l.sortKeys = true) (h : v.isPlain = true)
    (hraw : encodeWith l v = .ok raw) : raw = Utf8.encode (printed l 0 v.ordered) := by
  have hexchangeable := isExchangeable_of_encodeWith h hraw
  rw [encodeWith_of_isPlain l h, if_pos hexchangeable, Layout.order, if_pos hl] at hraw
  exact (Except.ok.inj hraw).symm

theorem eq_ordered_of_decode {room : Nat} (h : v.isPlain = true) (hraw : encode v = .ok raw)
    (hw : decodeWithin room raw = .ok w) : w = v.ordered := by
  have hexchangeable := isExchangeable_of_encode h hraw
  rw [eq_reread_of_decode (Value.within_of_isPlain h hexchangeable) hraw hw,
    Value.reread_eq_ordered h hexchangeable]

/-- Writing what was read gives the bytes that were read, if they are a stored form. -/
theorem encode_ordered (h : v.isPlain = true) (hraw : encode v = .ok raw) :
    encode v.ordered = .ok raw := by
  have hwithin := Value.within_of_isPlain h (isExchangeable_of_encode h hraw)
  rw [encode_ordered_eq (hwithin.isJson trivial), hraw]

/-- **Sorted text decides.**  Two plain values have the same encoding under a layout that sorts
keys exactly if they are the same JSON. -/
theorem encodeWith_eq_iff_sameJson {l : Layout} (hl : l.sortKeys = true) {a b : Bytes}
    (hv : v.isPlain = true) (hw : w.isPlain = true) (ha : encodeWith l v = .ok a)
    (hb : encodeWith l w = .ok b) : a = b ↔ Value.sameJson v w = true := by
  have hv' := isExchangeable_of_encodeWith hv ha
  have hw' := isExchangeable_of_encodeWith hw hb
  rw [Value.sameJson_iff_ordered_eq hv hw]
  constructor
  · rintro rfl
    rw [← Value.reread_eq_ordered hv hv', ← Value.reread_eq_ordered hw hw']
    exact reread_eq_of_encodeWith_eq hl (Value.within_of_isPlain hv hv')
      (Value.within_of_isPlain hw hw') ha hb
  · intro h
    rw [encodeWith_eq_ok hl hv ha, encodeWith_eq_ok hl hw hb, h]

/-- **The stored form decides.**  Two plain values have the same stored form exactly if they are
the same JSON. -/
theorem encode_eq_iff_sameJson {a b : Bytes} (hv : v.isPlain = true) (hw : w.isPlain = true)
    (ha : encode v = .ok a) (hb : encode w = .ok b) :
    a = b ↔ Value.sameJson v w = true := encodeWith_eq_iff_sameJson rfl hv hw ha hb

end Json

/-! ## Stored forms are canonical

What was read from a stored form is written as the same bytes again.  Plain data has a stored form
just if its integers have not too many digits, and the stored form is read just if there is room
for its nesting.

A stored form is never taken for a text in another encoding: none of its bytes is zero, and it does
not begin with a byte-order mark.
-/

open Entries (field)

namespace Value

theorem ordered_eq_null_iff {v : Value} : v.ordered = .null ↔ v = .null := by
  cases v <;> simp [ordered]

/-! ### Nesting -/

theorem Within.depth_le {t : Terms} {room : Nat} {v : Value} (h : v.Within t room) :
    v.depth ≤ room := by
  induction h with
  | scalar h => cases h <;> exact Nat.zero_le _
  | list _ ih => exact depth_list_le_iff.mpr ih
  | object _ _ ih => exact depth_object_le_iff.mpr ih

theorem depth_le_of_ordered {v : Value} (h : v.isPlain = true) {room : Nat}
    (hordered : v.ordered.depth ≤ room) : v.depth ≤ room := by
  induction v, h using isPlain_induction generalizing room with
  | null | bool _ | int _ | text _ => exact Nat.zero_le _
  | list items _ ih =>
    rw [ordered_list] at hordered
    cases room with
    | zero => exact absurd hordered (Nat.not_succ_le_zero _)
    | succ room =>
      rw [depth_list_le_iff] at hordered ⊢
      exact fun v hv => ih v hv (hordered _ (List.mem_map_of_mem hv))
  | object es _ ih =>
    rw [ordered_object] at hordered
    cases room with
    | zero => exact absurd hordered (Nat.not_succ_le_zero _)
    | succ room =>
      rw [depth_object_le_iff] at hordered ⊢
      intro p hp
      have hp' := (Entries.sorted_perm es).mem_iff.mpr hp
      exact ih p hp (hordered _ (Entries.mem_mapValues.mpr ⟨p, hp', rfl⟩))

end Value

namespace Json

variable {v : Value} {raw : Bytes}

/-! ### Bytes -/

section Bytes

variable {t : Terms} {room : Nat}

theorem zero_not_mem_of_encode (h : v.Within t room) (hraw : encode v = .ok raw) : 0 ∉ raw := by
  obtain ⟨text, htext, rfl⟩ := map_eq_ok_iff.mp hraw
  refine Utf8.zero_not_mem_encode fun c hc => ?_
  have hprintable := toNat_ge_of_mem_write h htext c hc
  omega

theorem ofMark?_of_encode (h : v.Within t room) (hraw : encode v = .ok raw) :
    Text.Encoding.ofMark? raw = none := by
  obtain ⟨text, htext, rfl⟩ := map_eq_ok_iff.mp hraw
  have hreads := readsAs_write h htext
  obtain ⟨c, cs, rfl, -⟩ := hreads.exists_cons
  have hprintable := toNat_ge_of_mem_write h htext c List.mem_cons_self
  exact Text.Encoding.ofMark?_encode (toNat_lt_of_comesTo hreads.comesTo) (by omega) cs

end Bytes

/-! ### The text of a plain value -/

section Text

variable {l : Layout} {room : Nat}

/-- What a plain value is read back as: its ordered form, unless an integer in it has too many
digits. -/
def readBack (v : Value) : Except Error Value :=
  if v.isExchangeable then .ok v.ordered else .error .unreadable

theorem readBack_of_isExchangeable (h : v.isExchangeable = true) : readBack v = .ok v.ordered :=
  if_pos h

theorem readBack_of_not_isExchangeable (h : v.isExchangeable = false) :
    readBack v = .error .unreadable := by
  rw [readBack, h]
  exact if_neg Bool.false_ne_true

theorem readBack_list (items : List Value) :
    ((items.map readBack).mapM id).map .list = readBack (.list items) := by
  have hitems : items.mapM readBack =
      if items.all Value.isExchangeable then .ok (items.map Value.ordered)
        else .error .unreadable := mapM_of_ite fun _ _ => rfl
  rw [List.mapM_map, Function.id_comp, hitems, readBack, Value.isExchangeable_list,
    Value.ordered_list]
  split <;> rfl

theorem readBack_object {es : Entries} (h : keysApart es = true) :
    (gathered ((Entries.sorted es).map fun p => (p.1, readBack p.2))).map
        (fun ms => .object (Entries.ofPairs ms)) = readBack (.object es) := by
  have hmembers : gathered ((Entries.sorted es).map fun p => (p.1, readBack p.2)) =
      if (Entries.sorted es).all fun p => p.2.isExchangeable then
        .ok (mapValues Value.ordered (Entries.sorted es))
      else .error .unreadable := by
    rw [gathered, List.mapM_map]
    refine mapM_of_ite fun p _ => ?_
    rw [Function.comp, readBack]
    split <;> rfl
  have hkeys : keysApart (mapValues Value.ordered (Entries.sorted es)) = true := by
    rw [Entries.keysApart_mapValues]
    exact Entries.keysApart_sorted h
  rw [hmembers, (Entries.sorted_perm es).all_eq, readBack, Value.isExchangeable_object,
    Value.ordered_object]
  split
  · exact congrArg (fun ms => Except.ok (Value.object ms)) (Entries.ofPairs_eq_self hkeys)
  · rfl

/-- **What becomes of the text of a plain value**, given room for its nesting. -/
theorem comesTo_printed (h : v.isPlain = true) (hroom : v.depth ≤ room) (level : Nat) :
    ComesTo room (printed l level v.ordered) (readBack v) := by
  induction v, h using Value.isPlain_induction generalizing room level with
  | null => exact (readsAs_null room).comesTo
  | bool b => exact (readsAs_bool room b).comesTo
  | int i => exact comesTo_integer room i
  | text s => exact (readsAs_text room s).comesTo
  | list items _ ih =>
    cases room with
    | zero => exact absurd hroom (Nat.not_succ_le_zero _)
    | succ room =>
      rw [← readBack_list, Value.ordered_list, printed, printedItems_eq_map, List.map_map]
      refine ComesTo.list ?_
      rw [List.forall₂_map_left_iff, List.forall₂_map_right_iff, List.forall₂_same]
      exact fun v hv => ih v hv (Value.depth_list_le_iff.mp hroom v hv) (level + 1)
  | object es hes ih =>
    have hkeys := Value.keysApart_of_isPlain hes
    cases room with
    | zero => exact absurd hroom (Nat.not_succ_le_zero _)
    | succ room =>
      rw [← readBack_object hkeys, Value.ordered_object, printed, printedMembers_eq_map, mapValues,
        List.map_map]
      refine ComesTo.object (l := l) ?_
      rw [List.forall₂_map_left_iff, List.forall₂_map_right_iff, List.forall₂_same]
      intro p hp
      have hp := (Entries.sorted_perm es).mem_iff.mp hp
      obtain ⟨s, hs⟩ := text_of_keysApart hkeys hp
      refine ⟨s, printed l (level + 1) p.2.ordered, hs, by rw [Function.comp, hs]; rfl, ?_⟩
      exact ih p hp (Value.depth_object_le_iff.mp hroom p hp) (level + 1)

theorem toNat_ge_of_mem_printed (h : v.isPlain = true) (level : Nat) :
    ∀ c ∈ printed .stored level v, 0x20 ≤ c.toNat := by
  induction v, h using Value.isPlain_induction generalizing level with
  | null => exact toNat_ge_of_all rfl
  | bool b =>
    cases b with
    | false => exact toNat_ge_of_all rfl
    | true => exact toNat_ge_of_all rfl
  | int i => exact fun _ => toNat_ge_of_mem_integer
  | text s => exact fun _ => toNat_ge_of_mem_quote
  | list items _ ih =>
    rw [printed, printedItems_eq_map]
    refine fun c => toNat_ge_of_mem_bracketed (by decide) (by decide) ?_
    rw [List.forall_mem_map]
    exact fun v hv => ih v hv (level + 1)
  | object es _ ih =>
    rw [printed, printedMembers_eq_map]
    refine fun c => toNat_ge_of_mem_bracketed (by decide) (by decide) ?_
    rw [List.forall_mem_map]
    intro p hp d hd
    rw [memberText_stored, List.mem_append, List.mem_cons] at hd
    rcases hd with hd | rfl | hd
    · exact toNat_ge_of_mem_quote hd
    · decide
    · exact ih p hp (level + 1) d hd

/-- The bytes of the text of a plain value in the stored form, however many digits its integers
have. -/
def printedBytes (v : Value) : Bytes := Utf8.encode (printed .stored 0 v.ordered)

/-- **What the bytes of a plain value are decoded as**, given room for its nesting. -/
theorem decodeWithin_printedBytes (h : v.isPlain = true) (hroom : v.depth ≤ room) :
    decodeWithin room (printedBytes v) = readBack v := by
  have hcomes := comesTo_printed (l := .stored) h hroom 0
  have hchars := toNat_ge_of_mem_printed (Value.isPlain_ordered h) 0
  rw [decodeWithin, printedBytes, decodeAny?_of_comesTo hcomes hchars]
  show (readWithin room (printed .stored 0 v.ordered)).mapError dataError = _
  rw [hcomes.readWithin_eq, readBack]
  split <;> rfl

/-- With less room the decoder is cut short. -/
theorem curtails_decodeWithin {room' : Nat} (hroom : room ≤ room') (raw : Bytes) :
    Curtails .tooDeep (decodeWithin room raw) (decodeWithin room' raw) := by
  unfold decodeWithin
  split
  · exact (curtails_readWithin hroom _).mapError dataError
  · exact .refl _

/-- Without room for its nesting, what could be read is refused for its nesting. -/
theorem decodeWithin_printedBytes_of_lt (h : v.isPlain = true) (hv : v.isExchangeable = true)
    (hroom : room < v.depth) : decodeWithin room (printedBytes v) = .error .tooDeep := by
  have hread := decodeWithin_printedBytes h (Nat.le_refl _)
  rw [readBack_of_isExchangeable hv] at hread
  rcases curtails_decodeWithin (Nat.le_of_lt hroom) (printedBytes v) with hsame | hdeep
  · have hwithin := (meets_decodeWithin room _).of_ok (hsame.trans hread)
    exact absurd (Value.depth_le_of_ordered h hwithin.depth_le) (Nat.not_le_of_lt hroom)
  · exact hdeep

end Text

/-! ### The round trip -/

/-- **Decoding undoes encoding.**  Plain data has a stored form unless an integer in it has too many
digits.  With room for its nesting the stored form is read as the same data, apart from the order
of members, and what was read is written as the same bytes; with less room it is refused for its
nesting.  The bytes are taken for UTF-8, as there is neither a zero nor a byte-order mark.  Data
with too many digits is not written, and its text is refused for the digits as well; in no room is
it read. -/
theorem canonical_or_refused (h : v.isPlain = true) :
    (v.isExchangeable = true → ∃ raw, encode v = .ok raw ∧
      (∀ room, v.depth ≤ room → ∃ w, decodeWithin room raw = .ok w ∧ Value.sameJson w v = true ∧
        encode w = .ok raw) ∧
      (∀ room, room < v.depth → decodeWithin room raw = .error .tooDeep) ∧
      0 ∉ raw ∧ Text.Encoding.ofMark? raw = none ∧ Text.Encoding.ofZeros raw = .utf8) ∧
    (v.isExchangeable = false → encode v = .error .unencodable ∧
      (∀ room, v.depth ≤ room → decodeWithin room (printedBytes v) = .error .unreadable) ∧
      ∀ room w, decodeWithin room (printedBytes v) ≠ .ok w) := by
  have hencode : encode v = if v.isExchangeable then .ok (printedBytes v)
      else .error .unencodable := encodeWith_of_isPlain .stored h
  constructor
  · intro hv
    rw [if_pos hv] at hencode
    have hwithin := Value.within_of_isPlain h hv
    have hzero := zero_not_mem_of_encode hwithin hencode
    refine ⟨_, hencode, fun room hroom => ?_, fun room => decodeWithin_printedBytes_of_lt h hv,
      hzero, ofMark?_of_encode hwithin hencode, Text.Encoding.ofZeros_of_ne_zero hzero⟩
    refine ⟨v.ordered, ?_, Value.sameJson_ordered h, encode_ordered h hencode⟩
    rw [decodeWithin_printedBytes h hroom, readBack_of_isExchangeable hv]
  · intro hv
    rw [hv, if_neg Bool.false_ne_true] at hencode
    have hrefused : ∀ room, v.depth ≤ room →
        decodeWithin room (printedBytes v) = .error .unreadable := by
      intro room hroom
      rw [decodeWithin_printedBytes h hroom, readBack_of_not_isExchangeable hv]
    refine ⟨hencode, hrefused, fun room w hw => ?_⟩
    -- what was read in little room would be read in room enough
    have hmore := curtails_decodeWithin (Nat.le_max_left room v.depth) (printedBytes v)
    exact nomatch (hrefused _ (Nat.le_max_right room v.depth)).symm.trans (hmore.of_ok hw)

/-- Data of every kind, with texts of one character each that is written in its own way. -/
def assorted : Value :=
  .object [
    field "texts" (.list
      [.text "\"", .text "\\", .text "\n", .text "\x01", .text "\x7f", .text "ß", .text "𝄞"]),
    field "" (.object [field "none" .null, field "some" (.bool true)]),
    field "integers" (.list [.int (-120), .int 0, .int (10 ^ 30)])]

/-- An integer with too many digits, among data that could be read. -/
def overlong : Value := .list [.text "n", .object [field "n" (.int (10 ^ 4300))]]

theorem canonical_or_refused_assorted :
    (∃ raw w, encode assorted = .ok raw ∧ decodeWithin 2 raw = .ok w ∧
      Value.sameJson w assorted = true ∧ encode w = .ok raw ∧
      decodeWithin 1 raw = .error .tooDeep ∧ 0 ∉ raw ∧ Text.Encoding.ofMark? raw = none ∧
      Text.Encoding.ofZeros raw = .utf8) ∧
    encode overlong = .error .unencodable ∧
      decodeWithin 2 (printedBytes overlong) = .error .unreadable := by
  obtain ⟨raw, hraw, hread, hdeep, hbytes⟩ :=
    (canonical_or_refused (v := assorted) rfl).1 (by decide +kernel)
  obtain ⟨w, hw, hsame, hagain⟩ := hread 2 (by decide +kernel)
  have hplain : overlong.isPlain = true := by decide +kernel
  obtain ⟨hrefused, hlong, -⟩ := (canonical_or_refused hplain).2 (by decide +kernel)
  exact ⟨⟨raw, w, hraw, hw, hsame, hagain, hdeep 1 (by decide +kernel), hbytes⟩, hrefused,
    hlong 2 (by decide +kernel)⟩

/-- A plain integer of more digits than can be exchanged is neither written nor read. -/
theorem lost_beyond_digits :
    (Value.int (10 ^ 4300)).isPlain = true ∧
      ¬ ∃ raw room w, encode (.int (10 ^ 4300)) = .ok raw ∧ decodeWithin room raw = .ok w := by
  refine ⟨rfl, ?_⟩
  rintro ⟨raw, -, -, hraw, -⟩
  have hlong : (Value.int (10 ^ 4300)).isExchangeable = false := by decide +kernel
  exact Bool.noConfusion (hlong.symm.trans (isExchangeable_of_encode rfl hraw))

end Json

end RolloutLedger
