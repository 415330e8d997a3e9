import RolloutLedger.Json.Reader
import RolloutLedger.Json.Writer
import RolloutLedger.Proofs.Document.Within
/-! # Data of JSON

Whatever text is read, what it is read as is data of JSON: scalars, lists, and objects whose keys
are texts, no two of them equal.  It is nested no deeper than the reader goes, its integers can be
exchanged, and its doubles are doubles.  A text that is not read is not JSON, holds an integer with
too many digits, or is nested too deeply.

Data of JSON is written under every layout unless it holds an integer with too many digits, and
that is then the one failure; the layout in which data is stored has no other failure for any value.
-/

namespace RolloutLedger

open Entries (mapValues)

/-! ## What plain values are written as

Writing a plain value can fail for one reason only, an integer with too many digits somewhere
inside it.  Otherwise the text is a function of the value, given here by recursion on the value
alone.  A layout that sorts keys writes the ordered form.
-/

namespace Json

variable (l : Layout)

/-! ### The text of a plain value -/

mutual

/-- The text of a plain value at a level of nesting, its members in the order in which they
stand. -/
def printed (level : Nat) : Value → List Char
  | .null => "null".toList
  | .bool b => boolText b
  | .int i => Decimal.integer i
  | .text s => quote s.toList
  | .list items => bracketed l level '[' ']' (printedItems (level + 1) items)
  | .object es => bracketed l level '\x7b' '\x7d' (printedMembers (level + 1) es)
  | _ => []
termination_by structural v => v

def printedItems (level : Nat) : List Value → List (List Char)
  | [] => []
  | v :: rest => printed level v :: printedItems level rest
termination_by structural vs => vs

def printedMembers (level : Nat) : List (Key × Value) → List (List Char)
  | [] => []
  | (k, v) :: rest =>
    memberText l k.textOrNone.toList (printed level v) :: printedMembers level rest
termination_by structural es => es

end

theorem printedItems_eq_map (level : Nat) (items : List Value) :
    printedItems l level items = items.map (printed l level) := by
  induction items with
  | nil => rfl
  | cons v rest ih => rw [printedItems, ih, List.map_cons]

theorem printedMembers_eq_map (level : Nat) (es : Entries) :
    printedMembers l level es =
      es.map fun p => memberText l p.1.textOrNone.toList (printed l level p.2) := by
  induction es with
  | nil => rfl
  | cons p rest ih =>
    obtain ⟨k, v⟩ := p
    rw [printedMembers, ih, List.map_cons]

/-! ### Writing -/

def Layout.arranged (es : Entries) : Entries := if l.sortKeys then Entries.sorted es else es

def Layout.order (v : Value) : Value := if l.sortKeys then v.ordered else v

theorem Layout.order_list (items : List Value) :
    l.order (.list items) = .list (items.map l.order) := by
  unfold Layout.order
  by_cases h : l.sortKeys = true
  · simp only [if_pos h, Value.ordered_list]
  · simp only [if_neg h, List.map_id']

theorem Layout.order_object (es : Entries) :
    l.order (.object es) = .object (mapValues l.order (l.arranged es)) := by
  unfold Layout.order Layout.arranged
  by_cases h : l.sortKeys = true
  · simp only [if_pos h, Value.ordered_object]
  · simp only [if_neg h, mapValues, List.map_id']

theorem Layout.arranged_perm (es : Entries) : (l.arranged es).Perm es := by
  unfold Layout.arranged
  split
  · exact Entries.sorted_perm es
  · exact List.Perm.refl _

theorem arrange_eq {α : Type} {members : List (Key × α)}
    (h : Entries.keysApart members = true) :
    arrange l members = .ok (if l.sortKeys then Entries.sorted members else members) := by
  rw [arrange, Entries.sortMembers?_eq h]
  split <;> rfl

theorem writeItems_eq_mapM (inside : Bool) (level : Nat) (items : List Value) :
    writeItems l inside level items = items.mapM (write l inside level) := by
  induction items with
  | nil => rfl
  | cons v rest ih =>
    rw [writeItems, ih, List.mapM_cons]

theorem writeMembers_eq_mapValues (inside : Bool) (level : Nat) (es : Entries) :
    writeMembers l inside level es = mapValues (write l inside level) es := by
  induction es with
  | nil => rfl
  | cons p rest ih =>
    obtain ⟨k, v⟩ := p
    rw [writeMembers, ih]
    rfl

theorem objectText_mapValues {level : Nat} {es : Entries} (f : Value → Except Error (List Char))
    (h : Entries.keysApart es = true) :
    objectText l level (mapValues f es) =
      ((mapValues f (l.arranged es)).mapM (member l)).map
        (bracketed l level '\x7b' '\x7d') := by
  have hkeys : Entries.keysApart (mapValues f es) = true := by
    rw [Entries.keysApart_mapValues]
    exact h
  have harranged : (if l.sortKeys then Entries.sorted (mapValues f es) else mapValues f es) =
      mapValues f (l.arranged es) := by
    rw [Layout.arranged, Entries.sorted_mapValues]
    split <;> rfl
  rw [objectText, arrange_eq l hkeys, harranged]
  show (((mapValues f (l.arranged es)).mapM (member l)).bind fun parts =>
    .ok (bracketed l level '\x7b' '\x7d' parts)) = _
  cases (mapValues f (l.arranged es)).mapM (member l) <;> rfl

/-- **What writing a plain value does.**  Either every integer in it can be exchanged and its text
is written, or it has no encoding. -/
theorem write_of_isPlain (inside : Bool) (level : Nat) {v : Value} (h : v.isPlain = true) :
    write l inside level v =
      if v.isExchangeable then .ok (printed l level (l.order v)) else .error .unencodable := by
  induction v, h using Value.isPlain_induction generalizing level with
  | null =>
    unfold Layout.order
    cases l.sortKeys <;> rfl
  | bool b =>
    unfold Layout.order
    cases l.sortKeys <;> rfl
  | int i =>
    unfold Layout.order
    cases l.sortKeys <;> rfl
  | text s =>
    unfold Layout.order
    cases l.sortKeys <;> rfl
  | list items _ ih =>
    rw [write, writeItems_eq_mapM, mapM_of_ite fun v hv => ih v hv (level + 1),
      ← Value.isExchangeable_list, Layout.order_list, printed, printedItems_eq_map, List.map_map]
    split <;> rfl
  | object es hes ih =>
    have hall : (l.arranged es).all (fun p => p.2.isExchangeable) =
        (Value.object es).isExchangeable := by
      rw [(l.arranged_perm es).all_eq, ← Value.isExchangeable_object]
    have hmember : ∀ p ∈ l.arranged es,
        (member l ∘ fun p => (p.1, write l inside (level + 1) p.2)) p =
          if p.2.isExchangeable then
            .ok (memberText l p.1.textOrNone.toList (printed l (level + 1) (l.order p.2)))
          else .error .unencodable := by
      intro p hp
      have hp := (l.arranged_perm es).mem_iff.mp hp
      obtain ⟨s, hs⟩ := Entries.text_of_keysApart (Value.keysApart_of_isPlain hes) hp
      rw [Function.comp, member, hs, ih p hp]
      split <;> rfl
    rw [write, writeMembers_eq_mapValues, objectText_mapValues l _ (Value.keysApart_of_isPlain hes),
      mapValues, List.mapM_map, mapM_of_ite hmember, hall, Layout.order_object, printed,
      printedMembers_eq_map, mapValues, List.map_map]
    split <;> rfl

theorem encodeWith_of_isPlain {v : Value} (h : v.isPlain = true) :
    encodeWith l v = if v.isExchangeable then .ok (Utf8.encode (printed l 0 (l.order v)))
      else .error .unencodable := by
  rw [encodeWith, write_of_isPlain l false 0 h]
  split <;> rfl

end Json

/-! ## What is read, and how writing fails -/

inductive Value.IsJson : Value → Prop
  | null : IsJson .null
  | bool (b : Bool) : IsJson (.bool b)
  | int (i : Int) : IsJson (.int i)
  | float (x : Binary64) : IsJson (.float x)
  | text (s : String) : IsJson (.text s)
  | list {items : List Value} (h : ∀ v ∈ items, IsJson v) : IsJson (.list items)
  | object {es : Entries} (keys : Entries.keysApart es = true) (h : ∀ p ∈ es, IsJson p.2) :
    IsJson (.object es)

theorem Value.Within.isJson {t : Terms} (hapart : t.apart) {room : Nat} {v : Value}
    (h : v.Within t room) : v.IsJson := by
  induction h with
  | scalar h =>
    cases h with
    | null => exact .null
    | bool b => exact .bool b
    | int _ => exact .int _
    | float _ => exact .float _
    | text s => exact .text s
  | list _ ih => exact .list ih
  | object keys _ ih => exact .object (keys.apart hapart) ih

namespace Json

/-! ### Reading -/

inductive ReadFailure : Error → Prop
  | notJson : ReadFailure .notJson
  | unreadable : ReadFailure .unreadable
  | tooDeep : ReadFailure .tooDeep

theorem meets_textBody (cs : List Char) : Meets (fun _ => True) ReadFailure (textBody cs) := by
  unfold textBody
  cases textBody? cs with
  | none => exact .error .notJson
  | some p => exact .ok trivial

theorem isDigit_of_mem_whole {c : Char} {cs : List Char} (h : c ∈ (whole cs).1) :
    Decimal.isDigit c = true := by
  rw [whole.eq_def] at h
  split at h
  · rw [List.mem_singleton.mp h]
    rfl
  · exact List.mem_takeWhile_imp h

theorem meets_unsigned (negative : Bool) (room : Nat) (cs : List Char) :
    Meets (fun p => p.1.Within .exchange room) ReadFailure (unsigned negative cs) := by
  unfold unsigned
  simp only
  split
  · exact .error .notJson
  split
  · split
    · exact .error .unreadable
    · rename_i hlength
      have hlt := Decimal.value_lt_of_length_le (fun _ => isDigit_of_mem_whole)
        (Nat.le_of_not_lt hlength)
      refine .ok (.int (Decimal.isExchangeable_iff.mpr ?_))
      split
      · rwa [Int.natAbs_neg, Int.natAbs_natCast]
      · rwa [Int.natAbs_natCast]
  · exact .ok (.scalar (.float (Binary64.isDouble_ofDecimal _ _ _)))

theorem meets_number (room : Nat) (cs : List Char) :
    Meets (fun p => p.1.Within .exchange room) ReadFailure (number cs) := by
  unfold number
  split
  · exact .ok (.scalar (.float (.infinity _)))
  · exact meets_unsigned _ _ _
  · exact meets_unsigned _ _ _

/-- What the reader comes to, at a value, in a list, and in an object. -/
theorem meets_value {fuel : Nat} : ∀ (room : Nat) (cs : List Char),
    Meets (fun p => p.1.Within .exchange room) ReadFailure (value fuel room cs) ∧
      Meets (fun p => ∀ v ∈ p.1, v.Within .exchange room) ReadFailure (items fuel room cs) ∧
      Meets (fun p => ∀ q ∈ p.1, (∃ n, q.1 = .text n) ∧ q.2.Within .exchange room) ReadFailure
        (members fuel room cs) := by
  induction fuel with
  | zero => exact fun _ _ => ⟨.error .notJson, .error .notJson, .error .notJson⟩
  | succ fuel ih =>
    intro room cs
    refine ⟨?_, ?_, ?_⟩
    · rw [value.eq_def]
      simp only
      split
      · exact (meets_textBody _).map fun _ _ => .text _
      · by_cases hroom : room = 0
        · rw [if_pos hroom]
          exact .error .tooDeep
        obtain ⟨room, rfl⟩ := Nat.exists_eq_add_one_of_ne_zero hroom
        rw [if_neg hroom]
        split
        · exact .ok (.list fun v hv => absurd hv List.not_mem_nil)
        · exact (ih room _).2.1.map fun p hp => .list hp
      · by_cases hroom : room = 0
        · rw [if_pos hroom]
          exact .error .tooDeep
        obtain ⟨room, rfl⟩ := Nat.exists_eq_add_one_of_ne_zero hroom
        rw [if_neg hroom]
        split
        · exact .ok (.object (.of_keysApart rfl) fun p hp => absurd hp List.not_mem_nil)
        · refine (ih room _).2.2.map fun p hp => ?_
          obtain ⟨hkeys, hvalues⟩ := Entries.keysApart_ofPairs fun q hq => (hp q hq).1
          refine .object (.of_keysApart hkeys) fun q hq => ?_
          obtain ⟨q', hq', hvalue⟩ := hvalues q hq
          rw [hvalue]
          exact (hp q' hq').2
      · exact .ok .null
      · exact .ok (.scalar (.bool _))
      · exact .ok (.scalar (.bool _))
      · exact .ok (.scalar (.float .nan))
      · exact .ok (.scalar (.float (.infinity _)))
      · exact meets_number _ _
    · rw [items]
      refine (ih room cs).1.bind fun p hp => ?_
      simp only
      split
      · refine (ih room _).2.1.map fun q hq => ?_
        exact List.forall_mem_cons.mpr ⟨hp, hq⟩
      · refine .ok fun v hv => ?_
        rw [List.mem_singleton.mp hv]
        exact hp
      · exact .error .notJson
    · rw [members.eq_def]
      simp only
      split
      · refine (meets_textBody _).bind fun p _ => ?_
        split
        · refine (ih room _).1.bind fun q hq => ?_
          split
          · refine (ih room _).2.2.map fun ms hms => ?_
            exact List.forall_mem_cons.mpr ⟨⟨⟨_, rfl⟩, hq⟩, hms⟩
          · refine .ok fun m hm => ?_
            rw [List.mem_singleton.mp hm]
            exact ⟨⟨_, rfl⟩, hq⟩
          · exact .error .notJson
        · exact .error .notJson
      · exact .error .notJson

/-- **What texts are read as.** -/
theorem meets_readWithin (room : Nat) (cs : List Char) :
    Meets (fun v => v.Within .exchange room) ReadFailure (readWithin room cs) := by
  unfold readWithin
  refine (meets_value _ _).1.bind fun p hp => ?_
  simp only
  split
  · exact .ok hp
  · exact .error .notJson

inductive DecodeFailure : Error → Prop
  | undecodable : DecodeFailure .undecodable
  | unreadable : DecodeFailure .unreadable
  | tooDeep : DecodeFailure .tooDeep

/-- **What stored data is decoded as.** -/
theorem meets_decodeWithin (room : Nat) (raw : Bytes) :
    Meets (fun v => v.Within .exchange room) DecodeFailure (decodeWithin room raw) := by
  unfold decodeWithin
  split
  · refine (meets_readWithin _ _).mapError fun e he => ?_
    cases he with
    | notJson => exact .undecodable
    | unreadable => exact .unreadable
    | tooDeep => exact .tooDeep
  · exact .error .undecodable

theorem meets_decode (raw : Bytes) :
    Meets (fun v => v.Within .exchange maxDepth) DecodeFailure (decode raw) :=
  meets_decodeWithin maxDepth raw

theorem within_of_decode {raw : Bytes} {v : Value} (h : decode raw = .ok v) :
    v.Within .exchange maxDepth := (meets_decode raw).of_ok h

theorem isJson_of_decode {raw : Bytes} {v : Value} (h : decode raw = .ok v) : v.IsJson :=
  (within_of_decode h).isJson trivial

/-! ### Writing -/

theorem sortMembers?_perm {α : Type} {members sorted : List (Key × α)}
    (h : sortMembers? members = some sorted) : sorted.Perm members := by
  unfold sortMembers? at h
  split at h
  · exact nomatch h
  split at h
  · cases h
    exact arrangeBy_perm _ _
  · cases h
    exact sortBy_perm _ _

theorem meets_arrange {α : Type} (l : Layout) (members : List (Key × α)) :
    Meets (fun arranged => arranged.Perm members) (· = .unencodable) (arrange l members) := by
  unfold arrange
  split
  · split
    · rename_i sorted hsorted
      exact .ok (sortMembers?_perm hsorted)
    · exact .error rfl
  · exact .ok (List.Perm.refl _)

/-- A text is there, or there is no encoding. -/
def IsWritten {α : Type} : Except Error α → Prop := Meets (fun _ => True) (· = .unencodable)

theorem isWritten_integerText (i : Int) : IsWritten (integerText i) := by
  unfold integerText
  split
  · exact .ok trivial
  · exact .error rfl

theorem isWritten_keyText (k : Key) : IsWritten (keyText k) := by
  cases k with
  | text _ | null | bool _ | float _ => exact .ok trivial
  | int i => exact isWritten_integerText i
  | bytes _ | instant _ _ | options _ | sealed => exact .error rfl

/-- An object fails to be written as one of its members does, or because its keys have no order or
no text. -/
theorem isWritten_objectText (l : Layout) (level : Nat)
    {members : List (Key × Except Error (List Char))} (h : ∀ p ∈ members, IsWritten p.2) :
    IsWritten (objectText l level members) := by
  unfold objectText
  refine (meets_arrange l members).bind fun arranged hperm => ?_
  refine (Meets.mapM (R := fun _ => True) fun p hp => ?_).bind fun _ _ => .ok trivial
  refine (isWritten_keyText p.1).bind fun _ _ => ?_
  exact (h p (hperm.mem_iff.mp hp)).bind fun _ _ => .ok trivial

/-- **Why a document is not written.**  In the layout for data, and for data of JSON in every
layout, there is one failure only. -/
theorem isWritten_write (l : Layout) (inside : Bool) (level : Nat) :
    ∀ (v : Value), l.standIns = false ∨ v.IsJson → IsWritten (write l inside level v)
  | .null, _ | .bool _, _ | .float _, _ | .text _, _ => .ok trivial
  | .int i, _ => isWritten_integerText i
  | .list items, h => by
    rw [write, writeItems_eq_mapM]
    refine (Meets.mapM (R := fun _ => True) fun v hv => ?_).map fun _ _ => trivial
    refine isWritten_write l inside (level + 1) v (h.imp id fun hjson => ?_)
    cases hjson with
    | list hitems => exact hitems v hv
  | .object es, h => by
    rw [write, writeMembers_eq_mapValues]
    refine isWritten_objectText l level fun q hq => ?_
    obtain ⟨p, hp, rfl⟩ := Entries.mem_mapValues.mp hq
    refine isWritten_write l inside (level + 1) p.2 (h.imp id fun hjson => ?_)
    cases hjson with
    | object _ hmembers => exact hmembers p hp
  | .bytes _, h | .instant _ _, h | .set _, h | .options _, h | .record _ _, h | .broken _, h => by
    -- what is no data of JSON is left to layouts that have stand-ins
    obtain hlayout | hjson := h
    · rw [write]
      simp only [hlayout]
      exact .error rfl
    · cases hjson
  | .resource _ _ _, h => by
    obtain hlayout | hjson := h
    · rw [write, if_pos (by rw [hlayout]; rfl)]
      exact .error rfl
    · cases hjson
  | .sealed, _ => .error rfl
termination_by v => sizeOf v
decreasing_by
  · have := List.sizeOf_lt_of_mem hv
    simp only [Value.list.sizeOf_spec]
    omega
  · have := List.sizeOf_lt_of_mem hp
    obtain ⟨k, v⟩ := p
    simp only [Value.object.sizeOf_spec, Prod.mk.sizeOf_spec] at this ⊢
    omega

end Json

end RolloutLedger
