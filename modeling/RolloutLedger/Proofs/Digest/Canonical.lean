import RolloutLedger.Digest
import RolloutLedger.Proofs.Json.RoundTrip
/-! # Canonical forms

Plain content has a canonical form unless it holds an integer with too many digits.  Under options
that sort keys the canonical form says which content it is, up to the order of members: whatever
else differs shows in the bytes.  So digests taken with sorted keys depend on the content only.
-/

namespace RolloutLedger.Digest

open Entries (field)

variable {o : HashOptions} {a b v : Value} {bytes : Bytes}

/-- **What bringing plain content into canonical form does.** -/
theorem canonical_of_isPlain (o : HashOptions) (h : v.isPlain = true) :
    canonical o v =
      if v.isExchangeable then .ok (Utf8.encode (Json.printed o.layout 0 (o.layout.order v)))
      else .error (.notCanonical v.kind) := by
  rw [canonical, Json.encodeWith_of_isPlain o.layout h]
  split
  · rfl
  · rfl

theorem exists_canonicalBytes (o : HashOptions) (h : v.isPlain = true)
    (hexchangeable : v.isExchangeable = true) : ∃ bytes, canonical o v = .ok bytes := by
  rw [canonical_of_isPlain o h, if_pos hexchangeable]
  exact ⟨_, rfl⟩

theorem canonical_eq_ok_iff : canonical o v = .ok bytes ↔ Json.encodeWith o.layout v = .ok bytes :=
  mapError_eq_ok_iff

/-- Data of JSON that can be exchanged has a canonical form, however its parts are laid out. -/
theorem exists_canonical_of_within {room : Nat} (o : HashOptions) (h : v.Within .exchange room) :
    ∃ bytes, canonical o v = .ok bytes := by
  obtain ⟨text, htext⟩ := (Json.meets_write h o.layout false 0).exists_ok
  exact ⟨_, canonical_eq_ok_iff.mpr (map_eq_ok_iff.mpr ⟨text, htext, rfl⟩)⟩

theorem exists_valueHash {room : Nat} (o : HashOptions) (h : v.Within .exchange room) :
    ∃ hash, valueHash o v = .ok hash := by
  obtain ⟨bytes, hbytes⟩ := exists_canonical_of_within o h
  rw [valueHash, hbytes]
  exact ⟨_, rfl⟩

theorem isExchangeable_of_canonical (h : v.isPlain = true) (hbytes : canonical o v = .ok bytes) :
    v.isExchangeable = true :=
  Json.isExchangeable_of_encodeWith h (canonical_eq_ok_iff.mp hbytes)

theorem canonical_ne_nil (ho : o.sortKeys = true) (h : v.isPlain = true)
    (hbytes : canonical o v = .ok bytes) : bytes ≠ [] :=
  Json.ne_nil_of_encodeWith ho (Value.Within.of_isPlain h) (canonical_eq_ok_iff.mp hbytes)

theorem isJson_of_isPlain (h : v.isPlain = true) : v.IsJson :=
  (Value.Within.of_isPlain h).isJson trivial

theorem kind_ordered (v : Value) : v.ordered.kind = v.kind := by
  cases v <;> rfl

theorem canonical_ordered (o : HashOptions) (h : v.IsJson) :
    canonical o v.ordered = canonical ⟨true, o.indent⟩ v := by
  rw [canonical, canonical, kind_ordered, Json.encodeWith, Json.encodeWith, HashOptions.layout,
    HashOptions.layout, Json.write_ordered h]

theorem valueHash_ordered (o : HashOptions) (h : v.IsJson) :
    valueHash o v.ordered = valueHash ⟨true, o.indent⟩ v := by
  rw [valueHash, valueHash, canonical_ordered o h]

theorem map_ordered_of_sameItems {xs : List Value}
    (ih : ∀ x ∈ xs, ∀ {y : Value}, Value.sameJson x y = true → x.ordered = y.ordered) :
    ∀ {ys : List Value}, Value.sameItems xs ys = true →
      xs.map Value.ordered = ys.map Value.ordered := by
  induction xs with
  | nil =>
    intro ys h
    cases ys with
    | nil => rfl
    | cons y ys => exact Bool.noConfusion h
  | cons x xs hrest =>
    intro ys h
    cases ys with
    | nil => exact Bool.noConfusion h
    | cons y ys =>
      rw [Value.sameItems, Bool.and_eq_true] at h
      rw [List.map_cons, List.map_cons, ih x List.mem_cons_self h.1,
        hrest (fun x hx => ih x (List.mem_cons_of_mem _ hx)) h.2]

/-- What is the same JSON has one ordered form; no more is asked of the second value. -/
theorem ordered_eq_of_sameJson (ha : a.IsJson) (h : Value.sameJson a b = true) :
    a.ordered = b.ordered := by
  induction ha generalizing b with
  | null => cases b <;> simp_all [Value.sameJson]
  | bool x => cases b <;> simp_all [Value.sameJson]
  | int i => cases b <;> simp_all [Value.sameJson]
  | float x => cases b <;> simp_all [Value.sameJson]
  | text s => cases b <;> simp_all [Value.sameJson]
  | list _ ih =>
    cases b with
    | list ys =>
      rw [Value.sameJson] at h
      rw [Value.ordered_list, Value.ordered_list, map_ordered_of_sameItems ih h]
    | _ => exact Bool.noConfusion h
  | object keys _ ih =>
    cases b with
    | object fs =>
      rw [Value.sameJson, Bool.and_eq_true, beq_iff_eq, Value.sameMembers_iff] at h
      obtain ⟨hlength, hmembers⟩ := h
      rw [Value.ordered_object, Value.ordered_object, Value.object.injEq,
        Value.sorted_mapValues_eq_iff keys]
      refine ⟨hlength, fun p hp => ?_⟩
      obtain ⟨q, hq, hkey, hvalue⟩ := hmembers p hp
      exact ⟨q, hq, hkey, ih p hp hvalue⟩
    | _ => exact Bool.noConfusion h

/-- With sorted keys the same JSON has the same canonical form, or none for the same reason. -/
theorem canonical_congr (ho : o.sortKeys = true) (ha : a.IsJson) (hb : b.IsJson)
    (h : Value.sameJson a b = true) : canonical o a = canonical o b := by
  have hordered : ∀ v : Value, v.IsJson → canonical o v.ordered = canonical o v := by
    intro v hv
    rw [canonical_ordered o hv, ← ho]
  calc canonical o a = canonical o a.ordered := (hordered a ha).symm
    _ = canonical o b.ordered := by rw [ordered_eq_of_sameJson ha h]
    _ = canonical o b := hordered b hb

/-- Two canonical forms with sorted keys are equal exactly if they are forms of the same JSON. -/
theorem eq_iff_sameJson {x y : Bytes} (ho : o.sortKeys = true) (ha : a.isPlain = true)
    (hb : b.isPlain = true) (hx : canonical o a = .ok x) (hy : canonical o b = .ok y) :
    x = y ↔ Value.sameJson a b = true :=
  Json.encodeWith_eq_iff_sameJson ho ha hb (canonical_eq_ok_iff.mp hx) (canonical_eq_ok_iff.mp hy)

/-- **Canonical bytes identify content.**  Let keys be sorted, with whatever indent.  Plain content
has canonical bytes, unless it holds an integer with too many digits, which is then the failure.
Other plain content has the same bytes exactly if it is the same JSON: the same scalars of the same
types, the same items place by place, the same members in whatever order at every depth. -/
theorem canonical_eq_iff_sameJson (ho : o.sortKeys = true) (ha : a.isPlain = true)
    (hb : b.isPlain = true) :
    (a.isExchangeable = true → ∃ x, canonical o a = .ok x ∧
      (canonical o b = .ok x ↔ Value.sameJson a b = true)) ∧
    (a.isExchangeable = false → canonical o a = .error (.notCanonical a.kind)) := by
  constructor
  · intro hexchangeable
    obtain ⟨x, hx⟩ := exists_canonicalBytes o ha hexchangeable
    refine ⟨x, hx, ?_, ?_⟩
    · intro hy
      exact (eq_iff_sameJson ho ha hb hx hy).mp rfl
    · intro h
      rw [← canonical_congr ho (isJson_of_isPlain ha) (isJson_of_isPlain hb) h, hx]
  · intro hlarge
    rw [canonical_of_isPlain o ha, hlarge, if_neg Bool.false_ne_true]

def nestedContent (first second : Key × Value) : Value :=
  .object [field "a" (.list [.bool true, .int 1, .text "1"]), field "b" (.object [first, second])]

theorem canonical_eq_iff_sameJson_nested :
    ∃ x, canonical ⟨true, some 2⟩ (nestedContent (field "\"" .null) (field "\n" (.int (-7)))) =
        .ok x ∧
      canonical ⟨true, some 2⟩ (nestedContent (field "\n" (.int (-7))) (field "\"" .null)) =
        .ok x := by
  obtain ⟨hform, -⟩ := @canonical_eq_iff_sameJson ⟨true, some 2⟩
    (nestedContent (field "\"" .null) (field "\n" (.int (-7))))
    (nestedContent (field "\n" (.int (-7))) (field "\"" .null)) rfl rfl rfl
  obtain ⟨x, hx, hiff⟩ := hform (by decide +kernel)
  exact ⟨x, hx, hiff.mpr (by decide +kernel)⟩

/-- Scalars of different types are different content. -/
example : Value.sameJson (.bool true) (.int 1) = false ∧
    Value.sameJson (.int 1) (.text "1") = false := ⟨rfl, rfl⟩

end RolloutLedger.Digest
