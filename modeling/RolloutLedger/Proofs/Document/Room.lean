import RolloutLedger.Proofs.Document.Members
import RolloutLedger.Proofs.Number.Decimal
/-! # What is read fits

What is read from a document that fits some levels of nesting fits as well: members and items one
level less, and integers are as short as the numerals they were read from.  Put together again
such parts fit the levels that the document fits.
-/

namespace RolloutLedger

open Entries (field fieldIf valueOr keysApart mapValues)

namespace Value

variable {room : Nat} {v : Value}

/-! ## Members and items -/

theorem Fits.valueOr {es : Entries} (h : Fits (room + 1) (object es)) (n : String) {d : Value}
    (hd : Fits room d) : Fits room (es.valueOr n d) := by
  rw [Entries.valueOr]
  cases hget : Entries.get? (.text n) es with
  | none => exact hd
  | some v => exact (Fits.object_iff.mp h).2 _ (Entries.mem_of_get? hget)

theorem isPlain_valueOr {es : Entries} (h : (object es).isPlain = true) (n : String) {d : Value}
    (hd : d.isPlain = true) : (es.valueOr n d).isPlain = true := by
  rw [Entries.valueOr]
  cases hget : Entries.get? (.text n) es with
  | none => exact hd
  | some v => exact isPlain_of_mem_object h (Entries.mem_of_get? hget)

theorem Fits.without {es : Entries} (h : Fits room (object es)) (names : List String) :
    Fits room (object (es.without names)) := by
  cases room with
  | zero => exact absurd h.shallow (Nat.not_succ_le_zero _)
  | succ room =>
    obtain ⟨hapart, hmembers⟩ := Fits.object_iff.mp h
    exact Fits.object_iff.mpr ⟨Entries.keysApart_of_sublist hapart List.filter_sublist,
      fun p hp => hmembers p (Entries.mem_without_iff.mp hp).1⟩

theorem Fits.orElse {d : Value} (h : Fits room v) (hd : Fits room d) : Fits room (v.orElse d) := by
  rw [Value.orElse]
  split
  · exact hd
  · exact h

theorem Fits.orEmpty (h : Fits (room + 1) v) : Fits (room + 1) v.orEmpty :=
  h.orElse (Fits.object_iff.mpr ⟨rfl, fun _ hp => absurd hp List.not_mem_nil⟩)

/-- The items that a plain value stands for are its own, or texts: the characters of a text and the
keys of an object. -/
theorem eq_text_or_mem_of_toItems {items : List Value} (h : v.isPlain = true)
    (hitems : v.toItems = .ok items) :
    ∀ x ∈ items, (∃ s, x = .text s) ∨ ∃ xs, v = .list xs ∧ x ∈ xs := by
  cases v with
  | list xs =>
    cases hitems
    exact fun x hx => Or.inr ⟨_, rfl, hx⟩
  | text s =>
    cases hitems
    intro x hx
    obtain ⟨c, -, rfl⟩ := List.mem_map.mp hx
    exact Or.inl ⟨_, rfl⟩
  | object es =>
    cases hitems
    intro x hx
    obtain ⟨p, hp, rfl⟩ := List.mem_map.mp hx
    obtain ⟨s, hs⟩ := Entries.text_of_keysApart (keysApart_of_isPlain h) hp
    rw [hs]
    exact Or.inl ⟨s, rfl⟩
  | null | bool _ | int _ => exact nomatch hitems
  | _ => exact Bool.noConfusion h

theorem Fits.of_toItems {items : List Value} (h : Fits (room + 1) v)
    (hitems : v.toItems = .ok items) : ∀ x ∈ items, Fits room x := by
  intro x hx
  rcases eq_text_or_mem_of_toItems h.plain hitems x hx with ⟨s, rfl⟩ | ⟨xs, rfl, hx⟩
  · exact .text s
  · exact Fits.list_iff.mp h x hx

theorem isPlain_orElse {d : Value} (h : v.isPlain = true) (hd : d.isPlain = true) :
    (v.orElse d).isPlain = true := by
  rw [Value.orElse]
  split
  · exact hd
  · exact h

theorem isPlain_of_itemsOrNone {items : List Value} (h : v.isPlain = true)
    (hitems : v.itemsOrNone = .ok items) : ∀ x ∈ items, x.isPlain = true := by
  have hv : (v.orElse (.list [])).isPlain = true := isPlain_orElse h rfl
  intro x hx
  rcases eq_text_or_mem_of_toItems hv hitems x hx with ⟨s, rfl⟩ | ⟨xs, hxs, hx⟩
  · rfl
  · rw [hxs] at hv
    exact isPlain_of_mem_list hv hx

theorem Fits.of_itemsOrNone {items : List Value} (h : Fits (room + 1) v)
    (hitems : v.itemsOrNone = .ok items) : ∀ x ∈ items, Fits room x :=
  (h.orElse (Fits.list_iff.mpr fun _ hx => absurd hx List.not_mem_nil)).of_toItems hitems

/-! ## Entries -/

theorem exists_mem_of_mem_ofPairs {pairs : List (Key × Value)} {q : Key × Value}
    (hq : q ∈ Entries.ofPairs pairs) : ∃ k, (k, q.2) ∈ pairs := by
  have hfold : ∀ (pairs : List (Key × Value)) (front : Entries),
      q ∈ pairs.foldl (fun es p => Entries.put p.1 p.2 es) front →
        (∃ k, (k, q.2) ∈ pairs) ∨ q ∈ front := by
    intro pairs
    induction pairs with
    | nil => exact fun front hq => Or.inr hq
    | cons p rest ih =>
      intro front hq
      rcases ih _ hq with ⟨k, hk⟩ | hfront
      · exact Or.inl ⟨k, List.mem_cons_of_mem _ hk⟩
      · rcases Entries.mem_of_mem_put hfront with hvalue | hfront
        · exact Or.inl ⟨p.1, by rw [hvalue]; exact List.mem_cons_self⟩
        · exact Or.inr hfront
  exact (hfold pairs [] hq).resolve_right List.not_mem_nil

theorem exists_key_of_mem_ofPairs {pairs : List (Key × Value)} {q : Key × Value}
    (hq : q ∈ Entries.ofPairs pairs) : ∃ v, (q.1, v) ∈ pairs := by
  have hfold : ∀ (pairs : List (Key × Value)) (front : Entries),
      q ∈ pairs.foldl (fun es p => Entries.put p.1 p.2 es) front →
        (∃ v, (q.1, v) ∈ pairs) ∨ ∃ w, (q.1, w) ∈ front := by
    intro pairs
    induction pairs with
    | nil => exact fun front hq => Or.inr ⟨q.2, hq⟩
    | cons p rest ih =>
      intro front hq
      rcases ih _ hq with ⟨v, hv⟩ | ⟨w, hw⟩
      · exact Or.inl ⟨v, List.mem_cons_of_mem _ hv⟩
      · rcases Entries.key_of_mem_put hw with hkey | hfront
        · have hkey : q.1 = p.1 := hkey
          exact Or.inl ⟨p.2, by rw [hkey]; exact List.mem_cons_self⟩
        · exact Or.inr hfront
  rcases hfold pairs [] hq with hpair | ⟨w, hw⟩
  · exact hpair
  · exact absurd hw List.not_mem_nil

theorem Fits.of_toMember {p : Key × Value} (h : Fits (room + 1) v) (hp : v.toMember = .ok p) :
    Fits room p.2 := by
  obtain ⟨items, hitems, hp⟩ := bind_eq_ok_iff.mp hp
  split at hp
  · obtain ⟨k, -, hp⟩ := bind_eq_ok_iff.mp hp
    cases hp
    exact h.of_toItems hitems _ (List.mem_cons_of_mem _ List.mem_cons_self)
  · exact nomatch hp

theorem Fits.of_entriesOrNone {es : Entries} (h : Fits (room + 1) v)
    (hes : v.entriesOrNone = .ok es) (hkeys : keysApart es = true) :
    Fits (room + 1) (object es) := by
  have hdoc := h.orEmpty
  rw [entriesOrNone] at hes
  generalize v.orEmpty = w at *
  -- the entries are those of an object, or pairs that were put one after the other
  have hpairs : (∃ pairs, (∃ items, w.toItems = .ok items ∧ items.mapM toMember = .ok pairs) ∧
      es = Entries.ofPairs pairs) ∨ w = object es := by
    cases w with
    | object fs =>
      cases hes
      exact Or.inr rfl
    | _ =>
      obtain ⟨items, hitems, hes⟩ := bind_eq_ok_iff.mp hes
      obtain ⟨pairs, hpairs, hes⟩ := bind_eq_ok_iff.mp hes
      cases hes
      exact Or.inl ⟨pairs, ⟨items, hitems, hpairs⟩, rfl⟩
  rcases hpairs with ⟨pairs, ⟨items, hitems, hpairs⟩, rfl⟩ | rfl
  · refine Fits.object_iff.mpr ⟨hkeys, fun q hq => ?_⟩
    obtain ⟨k, hk⟩ := exists_mem_of_mem_ofPairs hq
    obtain ⟨x, hx, hmember⟩ := exists_of_mapM_eq_ok hpairs _ hk
    have hx := (hdoc.of_toItems hitems x hx).mono (Nat.le_succ _)
    have hvalue : Fits _ (k, q.2).2 := hx.of_toMember hmember
    exact hvalue
  · exact hdoc

/-! ## Optional documents -/

theorem ok_of_optional {α : Type} {read : Value → Except Error α} {a : α}
    (h : v.optional read = .ok (some a)) : read v = .ok a := by
  by_cases hnull : v = Value.null
  · subst hnull
    exact nomatch h
  · rw [optional.eq_2 _ _ hnull] at h
    obtain ⟨b, hb, hab⟩ := map_eq_ok_iff.mp h
    cases hab
    exact hb

theorem Fits.of_optional {α : Type} {read : Value → Except Error α} {o : Option α}
    (h : Fits room v) (ho : v.optional read = .ok o) {a : α} (ha : o = some a) :
    ∃ w, Fits room w ∧ read w = .ok a :=
  ⟨v, h, ok_of_optional (ha ▸ ho)⟩

/-! ## Integers -/

theorem isExchangeable_of_integer? {s : String} {i : Int} (h : Text.integer? s = some i) :
    Decimal.isExchangeable i = true := by
  rw [Text.integer?] at h
  obtain ⟨ds, -, h⟩ := Option.bind_eq_some_iff.mp h
  split at h
  · exact nomatch h
  · rename_i hds
    rw [Bool.or_eq_true, Bool.or_eq_true, not_or, not_or, decide_eq_true_eq] at hds
    obtain ⟨⟨-, hdigits⟩, hlength⟩ := hds
    have hall : ∀ c ∈ ds, Decimal.isDigit c = true := by simpa using hdigits
    have hlt := Decimal.value_lt_of_length_le hall (Nat.le_of_not_lt hlength)
    rw [Decimal.isExchangeable_iff]
    generalize Decimal.tenTo Decimal.maxDigits = bound at *
    generalize Decimal.value ds = n at *
    have hi := Option.some.inj h
    split at hi <;> omega

theorem Fits.of_toInteger {i : Int} (h : Fits room v) (hi : v.toInteger = .ok i) :
    Decimal.isExchangeable i = true := by
  have hplain := h.plain
  have hsmall : ∀ b : Bool, Decimal.isExchangeable (if b then 1 else 0) = true := by
    have hone : 1 < Decimal.tenTo Decimal.maxDigits :=
      Nat.lt_of_lt_of_le (by decide) (Decimal.tenTo_le_tenTo Decimal.maxDigits_pos)
    intro b
    rw [Decimal.isExchangeable_iff]
    generalize Decimal.tenTo Decimal.maxDigits = bound at *
    cases b
    · exact Nat.lt_trans Nat.one_pos hone
    · exact hone
  cases v with
  | int j =>
    cases hi
    exact Fits.int_iff.mp h
  | bool b =>
    cases hi
    exact hsmall b
  | text s =>
    rw [toInteger] at hi
    split at hi
    · cases hi
      exact isExchangeable_of_integer? ‹_›
    · exact nomatch hi
  | null | list _ | object _ => exact nomatch hi
  | _ => exact Bool.noConfusion hplain

end Value

end RolloutLedger
