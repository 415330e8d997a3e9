import RolloutLedger.Proofs.Document.Room
import RolloutLedger.Proofs.Number.Binary64
/-! # Values within terms

Values that hold scalars, lists and objects only, and meet some terms: which integers they may
hold, and whether the keys of objects have to be texts, no two of them equal.  Doubles are there,
and nothing stands for a double that is none.

Whatever is read from a value within terms is within the same terms, one level less for what a
list or an object holds.  Entries that were put together from pairs may have any scalars as keys;
that they are apart then has to be known otherwise.
-/

namespace RolloutLedger

open Entries (keysApart HasNames)

structure Terms where
  integer : Int → Prop
  /-- Whether keys have to be texts, no two of them equal. -/
  apart : Prop
  /-- Integers that can be exchanged are never refused. -/
  short {i : Int} (h : Decimal.isExchangeable i = true) : integer i

namespace Terms

def json : Terms := ⟨fun _ => True, True, fun _ => trivial⟩

def exchange : Terms := ⟨fun i => Decimal.isExchangeable i = true, True, id⟩

/-- The terms of objects that may have been put together from pairs. -/
def paired : Terms := ⟨fun _ => True, False, fun _ => trivial⟩

inductive Scalar (t : Terms) : Value → Prop
  | null : t.Scalar .null
  | bool (b : Bool) : t.Scalar (.bool b)
  | int {i : Int} (h : t.integer i) : t.Scalar (.int i)
  | float {x : Binary64} (h : x.IsDouble) : t.Scalar (.float x)
  | text (s : String) : t.Scalar (.text s)

structure Keys (t : Terms) (es : Entries) : Prop where
  scalar : ∀ p ∈ es, t.Scalar (.ofKey p.1)
  apart : t.apart → keysApart es = true

variable {t : Terms} {es extra known : Entries} {names : List String}

theorem Keys.of_keysApart (h : keysApart es = true) : t.Keys es where
  scalar p hp := by
    obtain ⟨s, hs⟩ := Entries.text_of_keysApart h hp
    rw [hs]
    exact .text s
  apart _ := h

theorem Keys.sublist {fs : Entries} (h : t.Keys es) (hsub : fs.Sublist es) : t.Keys fs where
  scalar p hp := h.scalar p (hsub.subset hp)
  apart hapart := Entries.keysApart_of_sublist (h.apart hapart) hsub

theorem Keys.append (hextra : t.Keys extra) (hknown : HasNames names known)
    (hnames : names.Nodup) (hfree : ∀ p ∈ extra, ∀ n ∈ names, p.1 ≠ .text n) :
    t.Keys (extra ++ known) where
  scalar p hp := by
    rcases List.mem_append.mp hp with hp | hp
    · exact hextra.scalar p hp
    · obtain ⟨n, -, hn⟩ := hknown.exists_name p hp
      rw [hn]
      exact .text n
  apart hapart := hknown.keysApart_append hnames (hextra.apart hapart) hfree

end Terms

namespace Value

/-- Values within terms, with so many levels of nesting. -/
inductive Within (t : Terms) : Nat → Value → Prop
  | scalar {room : Nat} {v : Value} (h : t.Scalar v) : Within t room v
  | list {room : Nat} {items : List Value} (h : ∀ v ∈ items, Within t room v) :
    Within t (room + 1) (.list items)
  | object {room : Nat} {es : Entries} (keys : t.Keys es) (h : ∀ p ∈ es, Within t room p.2) :
    Within t (room + 1) (.object es)

namespace Within

variable {t : Terms} {room : Nat} {v d : Value} {es : Entries}

/-! ## Lists and objects -/

theorem text (s : String) : Within t room (.text s) := .scalar (.text s)

theorem null : Within t room .null := .scalar .null

theorem int {i : Int} (h : t.integer i) : Within t room (.int i) := .scalar (.int h)

theorem zero : Within t room (.int 0) := .int (t.short (by decide +kernel))

theorem object_iff :
    Within t (room + 1) (.object es) ↔ t.Keys es ∧ ∀ p ∈ es, Within t room p.2 := by
  constructor
  · intro h
    cases h with
    | scalar h => exact nomatch h
    | object keys h => exact ⟨keys, h⟩
  · exact fun h => .object h.1 h.2

theorem mono {room' : Nat} (h : Within t room v) (hroom : room ≤ room') : Within t room' v := by
  induction h generalizing room' with
  | scalar h => exact .scalar h
  | list _ ih =>
    obtain ⟨room', rfl⟩ := Nat.exists_eq_add_one_of_ne_zero (show room' ≠ 0 by omega)
    exact .list fun v hv => ih v hv (Nat.le_of_succ_le_succ hroom)
  | object keys _ ih =>
    obtain ⟨room', rfl⟩ := Nat.exists_eq_add_one_of_ne_zero (show room' ≠ 0 by omega)
    exact .object keys fun p hp => ih p hp (Nat.le_of_succ_le_succ hroom)

theorem weaken {t' : Terms} (h : Within t room v) (hinteger : ∀ i, t.integer i → t'.integer i)
    (hapart : t'.apart → t.apart) : Within t' room v := by
  have hscalar : ∀ v, t.Scalar v → t'.Scalar v := by
    rintro v (_ | _ | h | h | _)
    · exact .null
    · exact .bool _
    · exact .int (hinteger _ h)
    · exact .float h
    · exact .text _
  induction h with
  | scalar h => exact .scalar (hscalar _ h)
  | list _ ih => exact .list ih
  | object keys _ ih =>
    exact .object ⟨fun p hp => hscalar _ (keys.scalar p hp), fun h => keys.apart (hapart h)⟩ ih

theorem of_fits (h : v.Fits room) : Within t room v := by
  induction room, v, h using Fits.induction with
  | null _ => exact .null
  | bool _ b => exact .scalar (.bool b)
  | int _ i h => exact .int (t.short h)
  | text _ s => exact .text s
  | list _ items _ ih => exact .list ih
  | object _ es h ih => exact .object (.of_keysApart (Fits.object_iff.mp h).1) ih

theorem of_isPlain (h : v.isPlain = true) : Within .json v.depth v := by
  induction v, h using isPlain_induction with
  | null => exact .null
  | bool b => exact .scalar (.bool b)
  | int i => exact .int trivial
  | text s => exact .text s
  | list items _ ih =>
    have hdepth := depth_list_le_iff.mp (Nat.le_refl (Value.list items).depth)
    exact .list fun v hv => (ih v hv).mono (hdepth v hv)
  | object es h ih =>
    have hdepth := depth_object_le_iff.mp (Nat.le_refl (Value.object es).depth)
    exact .object (.of_keysApart (keysApart_of_isPlain h)) fun p hp =>
      (ih p hp).mono (hdepth p hp)

/-! ## Members and items -/

theorem valueOr (h : Within t (room + 1) (.object es)) (n : String) (hd : Within t room d) :
    Within t room (es.valueOr n d) := by
  rw [Entries.valueOr]
  cases hget : Entries.get? (.text n) es with
  | none => exact hd
  | some v => exact (object_iff.mp h).2 _ (Entries.mem_of_get? hget)

theorem without (h : Within t (room + 1) (.object es)) (names : List String) :
    Within t (room + 1) (.object (es.without names)) := by
  obtain ⟨hkeys, hvalues⟩ := object_iff.mp h
  exact .object (hkeys.sublist List.filter_sublist) fun p hp =>
    hvalues p (Entries.mem_without_iff.mp hp).1

theorem orElse (h : Within t room v) (hd : Within t room d) : Within t room (v.orElse d) := by
  rw [Value.orElse]
  split
  · exact hd
  · exact h

theorem orEmpty (h : Within t (room + 1) v) : Within t (room + 1) v.orEmpty :=
  h.orElse (.object (.of_keysApart rfl) fun _ hp => absurd hp List.not_mem_nil)

theorem of_toItems {items : List Value} (h : Within t (room + 1) v)
    (hitems : v.toItems = .ok items) : ∀ x ∈ items, Within t room x := by
  cases h with
  | list h =>
    cases hitems
    exact h
  | object keys _ =>
    cases hitems
    intro x hx
    obtain ⟨p, hp, rfl⟩ := List.mem_map.mp hx
    exact .scalar (keys.scalar p hp)
  | scalar h =>
    cases h with
    | text s =>
      cases hitems
      intro x hx
      obtain ⟨c, -, rfl⟩ := List.mem_map.mp hx
      exact .text _
    | _ => exact nomatch hitems

theorem of_itemsOrNone {items : List Value} (h : Within t (room + 1) v)
    (hitems : v.itemsOrNone = .ok items) : ∀ x ∈ items, Within t room x :=
  (h.orElse (.list fun _ hx => absurd hx List.not_mem_nil)).of_toItems hitems

/-! ## Entries -/

theorem ofKey_of_toKey {k : Key} (h : v.toKey = .ok k) : ofKey k = v := by
  cases v with
  | list _ | object _ | set _ | record _ _ | resource _ _ _ | broken _ => exact nomatch h
  | _ =>
    cases h
    rfl

theorem scalar_of_toKey {k : Key} (h : Within t room v) (hk : v.toKey = .ok k) :
    t.Scalar (ofKey k) := by
  rw [ofKey_of_toKey hk]
  cases h with
  | scalar h => exact h
  | _ => exact nomatch hk

theorem of_toMember {p : Key × Value} (h : Within t (room + 1) v) (hp : v.toMember = .ok p) :
    t.Scalar (ofKey p.1) ∧ Within t room p.2 := by
  obtain ⟨items, hitems, hp⟩ := bind_eq_ok_iff.mp hp
  have hmem := h.of_toItems hitems
  split at hp
  · obtain ⟨k, hk, hp⟩ := bind_eq_ok_iff.mp hp
    cases hp
    exact ⟨(hmem _ List.mem_cons_self).scalar_of_toKey hk,
      hmem _ (List.mem_cons_of_mem _ List.mem_cons_self)⟩
  · exact nomatch hp

theorem of_entriesOrNone (h : Within t (room + 1) v) (hes : v.entriesOrNone = .ok es)
    (hapart : t.apart → keysApart es = true) : Within t (room + 1) (.object es) := by
  have hdoc := h.orEmpty
  rw [entriesOrNone] at hes
  generalize v.orEmpty = w at *
  by_cases hobject : ∃ fs, w = .object fs
  · obtain ⟨fs, rfl⟩ := hobject
    cases hes
    exact hdoc
  rw [toEntries.eq_2 _ fun fs hfs => hobject ⟨fs, hfs⟩] at hes
  obtain ⟨items, hitems, hes⟩ := bind_eq_ok_iff.mp hes
  obtain ⟨pairs, hpairs, hes⟩ := bind_eq_ok_iff.mp hes
  cases hes
  have hmember : ∀ p ∈ pairs, t.Scalar (ofKey p.1) ∧ Within t room p.2 := by
    intro p hp
    obtain ⟨x, hx, hread⟩ := exists_of_mapM_eq_ok hpairs p hp
    exact ((hdoc.of_toItems hitems x hx).mono (Nat.le_succ room)).of_toMember hread
  refine .object ⟨fun q hq => ?_, hapart⟩ fun q hq => ?_
  · obtain ⟨w, hw⟩ := exists_key_of_mem_ofPairs hq
    exact (hmember _ hw).1
  · obtain ⟨k, hk⟩ := exists_mem_of_mem_ofPairs hq
    exact (hmember _ hk).2

/-! ## Integers -/

theorem isExchangeable_of_truncate? {x : Binary64} (hx : x.IsDouble) {i : Int}
    (hi : x.truncate? = some i) : Decimal.isExchangeable i = true := by
  cases hx with
  | nan | infinity _ => exact nomatch hi
  | @finite negative u _ hbounded =>
    have hlarge : Binary64.overflow ≤
        Binary64.unitsPerOne * Decimal.tenTo Decimal.maxDigits := by
      decide +kernel
    have hlt : u / Binary64.unitsPerOne < Decimal.tenTo Decimal.maxDigits :=
      Nat.div_lt_of_lt_mul (Nat.lt_of_lt_of_le hbounded hlarge)
    have hi : (if negative then -((u / Binary64.unitsPerOne : Nat) : Int)
        else (u / Binary64.unitsPerOne : Nat)) = i := Option.some.inj hi
    rw [Decimal.isExchangeable_iff]
    generalize Decimal.tenTo Decimal.maxDigits = bound at *
    generalize u / Binary64.unitsPerOne = n at *
    split at hi <;> omega

theorem of_toInteger {i : Int} (h : Within t room v) (hi : v.toInteger = .ok i) :
    t.integer i := by
  cases h with
  | list _ | object _ _ => cases hi
  | scalar h =>
    cases h with
    | null => cases hi
    | bool b =>
      cases hi
      exact t.short (by cases b <;> decide +kernel)
    | int h =>
      cases hi
      exact h
    | text s =>
      rw [toInteger] at hi
      split at hi
      · cases hi
        exact t.short (isExchangeable_of_integer? ‹_›)
      · cases hi
    | @float x h =>
      have htruncated : x.truncate? = some i := by
        cases x with
        | nan | infinity _ => cases hi
        | finite _ _ => exact congrArg some (Except.ok.inj hi)
      exact t.short (isExchangeable_of_truncate? h htruncated)

end Within

end Value

end RolloutLedger
