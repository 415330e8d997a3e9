import RolloutLedger.Proofs.Sorting
import RolloutLedger.Value.Order
/-! # Members with distinct textual keys

Objects that come from JSON have textual keys, no two of them equal.  For such members looking
up, putting and dropping behave as on a finite map from texts, an order of the keys sorts them
in exactly one way, and what is looked up does not depend on the order in which they stand.
-/

namespace RolloutLedger

/-! ## Textual keys -/

theorem Key.same_text (a b : String) : (Key.text a).same (.text b) = (a == b) := rfl

theorem Key.same_text_iff {n : String} {k : Key} : (Key.text n).same k = true ↔ k = .text n := by
  cases k with
  | text s =>
    rw [Key.same_text, beq_iff_eq]
    constructor
    · rintro rfl
      rfl
    · intro h
      injection h with h
      exact h.symm
  | _ => exact ⟨fun h => Bool.noConfusion h, fun h => Key.noConfusion h⟩

theorem textLe_isTotalOrder : IsTotalOrder textLe where
  total a b := by
    simp only [textLe, decide_eq_true_eq]
    exact Std.le_total
  trans a b c := by
    simp only [textLe, decide_eq_true_eq]
    exact Std.le_trans

theorem textLe_antisymm {a b : String} (hab : textLe a b = true) (hba : textLe b a = true) :
    a = b := by
  simp only [textLe, decide_eq_true_eq] at hab hba
  exact String.le_antisymm hab hba

namespace Entries

/-- Whether all keys are texts, no two of them equal. -/
def keysApart {α : Type} (es : List (Key × α)) : Bool :=
  es.all (fun p => p.1.text?.isSome) && decide (es.map (·.1)).Nodup

variable {α β : Type}

theorem keysApart_iff {es : List (Key × α)} :
    keysApart es = true ↔ (∀ p ∈ es, ∃ s, p.1 = .text s) ∧ (es.map (·.1)).Nodup := by
  have htext : ∀ k : Key, k.text?.isSome = true ↔ ∃ s, k = .text s := by
    intro k
    cases k <;> simp [Key.text?]
  simp only [keysApart, Bool.and_eq_true, List.all_eq_true, decide_eq_true_eq, htext]

theorem nodup_of_keysApart {es : List (Key × α)} (h : keysApart es = true) :
    (es.map (·.1)).Nodup := (keysApart_iff.mp h).2

theorem text_of_keysApart {es : List (Key × α)} (h : keysApart es = true) {p : Key × α}
    (hp : p ∈ es) : ∃ s, p.1 = .text s := (keysApart_iff.mp h).1 p hp

theorem keysApart_tail {p : Key × α} {es : List (Key × α)} (h : keysApart (p :: es) = true) :
    keysApart es = true := by
  obtain ⟨htext, hnodup⟩ := keysApart_iff.mp h
  exact keysApart_iff.mpr
    ⟨fun q hq => htext q (List.mem_cons_of_mem _ hq), (List.nodup_cons.mp hnodup).2⟩

theorem keysApart_of_perm {es fs : List (Key × α)} (h : keysApart es = true) (hperm : es.Perm fs) :
    keysApart fs = true := by
  obtain ⟨htext, hnodup⟩ := keysApart_iff.mp h
  exact keysApart_iff.mpr
    ⟨fun p hp => htext p (hperm.mem_iff.mpr hp), (hperm.map _).nodup_iff.mp hnodup⟩

theorem keysApart_of_sublist {es fs : List (Key × α)} (h : keysApart es = true)
    (hsub : fs.Sublist es) : keysApart fs = true := by
  obtain ⟨htext, hnodup⟩ := keysApart_iff.mp h
  exact keysApart_iff.mpr
    ⟨fun p hp => htext p (hsub.subset hp), (hsub.map (·.1)).nodup hnodup⟩

def mapValues (f : α → β) (es : List (Key × α)) : List (Key × β) := es.map fun p => (p.1, f p.2)

theorem mem_mapValues {f : α → β} {es : List (Key × α)} {q : Key × β} :
    q ∈ mapValues f es ↔ ∃ p ∈ es, (p.1, f p.2) = q := List.mem_map

theorem map_fst_mapValues (f : α → β) (es : List (Key × α)) :
    (mapValues f es).map (·.1) = es.map (·.1) := by
  rw [mapValues, List.map_map]
  rfl

theorem mapValues_mapValues {γ : Type} (f : α → β) (g : β → γ) (es : List (Key × α)) :
    mapValues g (mapValues f es) = mapValues (fun v => g (f v)) es := by
  rw [mapValues, mapValues, List.map_map]
  rfl

theorem mapValues_congr {f g : α → β} {es : List (Key × α)} (h : ∀ p ∈ es, f p.2 = g p.2) :
    mapValues f es = mapValues g es :=
  List.map_congr_left fun p hp => Prod.ext rfl (h p hp)

theorem keysApart_mapValues (f : α → β) (es : List (Key × α)) :
    keysApart (mapValues f es) = keysApart es := by
  rw [keysApart, keysApart, map_fst_mapValues, mapValues, List.all_map]
  rfl

theorem value_eq_of_keysApart {es : List (Key × α)} (h : keysApart es = true) {k : Key} {v w : α}
    (hv : (k, v) ∈ es) (hw : (k, w) ∈ es) : v = w := by
  induction es with
  | nil => cases hv
  | cons p es ih =>
    obtain ⟨hp, -⟩ := List.nodup_cons.mp (nodup_of_keysApart h)
    have hnot : ∀ u, (k, u) ∈ es → p.1 ≠ k := fun u hu hk =>
      hp (List.mem_map.mpr ⟨(k, u), hu, hk.symm⟩)
    rcases List.mem_cons.mp hv with rfl | hv'
    · rcases List.mem_cons.mp hw with hw' | hw'
      · exact (Prod.mk.inj hw').2.symm
      · exact absurd rfl (hnot w hw')
    · rcases List.mem_cons.mp hw with rfl | hw'
      · exact absurd rfl (hnot v hv')
      · exact ih (keysApart_tail h) hv' hw'

/-! ## Looking up -/

theorem get?_cons (n : String) (p : Key × Value) (es : Entries) :
    get? (.text n) (p :: es) = if p.1 = .text n then some p.2 else get? (.text n) es := by
  rw [get?]
  by_cases hp : p.1 = .text n
  · rw [if_pos hp, if_pos (Key.same_text_iff.mpr hp)]
  · rw [if_neg hp, if_neg fun h => hp (Key.same_text_iff.mp h)]

@[simp] theorem get?_nil (k : Key) : get? k [] = none := rfl

@[simp] theorem get?_append (k : Key) (es fs : Entries) :
    get? k (es ++ fs) = (get? k es).or (get? k fs) := by
  induction es with
  | nil => rfl
  | cons p es ih =>
    rw [List.cons_append, get?, get?]
    split
    · rfl
    · exact ih

@[simp] theorem get?_cons_field (n m : String) (v : Value) (es : Entries) :
    get? (.text n) (field m v :: es) = if m = n then some v else get? (.text n) es := by
  rw [get?_cons]
  show (if Key.text m = .text n then some v else get? (.text n) es) = _
  by_cases h : m = n
  · rw [if_pos h, if_pos (congrArg Key.text h)]
  · rw [if_neg h, if_neg fun hk => h (Key.text.inj hk)]

@[simp] theorem get?_fieldIf (b : Bool) (n m : String) (v : Value) :
    get? (.text n) (fieldIf b m v) = if m = n then (if b then some v else none) else none := by
  cases b
  · simp [fieldIf]
  · rw [fieldIf, if_pos rfl, get?_cons_field, if_pos rfl]
    rfl

theorem get?_eq_none {n : String} {es : Entries} (h : ∀ p ∈ es, p.1 ≠ .text n) :
    get? (.text n) es = none := by
  induction es with
  | nil => rfl
  | cons p es ih =>
    rw [get?_cons, if_neg (h p List.mem_cons_self)]
    exact ih fun q hq => h q (List.mem_cons_of_mem _ hq)

theorem get?_tail_eq_none {n : String} {p : Key × Value} {es : Entries}
    (h : keysApart (p :: es) = true) (hp : p.1 = .text n) : get? (.text n) es = none := by
  refine get?_eq_none fun q hq hqn => ?_
  have hnot : p.1 ∉ es.map (·.1) := (List.nodup_cons.mp (nodup_of_keysApart h)).1
  have hkey : p.1 = q.1 := hp.trans hqn.symm
  exact hnot (hkey ▸ List.mem_map_of_mem hq)

theorem mem_of_get? {n : String} {v : Value} {es : Entries} (h : get? (.text n) es = some v) :
    (Key.text n, v) ∈ es := by
  induction es with
  | nil => exact nomatch h
  | cons p es ih =>
    rw [get?_cons] at h
    by_cases hp : p.1 = .text n
    · rw [if_pos hp] at h
      rw [← hp, ← Option.some.inj h]
      exact List.mem_cons_self
    · rw [if_neg hp] at h
      exact List.mem_cons_of_mem _ (ih h)

theorem exists_mem_of_get? {k : Key} {v : Value} {es : Entries} (h : get? k es = some v) :
    ∃ p ∈ es, p.2 = v := by
  induction es with
  | nil => exact nomatch h
  | cons p es ih =>
    rw [get?] at h
    split at h
    · exact ⟨p, List.mem_cons_self, Option.some.inj h⟩
    · obtain ⟨q, hq, hqv⟩ := ih h
      exact ⟨q, List.mem_cons_of_mem _ hq, hqv⟩

theorem get?_of_mem {n : String} {v : Value} {es : Entries} (h : keysApart es = true)
    (hv : (Key.text n, v) ∈ es) : get? (.text n) es = some v := by
  cases hget : get? (.text n) es with
  | some w => rw [value_eq_of_keysApart h hv (mem_of_get? hget)]
  | none =>
    exfalso
    clear h
    induction es with
    | nil => cases hv
    | cons p es ih =>
      rw [get?_cons] at hget
      rcases List.mem_cons.mp hv with rfl | hv
      · rw [if_pos rfl] at hget
        cases hget
      · by_cases hp : p.1 = .text n
        · rw [if_pos hp] at hget
          cases hget
        · rw [if_neg hp] at hget
          exact ih hv hget

theorem get?_perm {n : String} {es fs : Entries} (h : keysApart es = true) (hperm : es.Perm fs) :
    get? (.text n) fs = get? (.text n) es := by
  cases hes : get? (.text n) es with
  | some v => exact get?_of_mem (keysApart_of_perm h hperm) (hperm.mem_iff.mp (mem_of_get? hes))
  | none =>
    cases hfs : get? (.text n) fs with
    | none => rfl
    | some v =>
      rw [get?_of_mem h (hperm.mem_iff.mpr (mem_of_get? hfs))] at hes
      cases hes

theorem get?_mapValues (f : Value → Value) (k : Key) (es : Entries) :
    get? k (mapValues f es) = (get? k es).map f := by
  induction es with
  | nil => rfl
  | cons p es ih =>
    rw [mapValues, List.map_cons, get?, get?]
    split
    · rfl
    · exact ih

/-! ## Putting and dropping -/

theorem put_eq_append {n : String} {es : Entries} (v : Value) (h : ∀ p ∈ es, p.1 ≠ .text n) :
    put (.text n) v es = es ++ [(.text n, v)] := by
  induction es with
  | nil => rfl
  | cons p es ih =>
    have hp : (Key.text n).same p.1 = false := by
      cases hsame : (Key.text n).same p.1 with
      | false => rfl
      | true => exact absurd (Key.same_text_iff.mp hsame) (h p List.mem_cons_self)
    rw [put, hp, ih fun q hq => h q (List.mem_cons_of_mem _ hq)]
    rfl

theorem ofPairs_eq_self {es : Entries} (h : keysApart es = true) : ofPairs es = es := by
  have hfold : ∀ rest front : Entries, keysApart (front ++ rest) = true →
      rest.foldl (fun es p => put p.1 p.2 es) front = front ++ rest := by
    intro rest
    induction rest with
    | nil =>
      intro front _
      rw [List.foldl_nil, List.append_nil]
    | cons p rest ih =>
      intro front hfront
      obtain ⟨n, hn⟩ := text_of_keysApart hfront
        (List.mem_append_right front (List.mem_cons_self (a := p)))
      have hnew : ∀ q ∈ front, q.1 ≠ .text n := by
        intro q hq hqn
        have hnodup := nodup_of_keysApart hfront
        rw [List.map_append, List.map_cons, List.nodup_append] at hnodup
        exact hnodup.2.2 q.1 (List.mem_map_of_mem hq) p.1 List.mem_cons_self (hqn.trans hn.symm)
      rw [List.foldl_cons, hn, put_eq_append _ hnew]
      have hwhole : front ++ [(Key.text n, p.2)] ++ rest = front ++ p :: rest := by
        rw [← hn, List.append_assoc]
        rfl
      rw [ih _ (hwhole ▸ hfront), hwhole]
  exact hfold es [] h

@[simp] theorem get?_put (n m : String) (v : Value) (es : Entries) :
    get? (.text n) (put (.text m) v es) = if m = n then some v else get? (.text n) es := by
  induction es with
  | nil =>
    rw [put, get?_cons]
    by_cases h : m = n
    · rw [if_pos h, if_pos (congrArg Key.text h)]
    · rw [if_neg h, if_neg fun hk => h (Key.text.inj hk)]
  | cons p es ih =>
    rw [put]
    by_cases hp : (Key.text m).same p.1 = true
    · rw [if_pos hp, get?_cons, get?_cons, Key.same_text_iff.mp hp]
      by_cases h : m = n
      · rw [if_pos h, if_pos (congrArg Key.text h)]
      · rw [if_neg h, if_neg fun hk => h (Key.text.inj hk), if_neg fun hk => h (Key.text.inj hk)]
    · rw [if_neg hp, get?_cons, get?_cons, ih]
      by_cases h : m = n
      · have hn : p.1 ≠ .text n := fun hn => hp (Key.same_text_iff.mpr (h ▸ hn))
        rw [if_neg hn, if_pos h, if_pos h]
      · rw [if_neg h, if_neg h]

/-- A member that is there after something was put holds what was put, or was there before. -/
theorem mem_of_mem_put {k : Key} {v : Value} {es : Entries} {q : Key × Value}
    (hq : q ∈ put k v es) : q.2 = v ∨ q ∈ es := by
  induction es with
  | nil =>
    rw [List.mem_singleton.mp hq]
    exact Or.inl rfl
  | cons p rest ih =>
    rw [put] at hq
    split at hq
    · rcases List.mem_cons.mp hq with rfl | hq
      · exact Or.inl rfl
      · exact Or.inr (List.mem_cons_of_mem _ hq)
    · rcases List.mem_cons.mp hq with rfl | hq
      · exact Or.inr List.mem_cons_self
      · exact (ih hq).imp id (List.mem_cons_of_mem _)

/-- Such a member has the key under which something was put, or had its key before. -/
theorem key_of_mem_put {k : Key} {v : Value} {es : Entries} {q : Key × Value}
    (hq : q ∈ put k v es) : q.1 = k ∨ ∃ w, (q.1, w) ∈ es := by
  induction es with
  | nil =>
    rw [List.mem_singleton.mp hq]
    exact Or.inl rfl
  | cons p rest ih =>
    rw [put] at hq
    split at hq
    · rcases List.mem_cons.mp hq with rfl | hq
      · exact Or.inr ⟨p.2, List.mem_cons_self⟩
      · exact Or.inr ⟨q.2, List.mem_cons_of_mem _ hq⟩
    · rcases List.mem_cons.mp hq with rfl | hq
      · exact Or.inr ⟨p.2, List.mem_cons_self⟩
      · rcases ih hq with hkey | ⟨w, hw⟩
        · exact Or.inl hkey
        · exact Or.inr ⟨w, List.mem_cons_of_mem _ hw⟩

theorem keysApart_put {n : String} {v : Value} {es : Entries} (h : keysApart es = true) :
    keysApart (put (.text n) v es) = true := by
  by_cases hn : ∀ p ∈ es, p.1 ≠ .text n
  · rw [put_eq_append v hn]
    obtain ⟨htext, hnodup⟩ := keysApart_iff.mp h
    refine keysApart_iff.mpr ⟨fun p hp => ?_, ?_⟩
    · rcases List.mem_append.mp hp with hp | hp
      · exact htext p hp
      · exact ⟨n, congrArg Prod.fst (List.mem_singleton.mp hp)⟩
    · rw [List.map_append, List.nodup_append]
      refine ⟨hnodup, List.pairwise_singleton _ _, fun k hk l hl hkl => ?_⟩
      obtain ⟨p, hp, rfl⟩ := List.mem_map.mp hk
      exact hn p hp (hkl.trans (List.mem_singleton.mp hl))
  -- a member that is replaced keeps its key
  · have hkeys : (put (.text n) v es).map (·.1) = es.map (·.1) := by
      clear h
      induction es with
      | nil => exact absurd (fun p hp => absurd hp List.not_mem_nil) hn
      | cons p rest ih =>
        rw [put]
        by_cases hp : (Key.text n).same p.1 = true
        · rw [if_pos hp]
          rfl
        · rw [if_neg hp, List.map_cons, List.map_cons, ih]
          intro hrest
          refine hn (List.forall_mem_cons.mpr ⟨fun hpn => hp ?_, hrest⟩)
          exact Key.same_text_iff.mpr hpn
    obtain ⟨htext, hnodup⟩ := keysApart_iff.mp h
    refine keysApart_iff.mpr ⟨fun p hp => ?_, hkeys ▸ hnodup⟩
    have hp := List.mem_map_of_mem (f := (·.1)) hp
    rw [hkeys] at hp
    obtain ⟨q, hq, hqp⟩ := List.mem_map.mp hp
    obtain ⟨t, ht⟩ := htext q hq
    exact ⟨t, hqp.symm.trans ht⟩

/-- Members put one after the other have distinct keys, and their values are among those put. -/
theorem keysApart_ofPairs {pairs : Entries} (h : ∀ p ∈ pairs, ∃ n, p.1 = .text n) :
    keysApart (ofPairs pairs) = true ∧ ∀ q ∈ ofPairs pairs, ∃ p ∈ pairs, q.2 = p.2 := by
  have hfold : ∀ rest es : Entries, (∀ p ∈ rest, p ∈ pairs) → keysApart es = true →
      (∀ q ∈ es, ∃ p ∈ pairs, q.2 = p.2) →
      keysApart (rest.foldl (fun es p => put p.1 p.2 es) es) = true ∧
        ∀ q ∈ rest.foldl (fun es p => put p.1 p.2 es) es, ∃ p ∈ pairs, q.2 = p.2 := by
    intro rest
    induction rest with
    | nil => exact fun es _ hes hvalues => ⟨hes, hvalues⟩
    | cons p rest ih =>
      intro es hrest hes hvalues
      obtain ⟨hp, hrest⟩ := List.forall_mem_cons.mp hrest
      obtain ⟨n, hn⟩ := h p hp
      have hput : keysApart (put p.1 p.2 es) = true := by
        rw [hn]
        exact keysApart_put hes
      refine ih _ hrest hput fun q hq => ?_
      rcases mem_of_mem_put hq with hq | hq
      · exact ⟨p, hp, hq⟩
      · exact hvalues q hq
  exact hfold pairs [] (fun p hp => hp) rfl fun q hq => absurd hq List.not_mem_nil

theorem get?_drop_of_ne {n m : String} (h : m ≠ n) (es : Entries) :
    get? (.text n) (drop (.text m) es) = get? (.text n) es := by
  induction es with
  | nil => rfl
  | cons p es ih =>
    rw [drop]
    by_cases hp : (Key.text m).same p.1 = true
    · rw [if_pos hp, get?_cons, Key.same_text_iff.mp hp, if_neg fun hk => h (Key.text.inj hk)]
    · rw [if_neg hp, get?_cons, get?_cons, ih]

theorem get?_drop_self {n : String} {es : Entries} (h : keysApart es = true) :
    get? (.text n) (drop (.text n) es) = none := by
  induction es with
  | nil => rfl
  | cons p es ih =>
    rw [drop]
    by_cases hp : (Key.text n).same p.1 = true
    · rw [if_pos hp]
      exact get?_tail_eq_none h (Key.same_text_iff.mp hp)
    · rw [if_neg hp, get?_cons, if_neg fun hk => hp (Key.same_text_iff.mpr hk)]
      exact ih (keysApart_tail h)

theorem drop_sublist (k : Key) (es : Entries) : (drop k es).Sublist es := by
  induction es with
  | nil => exact List.Sublist.refl _
  | cons p es ih =>
    rw [drop]
    split
    · exact List.sublist_cons_self p es
    · exact ih.cons_cons p

theorem keysApart_drop {k : Key} {es : Entries} (h : keysApart es = true) :
    keysApart (drop k es) = true := keysApart_of_sublist h (drop_sublist k es)

theorem put_eq_self {k : Key} {v : Value} {es : Entries} (h : get? k es = some v) :
    put k v es = es := by
  induction es with
  | nil => exact nomatch h
  | cons p es ih =>
    rw [get?] at h
    rw [put]
    split at h
    · rw [if_pos ‹_›, ← Option.some.inj h]
    · rw [if_neg ‹_›, ih h]

theorem drop_eq_self {k : Key} {es : Entries} (h : get? k es = none) : drop k es = es := by
  induction es with
  | nil => rfl
  | cons p es ih =>
    rw [get?] at h
    rw [drop]
    split at h
    · exact nomatch h
    · rw [if_neg ‹_›, ih h]

/-! ## The order of the keys -/

def keyLe (p q : Key × α) : Bool := p.1.le q.1

def sorted (es : List (Key × α)) : List (Key × α) := sortBy keyLe es

theorem sorted_perm (es : List (Key × α)) : (sorted es).Perm es := sortBy_perm keyLe es

end Entries

def Key.textOrNone (k : Key) : String := k.text?.getD ""

namespace Entries

variable {α β : Type}

/-- The order of members by the texts of their keys, which is total. -/
def textKeyLe (p q : Key × α) : Bool := textLe p.1.textOrNone q.1.textOrNone

theorem textKeyLe_isTotalOrder : IsTotalOrder (textKeyLe (α := α)) :=
  textLe_isTotalOrder.on fun p : Key × α => p.1.textOrNone

theorem keyLe_eq {es : List (Key × α)} (h : keysApart es = true) {p q : Key × α} (hp : p ∈ es)
    (hq : q ∈ es) : keyLe p q = textKeyLe p q := by
  obtain ⟨s, hs⟩ := text_of_keysApart h hp
  obtain ⟨t, ht⟩ := text_of_keysApart h hq
  rw [keyLe, textKeyLe, hs, ht]
  rfl

theorem textKeyLe_antisymm {es : List (Key × α)} (h : keysApart es = true) :
    ∀ p ∈ es, ∀ q ∈ es, textKeyLe p q = true → textKeyLe q p = true → p = q := by
  intro p hp q hq hpq hqp
  obtain ⟨s, hs⟩ := text_of_keysApart h hp
  obtain ⟨t, ht⟩ := text_of_keysApart h hq
  have hkey : p.1 = q.1 := by
    rw [textKeyLe, hs, ht] at hpq hqp
    rw [hs, ht]
    exact congrArg Key.text (textLe_antisymm hpq hqp)
  have hvalue : p.2 = q.2 := value_eq_of_keysApart h (k := p.1) hp (hkey ▸ hq)
  exact Prod.ext hkey hvalue

theorem sorted_eq {es : List (Key × α)} (h : keysApart es = true) :
    sorted es = sortBy textKeyLe es :=
  sortBy_congr fun _ hp _ hq => keyLe_eq h hp hq

theorem sorted_eq_of_perm {es fs : List (Key × α)} (h : keysApart es = true)
    (hperm : es.Perm fs) : sorted es = sorted fs := by
  rw [sorted_eq h, sorted_eq (keysApart_of_perm h hperm)]
  exact sortBy_eq_of_perm textKeyLe_isTotalOrder (textKeyLe_antisymm h) hperm

theorem sorted_sorted {es : List (Key × α)} (h : keysApart es = true) :
    sorted (sorted es) = sorted es :=
  (sorted_eq_of_perm h (sorted_perm es).symm).symm

theorem keysApart_sorted {es : List (Key × α)} (h : keysApart es = true) :
    keysApart (sorted es) = true := keysApart_of_perm h (sorted_perm es).symm

theorem sorted_filter {es : List (Key × α)} (h : keysApart es = true) (p : Key × α → Bool) :
    (sorted es).filter p = sorted (es.filter p) := by
  rw [sorted_eq h, sorted_eq (keysApart_of_sublist h List.filter_sublist)]
  exact filter_sortBy textKeyLe_isTotalOrder (textKeyLe_antisymm h) p

theorem sorted_mapValues (f : α → β) (es : List (Key × α)) :
    sorted (mapValues f es) = mapValues f (sorted es) := by
  rw [sorted, mapValues, sortBy_map]
  rfl

theorem get?_sorted {n : String} {es : Entries} (h : keysApart es = true) :
    get? (.text n) (sorted es) = get? (.text n) es :=
  get?_perm h (sorted_perm es).symm

theorem sortMembers?_eq {es : List (Key × α)} (h : keysApart es = true) :
    sortMembers? es = some (sorted es) := by
  have hcomparable : Key.areComparable (es.map (·.1)) = true := by
    rw [Key.areComparable, Bool.or_eq_true, List.all_eq_true]
    refine Or.inr fun k hk => ?_
    obtain ⟨p, hp, rfl⟩ := List.mem_map.mp hk
    obtain ⟨s, hs⟩ := text_of_keysApart h hp
    cases es with
    | nil => cases hp
    | cons q es =>
      obtain ⟨t, ht⟩ := text_of_keysApart h (List.mem_cons_self (a := q))
      simp [hs, ht, Key.rank?]
  have hplaced : es.any (·.1.isUnplaced) = false := by
    rw [List.any_eq_false]
    intro p hp
    obtain ⟨s, hs⟩ := text_of_keysApart h hp
    rw [hs]
    exact Bool.noConfusion
  rw [sortMembers?, hcomparable, hplaced]
  rfl

/-- Which members can be sorted, and how, depends on their keys alone. -/
theorem sortMembers?_mapValues (f : α → β) (es : List (Key × α)) :
    sortMembers? (mapValues f es) = (sortMembers? es).map (mapValues f) := by
  have harranged : arrangeBy (fun p q => p.1.le q.1) (mapValues f es) =
      mapValues f (arrangeBy (fun p q => p.1.le q.1) es) :=
    arrangeBy_map (fun p : Key × α => (p.1, f p.2)) es
  have hunplaced : (mapValues f es).any (·.1.isUnplaced) = es.any (·.1.isUnplaced) := by
    rw [mapValues, List.any_map]
    rfl
  have hsorted : sortBy (fun p q => p.1.le q.1) (mapValues f es) =
      mapValues f (sortBy (fun p q => p.1.le q.1) es) := sorted_mapValues f es
  rw [sortMembers?, sortMembers?, map_fst_mapValues, hunplaced, harranged, hsorted]
  split
  · rfl
  split <;> rfl

end Entries

end RolloutLedger
