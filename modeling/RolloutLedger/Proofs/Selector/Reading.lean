import RolloutLedger.Proofs.Json.Rereading
import RolloutLedger.Selector
/-! # Reading the query of a selector

The commas of a query stand between its conditions, and within brackets between the values of one
condition.  As long as no key and no value holds a character with a meaning in queries, a query can
be read: it is cut at the commas outside of brackets, and each part is a condition of its own.

The main statement is that the query of a selector is read as that selector, with its labels and
the values of its requirements in order.  So a query leaves out nothing but the order of these.
-/

namespace RolloutLedger

namespace Selector

/-! ## Selectors that queries can express -/

def marks : List Char := [',', '=', '!', '(', ')', ' ']

/-- Whether a text holds no character with a meaning in queries. -/
def isBare (t : List Char) : Bool := t.all fun c => !marks.contains c

structure IsBareKey (t : String) : Prop where
  nonempty : t ≠ ""
  bare : isBare t.toList = true

instance (t : String) : Decidable (IsBareKey t) :=
  decidable_of_iff (t ≠ "" ∧ isBare t.toList = true)
    ⟨fun h => ⟨h.1, h.2⟩, fun h => ⟨h.nonempty, h.bare⟩⟩

/-- Selectors whose keys and values are texts that a query can hold. -/
structure IsExpressible (s : Selector) : Prop where
  /-- No two labels have the same key. -/
  keysApart : Entries.keysApart s.labels = true
  labels : ∀ p ∈ s.labels, ∃ k v, p = (.text k, .text v) ∧ IsBareKey k ∧ isBare v.toList = true
  keys : ∀ r ∈ s.requirements, IsBareKey r.key
  values : ∀ r ∈ s.requirements, ∀ v ∈ r.values, isBare v.toList = true

/-- Whether a character is a letter, a digit or one of those that labels may hold between them. -/
def isOfLabels (c : Char) : Bool := c.isAlphanum || ['-', '_', '.', '/'].contains c

theorem not_mem_of_isBare {t : List Char} (h : isBare t = true) {c : Char} (hc : c ∈ marks) :
    c ∉ t := by
  intro hmem
  have hmark := List.all_eq_true.mp h c hmem
  rw [List.contains_iff_mem.mpr hc] at hmark
  exact Bool.noConfusion hmark

theorem isBare_of_isOfLabels {t : List Char} (h : t.all isOfLabels = true) : isBare t = true := by
  have hmarks : marks.all (fun c => !isOfLabels c) = true := by decide
  refine List.all_eq_true.mpr fun c hc => ?_
  have hlabel := List.all_eq_true.mp h c hc
  rw [Bool.not_eq_true', ← Bool.not_eq_true, List.contains_iff_mem]
  intro hmark
  have hother := List.all_eq_true.mp hmarks c hmark
  rw [hlabel] at hother
  exact Bool.noConfusion hother

/-! ## Selectors in order -/

def Requirement.sorted (r : Requirement) : Requirement where
  key := r.key
  operator := r.operator
  values := sortBy textLe r.values
  fits := by rw [r.fits, (sortBy_perm textLe r.values).isEmpty_eq]

/-- A selector with its labels and the values of its requirements in order. -/
def sorted (s : Selector) : Selector :=
  ⟨Entries.sorted s.labels, s.requirements.map Requirement.sorted⟩

/-! ## The parts of a query -/

/-- The pieces of a text that is cut at the commas outside of brackets. -/
def cut : (within : Bool) → List Char → List (List Char)
  | _, [] => [[]]
  | true, c :: cs => (cut (c != ')') cs).modifyHead (c :: ·)
  | false, c :: cs =>
    if c = ',' then [] :: cut false cs else (cut (c == '(') cs).modifyHead (c :: ·)

def parts (query : List Char) : List (List Char) := if query = [] then [] else cut false query

/-- Whether a text in front of another one is not cut, and leaves no bracket open. -/
def IsWhole (part : List Char) : Prop :=
  ∀ rest, cut false (part ++ rest) = (cut false rest).modifyHead (part ++ ·)

theorem IsWhole.append {p q : List Char} (hp : IsWhole p) (hq : IsWhole q) :
    IsWhole (p ++ q) := by
  intro rest
  rw [List.append_assoc, hp, hq, List.modifyHead_modifyHead]
  congr 1
  funext front
  exact (List.append_assoc p q front).symm

theorem isWhole_of_not_mem {p : List Char} (hcomma : ',' ∉ p) (hbracket : '(' ∉ p) :
    IsWhole p := by
  induction p with
  | nil =>
    intro rest
    exact (congrFun List.modifyHead_id (cut false rest)).symm
  | cons c p ih =>
    intro rest
    rw [List.mem_cons, not_or] at hcomma hbracket
    rw [List.cons_append, cut, if_neg (Ne.symm hcomma.1), beq_false_of_ne (Ne.symm hbracket.1),
      ih hcomma.2 hbracket.2, List.modifyHead_modifyHead]
    rfl

theorem isWhole_bracketed {inner : List Char} (h : ')' ∉ inner) :
    IsWhole ('(' :: (inner ++ [')'])) := by
  -- behind the opening bracket, the induction goes up to the closing one
  have hwithin : ∀ rest, cut true (inner ++ ')' :: rest) =
      (cut false rest).modifyHead (inner ++ [')'] ++ ·) := by
    intro rest
    induction inner with
    | nil => rfl
    | cons c inner ih =>
      rw [List.mem_cons, not_or] at h
      rw [List.cons_append, cut, bne_iff_ne.mpr (Ne.symm h.1), ih h.2,
        List.modifyHead_modifyHead]
      rfl
  intro rest
  rw [List.cons_append, List.append_assoc, cut, if_neg (by decide)]
  show (cut true (inner ++ ')' :: rest)).modifyHead ('(' :: ·) = _
  rw [hwithin, List.modifyHead_modifyHead]
  rfl

theorem cut_intercalate {ps : List (List Char)} (h : ∀ p ∈ ps, IsWhole p) (hne : ps ≠ []) :
    cut false ([','].intercalate ps) = ps := by
  induction ps with
  | nil => exact absurd rfl hne
  | cons p ps ih =>
    obtain ⟨hp, hps⟩ := List.forall_mem_cons.mp h
    cases ps with
    | nil =>
      have hwhole := hp []
      rw [List.append_nil, cut, List.modifyHead_cons, List.append_nil] at hwhole
      rw [List.intercalate_singleton, hwhole]
    | cons q ps =>
      rw [List.intercalate_cons_cons, List.append_assoc, hp, List.singleton_append, cut,
        if_pos rfl, ih hps (List.cons_ne_nil q ps), List.modifyHead_cons, List.append_nil]

theorem parts_intercalate {ps : List (List Char)} (h : ∀ p ∈ ps, IsWhole p ∧ p ≠ []) :
    parts ([','].intercalate ps) = ps := by
  by_cases hps : ps = []
  · rw [hps]
    rfl
  have hcut := cut_intercalate (fun p hp => (h p hp).1) hps
  -- an empty query would be cut into a single empty part
  have hquery : [','].intercalate ps ≠ [] := by
    intro hnil
    rw [hnil, cut] at hcut
    exact (h [] (hcut ▸ List.mem_cons_self)).2 rfl
  rw [parts, if_neg hquery, hcut]

/-! ## Reading a query -/

def bracketed? : List Char → Option (List Char)
  | '(' :: rest => if rest.getLast? = some ')' then some rest.dropLast else none
  | _ => none

/-- The selector with a requirement as its only condition, if there is such a requirement. -/
def requiring? (key : List Char) (operator : Operator) (values : List (List Char)) :
    Option Selector :=
  (Requirement.make (.ofList key) operator (values.map .ofList)).toOption.map fun r => ⟨[], [r]⟩

def ofWord? (word : List Char) : Option Selector :=
  match word.splitOn '=' with
  | [key, value] => some (.ofLabels [(.text (.ofList key), .text (.ofList value))])
  | [key] =>
    if key.head? = some '!' then requiring? key.tail .absent [] else requiring? key .present []
  | _ => none

def Operator.word : Operator → List Char
  | isIn => ['i', 'n']
  | notIn => ['n', 'o', 't', 'i', 'n']
  | present | absent => []

def Operator.ofWord? (word : List Char) : Option Operator := [isIn, notIn].find? (·.word == word)

def ofPart? (part : List Char) : Option Selector :=
  match part.splitOn ' ' with
  | [word] => ofWord? word
  | [key, word, values] => do
    requiring? key (← Operator.ofWord? word) ((← bracketed? values).splitOn ',')
  | _ => none

def both (s t : Selector) : Selector := ⟨s.labels ++ t.labels, s.requirements ++ t.requirements⟩

def ofParts? : List (List Char) → Option Selector
  | [] => some everything
  | p :: ps => do return (← ofPart? p).both (← ofParts? ps)

def ofQuery? (query : String) : Option Selector := ofParts? (parts query.toList)

/-! ## Reading what was written -/

/-- Whether a part of a query is kept whole and read as a selector. -/
structure IsReadAs (part : List Char) (s : Selector) : Prop where
  whole : IsWhole part
  nonempty : part ≠ []
  read : ofPart? part = some s

/-- Requiring the key, the operator and the sorted values of a requirement is that requirement,
in order. -/
theorem requiring?_sorted {r : Requirement} {operator : Operator} (h : r.operator = operator) :
    requiring? r.key.toList operator ((sortBy textLe r.values).map String.toList) =
      some ⟨[], [r.sorted]⟩ := by
  have hvalues : ((sortBy textLe r.values).map String.toList).map String.ofList =
      sortBy textLe r.values := by
    rw [List.map_map]
    exact List.map_id'' (fun _ => String.ofList_toList) _
  have hmake : Requirement.make r.key r.operator (sortBy textLe r.values) = .ok r.sorted :=
    dif_pos r.sorted.fits
  rw [requiring?, hvalues, String.ofList_toList, ← h, hmake]
  rfl

theorem Requirement.values_eq_nil_iff (r : Requirement) :
    r.values = [] ↔ r.operator.takesValues = false := by
  rw [r.fits, Bool.not_eq_false', List.isEmpty_iff]

theorem requiring?_of_not_takesValues {r : Requirement} {operator : Operator}
    (h : r.operator = operator) (hnone : operator.takesValues = false) :
    requiring? r.key.toList operator [] = some ⟨[], [r.sorted]⟩ := by
  have hread := requiring?_sorted h
  rw [r.values_eq_nil_iff.mpr (h ▸ hnone)] at hread
  exact hread

theorem isReadAs_label {k v : String} (hk : IsBareKey k) (hv : isBare v.toList = true) :
    IsReadAs (labelQuery (.text k, .text v)).toList (.ofLabels [(.text k, .text v)]) := by
  have htext : (labelQuery (.text k, .text v)).toList = k.toList ++ '=' :: v.toList := by
    show ((k ++ "=") ++ v).toList = _
    rw [String.toList_append, String.toList_append, List.append_assoc]
    rfl
  -- the equals sign is all that has a meaning in the text of a label
  have habsent : ∀ c ∈ marks, c ≠ '=' → c ∉ k.toList ++ '=' :: v.toList := by
    intro c hc hne
    rw [List.mem_append, List.mem_cons, not_or, not_or]
    exact ⟨not_mem_of_isBare hk.bare hc, hne, not_mem_of_isBare hv hc⟩
  rw [htext]
  refine ⟨isWhole_of_not_mem (habsent _ (by decide) (by decide))
    (habsent _ (by decide) (by decide)), by simp, ?_⟩
  rw [ofPart?, List.splitOn_eq_singleton (habsent _ (by decide) (by decide))]
  show ofWord? _ = _
  rw [ofWord?, List.splitOn_append_cons_self_of_not_mem (not_mem_of_isBare hk.bare (by decide)),
    List.splitOn_eq_singleton (not_mem_of_isBare hv (by decide))]
  simp only [String.ofList_toList]

/-- A part with neither a blank nor an equals sign is a key that is there or not. -/
theorem ofPart?_key {part : List Char} (hblank : ' ' ∉ part) (hequals : '=' ∉ part) :
    ofPart? part = if part.head? = some '!' then requiring? part.tail .absent []
      else requiring? part .present [] := by
  rw [ofPart?, List.splitOn_eq_singleton hblank]
  show ofWord? part = _
  rw [ofWord?, List.splitOn_eq_singleton hequals]

theorem isReadAs_present {r : Requirement} (hkey : IsBareKey r.key)
    (hoperator : r.operator = .present) : IsReadAs r.query.toList ⟨[], [r.sorted]⟩ := by
  have habsent : ∀ c ∈ marks, c ∉ r.key.toList := fun _ => not_mem_of_isBare hkey.bare
  have hhead : r.key.toList.head? ≠ some '!' :=
    fun hhead => habsent _ (by decide) (List.mem_of_mem_head? hhead)
  rw [Requirement.query, hoperator]
  refine ⟨isWhole_of_not_mem (habsent _ (by decide)) (habsent _ (by decide)),
    by simpa using hkey.nonempty, ?_⟩
  rw [ofPart?_key (habsent _ (by decide)) (habsent _ (by decide)), if_neg hhead]
  exact requiring?_of_not_takesValues hoperator rfl

theorem isReadAs_absent {r : Requirement} (hkey : IsBareKey r.key)
    (hoperator : r.operator = .absent) : IsReadAs r.query.toList ⟨[], [r.sorted]⟩ := by
  have htext : r.query.toList = '!' :: r.key.toList := by
    rw [Requirement.query, hoperator]
    show ("!" ++ r.key).toList = _
    rw [String.toList_append]
    rfl
  -- here the exclamation mark in front is all that has a meaning
  have habsent : ∀ c ∈ marks, c ≠ '!' → c ∉ '!' :: r.key.toList := by
    intro c hc hne
    rw [List.mem_cons, not_or]
    exact ⟨hne, not_mem_of_isBare hkey.bare hc⟩
  rw [htext]
  refine ⟨isWhole_of_not_mem (habsent _ (by decide) (by decide))
    (habsent _ (by decide) (by decide)), List.cons_ne_nil _ _, ?_⟩
  rw [ofPart?_key (habsent _ (by decide) (by decide)) (habsent _ (by decide) (by decide)),
    List.head?_cons, if_pos rfl]
  exact requiring?_of_not_takesValues hoperator rfl

/-! Requirements with values: a key, a word and the values in brackets. -/

theorem toList_valuesText (r : Requirement) :
    r.valuesText.toList = [','].intercalate ((sortBy textLe r.values).map String.toList) := by
  rw [Requirement.valuesText, String.toList_intercalate]
  rfl

theorem not_mem_of_mem_values {r : Requirement} (hvalues : ∀ v ∈ r.values, isBare v.toList = true)
    {value : List Char} (hvalue : value ∈ (sortBy textLe r.values).map String.toList) {c : Char}
    (hc : c ∈ marks) : c ∉ value := by
  obtain ⟨v, hv, rfl⟩ := List.mem_map.mp hvalue
  exact not_mem_of_isBare (hvalues v ((mem_sortBy _ _ _).mp hv)) hc

/-- The text of values holds no character with a meaning in queries but for commas. -/
theorem not_mem_valuesText {r : Requirement} (hvalues : ∀ v ∈ r.values, isBare v.toList = true)
    {c : Char} (hc : c ∈ marks) (hcomma : c ≠ ',') : c ∉ r.valuesText.toList := by
  rw [toList_valuesText]
  intro hmem
  rcases Json.mem_intercalate hmem with h | ⟨value, hvalue, hmem⟩
  · exact hcomma h
  · exact not_mem_of_mem_values hvalues hvalue hc hmem

theorem splitOn_valuesText {r : Requirement} (hvalues : ∀ v ∈ r.values, isBare v.toList = true)
    (hne : r.values ≠ []) :
    r.valuesText.toList.splitOn ',' = (sortBy textLe r.values).map String.toList := by
  rw [toList_valuesText]
  refine List.splitOn_intercalate ','
    (fun value hvalue => not_mem_of_mem_values hvalues hvalue (by decide)) ?_
  intro hnil
  have hperm := sortBy_perm textLe r.values
  rw [List.map_eq_nil_iff.mp hnil] at hperm
  exact hne (List.nil_perm.mp hperm)

theorem bracketed?_append (inner : List Char) :
    bracketed? ('(' :: (inner ++ [')'])) = some inner := by
  simp [bracketed?]

/-- A key, a word and something in brackets, with blanks between them. -/
def listing (key word inner : List Char) : List Char :=
  key ++ ' ' :: (word ++ ' ' :: '(' :: (inner ++ [')']))

section Listing

variable {key word inner : List Char}

theorem isWhole_listing (hkey : ',' ∉ key ∧ '(' ∉ key) (hword : ',' ∉ word ∧ '(' ∉ word)
    (hinner : ')' ∉ inner) : IsWhole (listing key word inner) := by
  have hblank : IsWhole [' '] := isWhole_of_not_mem (by decide) (by decide)
  have hwhole := ((isWhole_of_not_mem hkey.1 hkey.2).append hblank).append
    (((isWhole_of_not_mem hword.1 hword.2).append hblank).append (isWhole_bracketed hinner))
  rwa [List.append_assoc, List.append_assoc] at hwhole

theorem splitOn_listing (hkey : ' ' ∉ key) (hword : ' ' ∉ word) (hinner : ' ' ∉ inner) :
    (listing key word inner).splitOn ' ' = [key, word, '(' :: (inner ++ [')'])] := by
  have hbrackets : ' ' ∉ '(' :: (inner ++ [')']) := by
    rw [List.mem_cons, List.mem_append, List.mem_singleton, not_or, not_or]
    exact ⟨by decide, hinner, by decide⟩
  rw [listing, List.splitOn_append_cons_self_of_not_mem hkey,
    List.splitOn_append_cons_self_of_not_mem hword, List.splitOn_eq_singleton hbrackets]

end Listing

theorem Operator.ofWord?_word {o : Operator} (h : o.takesValues = true) :
    Operator.ofWord? o.word = some o := by
  cases o with
  | isIn => rfl
  | notIn => rfl
  | present => exact Bool.noConfusion h
  | absent => exact Bool.noConfusion h

theorem Operator.isBare_word (o : Operator) : isBare o.word = true := by
  cases o <;> rfl

theorem toList_query_of_takesValues {r : Requirement} (h : r.operator.takesValues = true) :
    r.query.toList = listing r.key.toList r.operator.word r.valuesText.toList := by
  cases hoperator : r.operator with
  | isIn =>
    rw [Requirement.query, hoperator]
    simp [listing, Operator.word]
  | notIn =>
    rw [Requirement.query, hoperator]
    simp [listing, Operator.word]
  | present => rw [hoperator] at h; exact Bool.noConfusion h
  | absent => rw [hoperator] at h; exact Bool.noConfusion h

theorem isReadAs_listing {r : Requirement} (hkey : IsBareKey r.key)
    (hvalues : ∀ v ∈ r.values, isBare v.toList = true) (htakes : r.operator.takesValues = true) :
    IsReadAs r.query.toList ⟨[], [r.sorted]⟩ := by
  have habsent : ∀ c ∈ marks, c ∉ r.key.toList := fun _ => not_mem_of_isBare hkey.bare
  have hword : ∀ c ∈ marks, c ∉ r.operator.word :=
    fun _ => not_mem_of_isBare r.operator.isBare_word
  have hne : r.values ≠ [] := by rw [ne_eq, r.values_eq_nil_iff, htakes]; exact Bool.noConfusion
  have hinner : ∀ c ∈ marks, c ≠ ',' → c ∉ r.valuesText.toList :=
    fun _ => not_mem_valuesText hvalues
  rw [toList_query_of_takesValues htakes]
  refine ⟨isWhole_listing ⟨habsent _ (by decide), habsent _ (by decide)⟩
    ⟨hword _ (by decide), hword _ (by decide)⟩ (hinner _ (by decide) (by decide)),
    by simp [listing], ?_⟩
  rw [ofPart?, splitOn_listing (habsent _ (by decide)) (hword _ (by decide))
    (hinner _ (by decide) (by decide))]
  simp only [bracketed?_append, Operator.ofWord?_word htakes, Option.bind_eq_bind,
    Option.bind_some, splitOn_valuesText hvalues hne]
  exact requiring?_sorted rfl

/-- **A requirement is read back** from its text, with its values in order. -/
theorem isReadAs_requirement {r : Requirement} (hkey : IsBareKey r.key)
    (hvalues : ∀ v ∈ r.values, isBare v.toList = true) :
    IsReadAs r.query.toList ⟨[], [r.sorted]⟩ := by
  cases hoperator : r.operator with
  | isIn => exact isReadAs_listing hkey hvalues (by rw [hoperator]; rfl)
  | notIn => exact isReadAs_listing hkey hvalues (by rw [hoperator]; rfl)
  | present => exact isReadAs_present hkey hoperator
  | absent => exact isReadAs_absent hkey hoperator

/-! ## What a query tells -/

theorem ofParts?_requirements {rs : List Requirement}
    (h : ∀ r ∈ rs, ofPart? r.query.toList = some ⟨[], [r.sorted]⟩) :
    ofParts? (rs.map (·.query.toList)) = some ⟨[], rs.map Requirement.sorted⟩ := by
  induction rs with
  | nil => rfl
  | cons r rs ih =>
    obtain ⟨hr, hrs⟩ := List.forall_mem_cons.mp h
    rw [List.map_cons, ofParts?, hr, ih hrs]
    rfl

theorem ofParts?_labels {es : Entries} {ps : List (List Char)} {t : Selector}
    (h : ∀ p ∈ es, ofPart? (labelQuery p).toList = some (.ofLabels [p]))
    (ht : ofParts? ps = some t) :
    ofParts? (es.map (fun p => (labelQuery p).toList) ++ ps) =
      some ⟨es ++ t.labels, t.requirements⟩ := by
  induction es with
  | nil => exact ht
  | cons p es ih =>
    obtain ⟨hp, hes⟩ := List.forall_mem_cons.mp h
    rw [List.map_cons, List.cons_append, ofParts?, hp, ih hes]
    rfl

/-- **The query of a selector is read as the selector**, with its labels and the values of its
requirements in order. -/
theorem ofQuery?_query {s : Selector} (h : s.IsExpressible) :
    ∃ q, s.query = .ok q ∧ ofQuery? q = some s.sorted := by
  have hlabels : ∀ p ∈ Entries.sorted s.labels,
      IsReadAs (labelQuery p).toList (.ofLabels [p]) := by
    intro p hp
    obtain ⟨k, v, rfl, hk, hv⟩ := h.labels p ((Entries.sorted_perm s.labels).mem_iff.mp hp)
    exact isReadAs_label hk hv
  have hrequirements : ∀ r ∈ s.requirements, IsReadAs r.query.toList ⟨[], [r.sorted]⟩ :=
    fun r hr => isReadAs_requirement (h.keys r hr) (h.values r hr)
  refine ⟨_, by rw [query, Entries.sortMembers?_eq h.keysApart], ?_⟩
  have htext : (",".intercalate ((Entries.sorted s.labels).map labelQuery ++
        s.requirements.map (·.query))).toList =
      [','].intercalate ((Entries.sorted s.labels).map (fun p => (labelQuery p).toList) ++
        s.requirements.map (·.query.toList)) := by
    rw [String.toList_intercalate, List.map_append, List.map_map, List.map_map]
    rfl
  rw [ofQuery?, htext, parts_intercalate]
  · rw [ofParts?_labels (fun p hp => (hlabels p hp).read)
      (ofParts?_requirements fun r hr => (hrequirements r hr).read), List.append_nil]
    rfl
  · intro part hpart
    rcases List.mem_append.mp hpart with hpart | hpart
    · obtain ⟨p, hp, rfl⟩ := List.mem_map.mp hpart
      exact ⟨(hlabels p hp).whole, (hlabels p hp).nonempty⟩
    · obtain ⟨r, hr, rfl⟩ := List.mem_map.mp hpart
      exact ⟨(hrequirements r hr).whole, (hrequirements r hr).nonempty⟩

end Selector

end RolloutLedger
