import Mathlib.Data.List.Forall2
import RolloutLedger.Json.Reader
import RolloutLedger.Json.Writer
import RolloutLedger.Proofs.Number.Decimal
import RolloutLedger.Proofs.Outcomes
/-! # Reading what was written

The reader takes a value from the front of a text and leaves what follows, so every statement here
is about a text with something behind it.  A number needs the most care there: what follows must
not go on with it.  The reader is given room for levels of nesting, and fuel; twice the length of
the text is fuel enough.
-/

namespace RolloutLedger.Json

/-! ## Texts -/

theorem hexValue?_hexDigit : ∀ d, d < 16 → hexValue? (Text.hexDigit d) = some d := by decide

theorem hex4?_control {n : Nat} (h : n < 0x20) :
    hex4? '0' '0' (Text.hexDigit (n / 16)) (Text.hexDigit (n % 16)) = some n := by
  have hzero : hexValue? '0' = some 0 := rfl
  have hhigh := hexValue?_hexDigit (n / 16) (by omega)
  have hlow := hexValue?_hexDigit (n % 16) (by omega)
  rw [hex4?, hzero, hhigh, hlow]
  show some (((0 * 16 + 0) * 16 + n / 16) * 16 + n % 16) = some n
  congr 1
  omega

theorem hexPadded_control {n : Nat} (h : n < 0x20) :
    Text.hexPadded 4 n = ['0', '0', Text.hexDigit (n / 16), Text.hexDigit (n % 16)] := by
  have hzero : Text.hexDigit 0 = '0' := rfl
  simp only [Text.hexPadded, List.nil_append, List.cons_append]
  rw [show n / 16 / 16 / 16 % 16 = 0 by omega, show n / 16 / 16 % 16 = 0 by omega,
    show n / 16 % 16 = n / 16 by omega, hzero]

/-- A character that is not escaped stands for itself. -/
theorem textBody?_cons {c : Char} {r : List Char} (hquote : c ≠ '"') (hslash : c ≠ '\\')
    (hcontrol : ¬ c.toNat < 0x20) : textBody? (c :: r) = push c (textBody? r) := by
  rw [textBody?.eq_def]
  split <;> grind

theorem textBody?_escapeChar_append (c : Char) (r : List Char) :
    textBody? (escapeChar c ++ r) = push c (textBody? r) := by
  unfold escapeChar
  split
  · subst c
    simp [textBody?]
  split
  · subst c
    simp [textBody?]
  split
  · subst c
    simp [textBody?]
  split
  · subst c
    simp [textBody?]
  split
  · subst c
    simp [textBody?]
  split
  · subst c
    simp [textBody?]
  split
  · subst c
    simp [textBody?]
  rename_i hquote hslash _ _ _ _ _
  split
  · rename_i hcontrol
    rw [hexPadded_control hcontrol]
    simp only [List.cons_append, List.nil_append]
    rw [textBody?, hex4?_control hcontrol]
    simp [Char.ofNat_toNat, show ¬ 0xd800 ≤ c.toNat by omega, show ¬ 0xdc00 ≤ c.toNat by omega]
  · rename_i hcontrol
    exact textBody?_cons hquote hslash hcontrol

theorem textBody?_escaped (cs r : List Char) :
    textBody? (cs.flatMap escapeChar ++ '"' :: r) = some (cs, r) := by
  induction cs with
  | nil =>
    rw [List.flatMap_nil, List.nil_append]
    simp [textBody?]
  | cons c cs ih =>
    rw [List.flatMap_cons, List.append_assoc, textBody?_escapeChar_append, ih]
    rfl

theorem textBody_escaped (s : String) (r : List Char) :
    textBody (s.toList.flatMap escapeChar ++ '"' :: r) = .ok (s, r) := by
  rw [textBody, textBody?_escaped]
  show Except.ok (String.ofList s.toList, r) = .ok (s, r)
  rw [String.ofList_toList]

/-! ## Numbers -/

/-- Whether a text does not go on with a number that stands in front of it. -/
def endsNumber : List Char → Bool
  | [] => true
  | c :: _ => !(Decimal.isDigit c || c == '.' || c == 'e' || c == 'E')

def endsDigits : List Char → Bool
  | [] => true
  | c :: _ => !Decimal.isDigit c

theorem endsDigits_of_endsNumber {r : List Char} (h : endsNumber r = true) :
    endsDigits r = true := by
  cases r with
  | nil => rfl
  | cons c r =>
    simp only [endsNumber, Bool.not_eq_true', Bool.or_eq_false_iff] at h
    rw [endsDigits, h.1.1.1]
    rfl

theorem span_digits {ds r : List Char} (hds : ∀ c ∈ ds, Decimal.isDigit c = true)
    (hr : endsDigits r = true) :
    (ds ++ r).takeWhile Decimal.isDigit = ds ∧ (ds ++ r).dropWhile Decimal.isDigit = r := by
  rw [List.takeWhile_append_of_pos hds, List.dropWhile_append_of_pos hds]
  cases r with
  | nil => simp
  | cons c r =>
    rw [endsDigits, Bool.not_eq_true'] at hr
    simp [hr]

/-- Digits in front of a point: a single zero, or a run that does not begin with one. -/
theorem whole_append {c : Char} {ds r : List Char} (hc : c ≠ '0')
    (hds : ∀ d ∈ c :: ds, Decimal.isDigit d = true) (hr : endsDigits r = true) :
    whole (c :: ds ++ r) = (c :: ds, r) := by
  obtain ⟨htake, hdrop⟩ := span_digits hds hr
  rw [whole.eq_def]
  split
  · rename_i heq
    exact absurd (List.cons.inj heq).1 hc
  · rw [htake, hdrop]

/-- A numeral is taken as the digits of a number, whatever ends the number behind it. -/
theorem whole_digits_append (n : Nat) {r : List Char} (hr : endsNumber r = true) :
    whole (Decimal.digits n ++ r) = (Decimal.digits n, r) := by
  by_cases hn : n = 0
  · subst hn
    rfl
  · obtain ⟨c, cs, hcons, hzero, -⟩ := Decimal.digits_eq_cons hn
    have hdigits : ∀ c ∈ Decimal.digits n, Decimal.isDigit c = true :=
      fun c hc => Decimal.isDigit_of_mem_digits hc
    rw [hcons] at hdigits ⊢
    exact whole_append hzero hdigits (endsDigits_of_endsNumber hr)

theorem fraction_of_endsNumber {r : List Char} (hr : endsNumber r = true) :
    fraction r = ([], r) := by
  rw [fraction.eq_def]
  split
  · exact Bool.noConfusion hr
  · rfl

theorem exponent_of_endsNumber {r : List Char} (hr : endsNumber r = true) :
    exponent r = (none, r) := by
  cases r with
  | nil => rfl
  | cons c r =>
    simp only [endsNumber, Bool.not_eq_true', Bool.or_eq_false_iff, beq_eq_false_iff_ne] at hr
    rw [exponent, decide_eq_false hr.1.2, decide_eq_false hr.2]
    rfl

theorem unsigned_digits_append (negative : Bool) (n : Nat) {r : List Char}
    (hr : endsNumber r = true) :
    unsigned negative (Decimal.digits n ++ r) =
      if n < Decimal.tenTo Decimal.maxDigits then
        .ok (.int (if negative then -(n : Int) else n), r)
      else .error .unreadable := by
  have hlength := Decimal.length_digits_le_iff (n := n) Decimal.maxDigits_pos
  have hnonempty : (Decimal.digits n).isEmpty = false := by
    rw [List.isEmpty_eq_false_iff]
    exact List.ne_nil_of_length_pos (Decimal.length_digits_pos n)
  simp only [unsigned, whole_digits_append n hr, fraction_of_endsNumber hr,
    exponent_of_endsNumber hr, hnonempty, Bool.false_eq_true, if_false, List.isEmpty_nil,
    Option.isNone_none, Bool.and_self, if_true, Decimal.value_digits]
  by_cases hn : n < Decimal.tenTo Decimal.maxDigits
  · rw [if_pos hn, if_neg (Nat.not_lt.mpr (hlength.mpr hn))]
  · rw [if_neg hn, if_pos (Nat.lt_of_not_le (mt hlength.mp hn))]

/-- An integer is read back unless it has too many digits. -/
theorem number_integer_append (i : Int) {r : List Char} (hr : endsNumber r = true) :
    number (Decimal.integer i ++ r) =
      if Decimal.isExchangeable i then .ok (.int i, r) else .error .unreadable := by
  simp only [Decimal.isExchangeable, decide_eq_true_eq]
  cases i with
  | ofNat n =>
    have hhead : ∀ c ∈ Decimal.digits n, c ≠ '-' := by
      rintro c hc rfl
      exact Bool.noConfusion (Decimal.isDigit_of_mem_digits hc)
    obtain ⟨c, cs, hcons⟩ := List.exists_cons_of_length_pos (Decimal.length_digits_pos n)
    have hc : c ≠ '-' := hhead c (hcons ▸ List.mem_cons_self)
    have hnumber : number (Decimal.digits n ++ r) = unsigned false (Decimal.digits n ++ r) := by
      rw [hcons, List.cons_append, number.eq_def]
      split <;> simp_all
    rw [Decimal.integer, hnumber, unsigned_digits_append false n hr]
    rfl
  | negSucc n =>
    obtain ⟨c, cs, hcons, -, hdigit⟩ := Decimal.digits_eq_cons (Nat.succ_ne_zero n)
    have hc : c ≠ 'I' := by
      rintro rfl
      exact Bool.noConfusion hdigit
    have hnumber : number ('-' :: (Decimal.digits (n + 1) ++ r)) =
        unsigned true (Decimal.digits (n + 1) ++ r) := by
      rw [hcons, List.cons_append, number.eq_def]
      split <;> simp_all
    rw [Decimal.integer, List.cons_append, hnumber, unsigned_digits_append true (n + 1) hr]
    rfl

/-! ## The shape of a written value -/

/-- Blanks, such as begin the lines of a text that is broken into lines. -/
def AreBlank (ws : List Char) : Prop := ∀ c ∈ ws, isSpace c = true

theorem skip_cons {c : Char} (h : isSpace c = false) (r : List Char) : skip (c :: r) = c :: r := by
  rw [skip, List.dropWhile_cons_of_neg (by rw [h]; exact Bool.noConfusion)]

theorem skip_append {ws : List Char} (h : AreBlank ws) (r : List Char) :
    skip (ws ++ r) = skip r := by
  rw [skip, List.dropWhile_append_of_pos h]
  rfl

theorem endsNumber_append {ws r : List Char} (h : AreBlank ws) (hr : endsNumber r = true) :
    endsNumber (ws ++ r) = true := by
  cases ws with
  | nil => exact hr
  | cons c ws =>
    have hc := h c List.mem_cons_self
    simp only [isSpace, Bool.or_eq_true, decide_eq_true_eq] at hc
    rcases hc with ((rfl | rfl) | rfl) | rfl <;> rfl

theorem areBlank_lineStart (l : Layout) (level : Nat) : AreBlank (lineStart l level) := by
  unfold lineStart
  cases l.indent with
  | none => exact fun _ h => absurd h List.not_mem_nil
  | some n =>
    refine List.forall_mem_cons.mpr ⟨rfl, fun c hc => ?_⟩
    rw [List.eq_of_mem_replicate hc]
    rfl

/-- Parts between brackets, each on a line of its own if there are lines. -/
theorem bracketed_eq {parts : List (List Char)} (h : parts ≠ []) (l : Layout) (level : Nat)
    (left right : Char) :
    bracketed l level left right parts =
      left :: (lineStart l (level + 1) ++ ((',' :: lineStart l (level + 1)).intercalate parts ++
        (lineStart l level ++ [right]))) := by
  cases parts with
  | nil => exact absurd rfl h
  | cons p ps => simp [bracketed]

theorem bracketed_append {parts : List (List Char)} (h : parts ≠ []) (l : Layout) (level : Nat)
    (left right : Char) (rest : List Char) :
    bracketed l level left right parts ++ rest =
      left :: (lineStart l (level + 1) ++ ((',' :: lineStart l (level + 1)).intercalate parts ++
        (lineStart l level ++ right :: rest))) := by
  rw [bracketed_eq h]
  simp only [List.cons_append, List.append_assoc, List.nil_append]

theorem length_intercalate_lt_bracketed {parts : List (List Char)} (h : parts ≠ []) (l : Layout)
    (level : Nat) (left right : Char) :
    ((',' :: lineStart l (level + 1)).intercalate parts).length <
      (bracketed l level left right parts).length := by
  rw [bracketed_eq h]
  simp only [List.length_cons, List.length_append, List.length_nil]
  omega

theorem bracketed_stored {parts : List (List Char)} (h : parts ≠ []) (level : Nat)
    (left right : Char) :
    bracketed .stored level left right parts = left :: ([','].intercalate parts ++ [right]) :=
  bracketed_eq h .stored level left right

def gap (l : Layout) : List Char := if l.indent.isNone then [] else [' ']

theorem areBlank_gap (l : Layout) : AreBlank (gap l) := by
  unfold gap
  split
  · exact fun _ h => absurd h List.not_mem_nil
  · intro c hc
    rw [List.mem_singleton.mp hc]
    rfl

theorem memberText_eq (l : Layout) (k cs : List Char) :
    memberText l k cs = quote k ++ ':' :: (gap l ++ cs) := by
  unfold memberText gap
  split <;> simp

theorem memberText_stored (k cs : List Char) :
    memberText .stored k cs = quote k ++ ':' :: cs := memberText_eq .stored k cs

/-! ## Values -/

theorem value_of_number {c : Char} {r : List Char} (fuel room : Nat)
    (h : Decimal.isDigit c = true ∨ c = '-') :
    value (fuel + 1) room (c :: r) = number (c :: r) := by
  rw [value]
  all_goals
    intro _ heq
    obtain ⟨rfl, -⟩ := List.cons.inj heq
    exact absurd h (by decide)

theorem value_integer (i : Int) {r : List Char} (fuel room : Nat) (hr : endsNumber r = true) :
    value (fuel + 1) room (Decimal.integer i ++ r) =
      if Decimal.isExchangeable i then .ok (.int i, r) else .error .unreadable := by
  rw [← number_integer_append i hr]
  cases i with
  | ofNat n =>
    obtain ⟨c, cs, hcons⟩ := List.exists_cons_of_length_pos (Decimal.length_digits_pos n)
    have hc := Decimal.isDigit_of_mem_digits (hcons ▸ List.mem_cons_self (a := c))
    rw [Decimal.integer, hcons, List.cons_append]
    exact value_of_number fuel room (Or.inl hc)
  | negSucc n => exact value_of_number fuel room (Or.inr rfl)

section Steps

variable {fuel room : Nat} {cs r r' : List Char} {v : Value}

theorem value_list {c : Char} (hskip : skip r' = c :: r) (hc : c ≠ ']') :
    value (fuel + 1) (room + 1) ('[' :: r') =
      (items fuel room (c :: r)).map fun (vs, r) => (.list vs, r) := by
  simp only [value, Nat.add_eq_zero_iff, Nat.succ_ne_self, and_false, if_false, hskip,
    Nat.add_sub_cancel]
  split
  · rename_i heq
    exact absurd (List.cons.inj heq).1 hc
  · rfl

theorem value_object {c : Char} (hskip : skip r' = c :: r) (hc : c ≠ '\x7d') :
    value (fuel + 1) (room + 1) ('\x7b' :: r') =
      (members fuel room (c :: r)).map fun (ms, r) => (.object (Entries.ofPairs ms), r) := by
  simp only [value, Nat.add_eq_zero_iff, Nat.succ_ne_self, and_false, if_false, hskip,
    Nat.add_sub_cancel]
  split
  · rename_i heq
    exact absurd (List.cons.inj heq).1 hc
  · rfl

theorem items_comma (h : value fuel room cs = .ok (v, r')) (hskip : skip r' = ',' :: r) :
    items (fuel + 1) room cs = (items fuel room (skip r)).map fun (vs, r) => (v :: vs, r) := by
  rw [items, h]
  simp only [bind, Except.bind, hskip]

theorem items_end (h : value fuel room cs = .ok (v, r')) (hskip : skip r' = ']' :: r) :
    items (fuel + 1) room cs = .ok ([v], r) := by
  rw [items, h]
  simp only [bind, Except.bind, hskip]

theorem items_error {e : Error} (h : value fuel room cs = .error e) :
    items (fuel + 1) room cs = .error e := by
  rw [items, h]
  rfl

theorem members_comma {s : String} (h : value fuel room (skip cs) = .ok (v, r'))
    (hskip : skip r' = ',' :: r) :
    members (fuel + 1) room (quote s.toList ++ ':' :: cs) =
      (members fuel room (skip r)).map fun (ms, r) => ((.text s, v) :: ms, r) := by
  rw [quote, List.cons_append, List.append_assoc, List.singleton_append, members,
    textBody_escaped]
  simp only [bind, Except.bind, skip_cons (show isSpace ':' = false from rfl), h, hskip]

theorem members_end {s : String} (h : value fuel room (skip cs) = .ok (v, r'))
    (hskip : skip r' = '\x7d' :: r) :
    members (fuel + 1) room (quote s.toList ++ ':' :: cs) = .ok ([(.text s, v)], r) := by
  rw [quote, List.cons_append, List.append_assoc, List.singleton_append, members,
    textBody_escaped]
  simp only [bind, Except.bind, skip_cons (show isSpace ':' = false from rfl), h, hskip]

theorem members_error {s : String} {e : Error} (h : value fuel room (skip cs) = .error e) :
    members (fuel + 1) room (quote s.toList ++ ':' :: cs) = .error e := by
  rw [quote, List.cons_append, List.append_assoc, List.singleton_append, members,
    textBody_escaped]
  simp only [bind, Except.bind, skip_cons (show isSpace ':' = false from rfl), h]

end Steps

/-! ## What the reader comes to

A text that is JSON may be refused nevertheless, for its digits or for its nesting.  What becomes
of a list or of an object is therefore stated over the outcomes of its parts.
-/

/-- What comes of a text that is JSON, wherever it stands, given so much room and enough fuel. -/
structure ComesTo (room : Nat) (text : List Char) (x : Except Error Value) : Prop where
  isJson : Meets (fun _ => True) (· ≠ .notJson) x
  value_eq : ∀ (fuel : Nat) (rest : List Char), 2 * text.length ≤ fuel + 1 →
    endsNumber rest = true → value fuel room (text ++ rest) = x.map (·, rest)

/-- A text is read as a value wherever it stands, given so much room and enough fuel. -/
def ReadsAs (room : Nat) (text : List Char) (v : Value) : Prop :=
  ∀ (fuel : Nat) (rest : List Char), 2 * text.length ≤ fuel + 1 → endsNumber rest = true →
    value fuel room (text ++ rest) = .ok (v, rest)

theorem ReadsAs.comesTo {room : Nat} {text : List Char} {v : Value} (h : ReadsAs room text v) :
    ComesTo room text (.ok v) := ⟨.ok trivial, h⟩

theorem ComesTo.readsAs {room : Nat} {text : List Char} {v : Value}
    (h : ComesTo room text (.ok v)) : ReadsAs room text v := h.value_eq

theorem value_error_of_isSpace {c : Char} (hc : isSpace c = true ∨ c = ']' ∨ c = '\x7d')
    (fuel room : Nat) (r : List Char) : value (fuel + 1) room (c :: r) = .error .notJson := by
  simp only [isSpace, Bool.or_eq_true, decide_eq_true_eq] at hc
  rcases hc with (((rfl | rfl) | rfl) | rfl) | rfl | rfl <;> rfl

/-- A text that is JSON begins with neither a blank nor a closing bracket. -/
theorem ComesTo.exists_cons {room : Nat} {text : List Char} {x : Except Error Value}
    (h : ComesTo room text x) :
    ∃ c cs, text = c :: cs ∧ isSpace c = false ∧ c ≠ ']' ∧ c ≠ '\x7d' := by
  have hread := h.value_eq (2 * text.length + 1) [] (by omega) rfl
  have hvalue : value (2 * text.length + 1) room (text ++ []) ≠ .error .notJson := by
    intro herror
    rw [herror] at hread
    exact h.isJson.of_error (map_eq_error_iff.mp hread.symm) rfl
  cases text with
  | nil => exact absurd rfl hvalue
  | cons c cs =>
    have hc : ¬ (isSpace c = true ∨ c = ']' ∨ c = '\x7d') := by
      intro hc
      rw [List.append_nil] at hvalue
      exact hvalue (value_error_of_isSpace hc _ _ _)
    rw [not_or, not_or, Bool.not_eq_true] at hc
    exact ⟨c, cs, rfl, hc⟩

theorem ReadsAs.exists_cons {room : Nat} {text : List Char} {v : Value} (h : ReadsAs room text v) :
    ∃ c cs, text = c :: cs ∧ isSpace c = false ∧ c ≠ ']' ∧ c ≠ '\x7d' := h.comesTo.exists_cons

theorem joined_eq_cons {p : List Char} {c : Char} {cs : List Char} (h : p = c :: cs)
    (between : List Char) (ps : List (List Char)) :
    ∃ ds, between.intercalate (p :: ps) = c :: ds := by
  cases ps with
  | nil => exact ⟨cs, by rw [List.intercalate_singleton, h]⟩
  | cons q ps =>
    refine ⟨cs ++ between ++ between.intercalate (q :: ps), ?_⟩
    rw [List.intercalate_cons_cons, h]
    rfl

section Joined

variable {room level : Nat} {line close : List Char} {l : Layout}

/-- The items of a list are read up to its closing bracket, whatever blanks stand in front of the
items and of the bracket; the first item that is refused is the failure. -/
theorem items_joined {texts : List (List Char)} {xs : List (Except Error Value)}
    (hline : AreBlank line) (hclose : AreBlank close) (h : List.Forall₂ (ComesTo room) texts xs)
    (hne : texts ≠ []) :
    ∀ (fuel : Nat) (rest : List Char), 2 * ((',' :: line).intercalate texts).length ≤ fuel →
      items fuel room ((',' :: line).intercalate texts ++ (close ++ ']' :: rest)) =
        (xs.mapM id).map (·, rest) := by
  induction h with
  | nil => exact absurd rfl hne
  | @cons text x texts xs hx hrest ih =>
    intro fuel rest hfuel
    obtain ⟨c, cs, hcons, -⟩ := hx.exists_cons
    have hpos : 0 < text.length := by rw [hcons]; exact Nat.succ_pos _
    cases hrest with
    | nil =>
      rw [List.intercalate_singleton] at hfuel ⊢
      obtain ⟨fuel, rfl⟩ := Nat.exists_eq_succ_of_ne_zero (show fuel ≠ 0 by omega)
      -- behind the last item stands the closing bracket, which ends a number
      have hvalue := hx.value_eq fuel _ (by omega) (endsNumber_append hclose (r := ']' :: rest) rfl)
      cases x with
      | error e => exact items_error hvalue
      | ok v => exact items_end hvalue (by rw [skip_append hclose, skip_cons rfl])
    | @cons text' y texts xs hy hrest =>
      rw [List.intercalate_cons_cons] at hfuel ⊢
      simp only [List.length_append, List.length_cons] at hfuel
      obtain ⟨fuel, rfl⟩ := Nat.exists_eq_succ_of_ne_zero (show fuel ≠ 0 by omega)
      have hitems := ih (List.cons_ne_nil text' texts) fuel rest (by omega)
      -- the reader skips the blanks in front of the next item and nothing of the item
      obtain ⟨d, ds, hdcons, hd, -⟩ := hy.exists_cons
      obtain ⟨es, hes⟩ := joined_eq_cons hdcons (',' :: line) texts
      rw [List.append_assoc, List.append_assoc, List.cons_append, List.mapM_cons]
      have hvalue := hx.value_eq fuel (',' :: (line ++
        ((',' :: line).intercalate (text' :: texts) ++ (close ++ ']' :: rest)))) (by omega) rfl
      cases x with
      | error e => exact items_error hvalue
      | ok v =>
        rw [items_comma hvalue (skip_cons rfl _), skip_append hline]
        rw [hes, List.cons_append] at hitems ⊢
        rw [skip_cons hd, hitems]
        cases (y :: xs).mapM id <;> rfl

/-- What comes of a list, from what comes of its items. -/
theorem ComesTo.list {texts : List (List Char)} {xs : List (Except Error Value)}
    (h : List.Forall₂ (ComesTo room) texts xs) :
    ComesTo (room + 1) (bracketed l level '[' ']' texts) ((xs.mapM id).map .list) := by
  refine ⟨(Meets.mapM_of_forall₂ h fun _ _ h => h.isJson).map fun _ _ => trivial, ?_⟩
  intro fuel rest hfuel _
  cases h with
  | nil =>
    have hlength : (bracketed l level '[' ']' []).length = 2 := rfl
    obtain ⟨fuel, rfl⟩ := Nat.exists_eq_succ_of_ne_zero (show fuel ≠ 0 by omega)
    rfl
  | @cons text x texts xs hx hrest =>
    have hline := areBlank_lineStart l (level + 1)
    obtain ⟨c, cs, hcons, hc, hc', -⟩ := hx.exists_cons
    obtain ⟨ds, hds⟩ := joined_eq_cons hcons (',' :: lineStart l (level + 1)) texts
    have hne : text :: texts ≠ [] := List.cons_ne_nil _ _
    have hlength := length_intercalate_lt_bracketed hne l level '[' ']'
    obtain ⟨fuel, rfl⟩ := Nat.exists_eq_succ_of_ne_zero (show fuel ≠ 0 by omega)
    have hitems := items_joined hline (areBlank_lineStart l level) (.cons hx hrest) hne fuel rest
      (by omega)
    rw [bracketed_append hne]
    rw [hds, List.cons_append] at hitems ⊢
    rw [value_list (by rw [skip_append hline, skip_cons hc]) hc', hitems]
    cases (x :: xs).mapM id <;> rfl

theorem ReadsAs.list {texts : List (List Char)} {vs : List Value}
    (h : List.Forall₂ (ReadsAs room) texts vs) :
    ReadsAs (room + 1) (bracketed l level '[' ']' texts) (.list vs) := by
  have hlist : ComesTo (room + 1) (bracketed l level '[' ']' texts)
      (((vs.map Except.ok).mapM id).map .list) :=
    .list (List.forall₂_map_right_iff.mpr (h.imp fun _ _ h => h.comesTo))
  rw [mapM_id_map_ok] at hlist
  exact hlist.readsAs

variable (l room) in
/-- What comes of the text of a member: a quoted key, and a value with its outcome. -/
def MemberComesTo (text : List Char) (q : Key × Except Error Value) : Prop :=
  ∃ s cs, q.1 = .text s ∧ text = memberText l s.toList cs ∧ ComesTo room cs q.2

/-- Members from their outcomes; the first value that is refused is the failure. -/
def gathered (qs : List (Key × Except Error Value)) : Except Error Entries :=
  qs.mapM fun q => q.2.map (q.1, ·)

theorem gathered_map_ok (es : Entries) : gathered (es.map fun p => (p.1, .ok p.2)) = .ok es := by
  rw [gathered, List.mapM_map]
  exact (mapM_eq_ok_map (g := id) fun _ _ => rfl).trans (congrArg _ (List.map_id es))

/-- The members of an object are read up to its closing brace, whatever blanks stand in front of the
members and of the brace. -/
theorem members_joined {texts : List (List Char)} {qs : List (Key × Except Error Value)}
    (hline : AreBlank line) (hclose : AreBlank close)
    (h : List.Forall₂ (MemberComesTo room l) texts qs) (hne : texts ≠ []) :
    ∀ (fuel : Nat) (rest : List Char), 2 * ((',' :: line).intercalate texts).length ≤ fuel →
      members fuel room ((',' :: line).intercalate texts ++ (close ++ '\x7d' :: rest)) =
        (gathered qs).map (·, rest) := by
  induction h with
  | nil => exact absurd rfl hne
  | @cons text q texts qs hq hrest ih =>
    intro fuel rest hfuel
    obtain ⟨k, x⟩ := q
    obtain ⟨s, cs, rfl, rfl, hx⟩ : MemberComesTo room l text (k, x) := hq
    obtain ⟨c, r, hcons, hc, -⟩ := hx.exists_cons
    have hskip : ∀ r, skip (gap l ++ (cs ++ r)) = cs ++ r := fun r => by
      rw [skip_append (areBlank_gap l), hcons, List.cons_append, skip_cons hc]
    rw [memberText_eq] at hfuel ⊢
    cases hrest with
    | nil =>
      rw [List.intercalate_singleton] at hfuel ⊢
      simp only [List.length_append, List.length_cons] at hfuel
      obtain ⟨fuel, rfl⟩ := Nat.exists_eq_succ_of_ne_zero (show fuel ≠ 0 by omega)
      rw [List.append_assoc, List.cons_append, List.append_assoc]
      have hvalue := hx.value_eq fuel _ (by omega)
        (endsNumber_append hclose (r := '\x7d' :: rest) rfl)
      rw [← hskip] at hvalue
      cases x with
      | error e => exact members_error hvalue
      | ok v => exact members_end hvalue (by rw [skip_append hclose, skip_cons rfl])
    | @cons text' q' texts qs hq' hrest =>
      -- the text of every further member begins with the quote of its key
      obtain ⟨s', cs', -, rfl, -⟩ := hq'
      obtain ⟨ds, hds⟩ := joined_eq_cons (memberText_eq l s'.toList cs') (',' :: line) texts
      rw [List.intercalate_cons_cons] at hfuel ⊢
      simp only [List.length_append, List.length_cons] at hfuel
      obtain ⟨fuel, rfl⟩ := Nat.exists_eq_succ_of_ne_zero (show fuel ≠ 0 by omega)
      have hmembers := ih (List.cons_ne_nil _ _) fuel rest (by omega)
      rw [List.append_assoc, List.append_assoc, List.append_assoc, List.cons_append,
        List.append_assoc, List.cons_append, gathered, List.mapM_cons, ← gathered]
      have hvalue := hx.value_eq fuel (',' :: (line ++ ((',' :: line).intercalate
        (memberText l s'.toList cs' :: texts) ++ (close ++ '\x7d' :: rest)))) (by omega) rfl
      rw [← hskip] at hvalue
      cases x with
      | error e => exact members_error hvalue
      | ok v =>
        rw [members_comma hvalue (skip_cons rfl _), skip_append hline]
        rw [hds, List.cons_append] at hmembers ⊢
        rw [skip_cons rfl, hmembers]
        cases gathered (q' :: qs) <;> rfl

/-- What comes of an object, from what comes of the values of its members. -/
theorem ComesTo.object {texts : List (List Char)} {qs : List (Key × Except Error Value)}
    (h : List.Forall₂ (MemberComesTo room l) texts qs) :
    ComesTo (room + 1) (bracketed l level '\x7b' '\x7d' texts)
      ((gathered qs).map fun es => .object (Entries.ofPairs es)) := by
  refine ⟨?_, fun fuel rest hfuel _ => ?_⟩
  · refine (Meets.mapM_of_forall₂ (R := fun _ => True) h fun _ q h => ?_).map fun _ _ => trivial
    obtain ⟨_, _, -, -, hvalue⟩ := h
    exact hvalue.isJson.map fun _ _ => trivial
  cases h with
  | nil =>
    have hlength : (bracketed l level '\x7b' '\x7d' []).length = 2 := rfl
    obtain ⟨fuel, rfl⟩ := Nat.exists_eq_succ_of_ne_zero (show fuel ≠ 0 by omega)
    rfl
  | @cons text q texts qs hq hrest =>
    have hline := areBlank_lineStart l (level + 1)
    obtain ⟨s, cs, -, rfl, -⟩ := id hq
    obtain ⟨ds, hds⟩ := joined_eq_cons (memberText_eq l s.toList cs)
      (',' :: lineStart l (level + 1)) texts
    have hne : memberText l s.toList cs :: texts ≠ [] := List.cons_ne_nil _ _
    have hlength := length_intercalate_lt_bracketed hne l level '\x7b' '\x7d'
    obtain ⟨fuel, rfl⟩ := Nat.exists_eq_succ_of_ne_zero (show fuel ≠ 0 by omega)
    have hmembers := members_joined hline (areBlank_lineStart l level) (.cons hq hrest) hne fuel
      rest (by omega)
    rw [bracketed_append hne]
    rw [hds, List.cons_append] at hmembers ⊢
    rw [value_object (by rw [skip_append hline, skip_cons rfl]) (by decide), hmembers]
    cases gathered (q :: qs) <;> rfl

variable (l room) in
/-- A text is read as a member: a quoted key and a value. -/
def ReadsMember (text : List Char) (q : Key × Value) : Prop :=
  ∃ s cs, q.1 = .text s ∧ text = memberText l s.toList cs ∧ ReadsAs room cs q.2

theorem ReadsAs.object {texts : List (List Char)} {es : Entries}
    (h : List.Forall₂ (ReadsMember room l) texts es) :
    ReadsAs (room + 1) (bracketed l level '\x7b' '\x7d' texts)
      (.object (Entries.ofPairs es)) := by
  have hmembers : List.Forall₂ (MemberComesTo room l) texts (es.map fun p => (p.1, .ok p.2)) := by
    refine List.forall₂_map_right_iff.mpr (h.imp fun _ _ h => ?_)
    obtain ⟨s, cs, hkey, htext, hvalue⟩ := h
    exact ⟨s, cs, hkey, htext, hvalue.comesTo⟩
  have hobject : ComesTo (room + 1) (bracketed l level '\x7b' '\x7d' texts)
      ((gathered (es.map fun p => (p.1, .ok p.2))).map fun es => .object (Entries.ofPairs es)) :=
    .object hmembers
  rw [gathered_map_ok] at hobject
  exact hobject.readsAs

end Joined

/-! ### Scalars -/

/-- The first step of reading takes fuel. -/
theorem readsAs_of_step {room : Nat} {text : List Char} {v : Value} (hne : text ≠ [])
    (h : ∀ (fuel : Nat) (rest : List Char), endsNumber rest = true →
      value (fuel + 1) room (text ++ rest) = .ok (v, rest)) : ReadsAs room text v := by
  intro fuel rest hfuel hrest
  have hpos := List.length_pos_of_ne_nil hne
  obtain ⟨fuel, rfl⟩ := Nat.exists_eq_succ_of_ne_zero (show fuel ≠ 0 by omega)
  exact h fuel rest hrest

theorem readsAs_null (room : Nat) : ReadsAs room "null".toList .null :=
  readsAs_of_step (by decide) fun _ _ _ => rfl

theorem readsAs_bool (room : Nat) (b : Bool) : ReadsAs room (boolText b) (.bool b) :=
  readsAs_of_step (by cases b <;> decide) fun _ _ _ => by cases b <;> rfl

theorem integer_ne_nil (i : Int) : Decimal.integer i ≠ [] := by
  cases i with
  | ofNat n => exact List.ne_nil_of_length_pos (Decimal.length_digits_pos n)
  | negSucc n => exact List.cons_ne_nil _ _

/-- An integer is read back, or refused for its digits. -/
theorem comesTo_integer (room : Nat) (i : Int) :
    ComesTo room (Decimal.integer i)
      (if Decimal.isExchangeable i then .ok (.int i) else .error .unreadable) := by
  refine ⟨by split; exacts [.ok trivial, .error Error.noConfusion], fun fuel rest hfuel hrest => ?_⟩
  have hpos := List.length_pos_of_ne_nil (integer_ne_nil i)
  obtain ⟨fuel, rfl⟩ := Nat.exists_eq_succ_of_ne_zero (show fuel ≠ 0 by omega)
  rw [value_integer i fuel room hrest]
  split <;> rfl

theorem readsAs_integer (room : Nat) {i : Int} (hi : Decimal.isExchangeable i = true) :
    ReadsAs room (Decimal.integer i) (.int i) := by
  have h := comesTo_integer room i
  rw [if_pos hi] at h
  exact h.readsAs

theorem readsAs_text (room : Nat) (s : String) : ReadsAs room (quote s.toList) (.text s) := by
  refine readsAs_of_step (List.cons_ne_nil _ _) fun fuel rest _ => ?_
  rw [quote, List.cons_append, List.append_assoc, List.singleton_append, value, textBody_escaped]
  rfl

/-! ## More room

With less room for nesting a text comes to the same, or it is refused for its nesting. -/

/-- With less room the reader is cut short, at a value, in a list, and in an object. -/
theorem curtails_of_le {fuel : Nat} : ∀ {room room' : Nat}, room ≤ room' → ∀ cs : List Char,
    Curtails .tooDeep (value fuel room cs) (value fuel room' cs) ∧
      Curtails .tooDeep (items fuel room cs) (items fuel room' cs) ∧
      Curtails .tooDeep (members fuel room cs) (members fuel room' cs) := by
  induction fuel with
  | zero => exact fun _ _ => ⟨.refl _, .refl _, .refl _⟩
  | succ fuel ih =>
    intro room room' hroom cs
    have hnested : room ≠ 0 → room' ≠ 0 ∧ room - 1 ≤ room' - 1 := by omega
    refine ⟨?_, ?_, ?_⟩
    · rw [value.eq_def, value.eq_def]
      simp only
      split
      case h_2 r | h_3 r =>
        -- a list and an object need a level of nesting, and use it up
        by_cases hzero : room = 0
        · rw [if_pos hzero]
          exact .error _
        · obtain ⟨hne, hle⟩ := hnested hzero
          rw [if_neg hzero, if_neg hne]
          split
          · exact .refl _
          · first
              | exact (ih hle _).2.1.map _
              | exact (ih hle _).2.2.map _
      all_goals exact .refl _
    · rw [items, items]
      refine (ih hroom cs).1.bind fun p => ?_
      simp only
      split
      · exact (ih hroom _).2.1.map _
      · exact .refl _
      · exact .refl _
    · rw [members.eq_def, members.eq_def]
      simp only
      split
      · refine (Curtails.refl _).bind fun p => ?_
        split
        · refine (ih hroom _).1.bind fun q => ?_
          split
          · exact (ih hroom _).2.2.map _
          · exact .refl _
          · exact .refl _
        · exact .refl _
      · exact .refl _

theorem curtails_readWithin {room room' : Nat} (hroom : room ≤ room') (cs : List Char) :
    Curtails .tooDeep (readWithin room cs) (readWithin room' cs) :=
  (curtails_of_le hroom _).1.bind fun _ => .refl _

theorem ReadsAs.mono {room room' : Nat} {text : List Char} {v : Value} (h : ReadsAs room text v)
    (hroom : room ≤ room') : ReadsAs room' text v :=
  fun fuel rest hfuel hrest => (curtails_of_le hroom _).1.of_ok (h fuel rest hfuel hrest)

/-! ## Whole texts -/

section Whole

variable {room room' : Nat} {text : List Char} {v w : Value}

theorem ComesTo.skip_eq {x : Except Error Value} (h : ComesTo room text x) : skip text = text := by
  obtain ⟨c, cs, rfl, hc, -⟩ := h.exists_cons
  exact skip_cons hc cs

/-- A whole text comes to what it comes to anywhere. -/
theorem ComesTo.readWithin_eq {x : Except Error Value} (h : ComesTo room text x) :
    readWithin room text = x := by
  have hread := h.value_eq (2 * text.length + 2) [] (by omega) rfl
  rw [List.append_nil] at hread
  rw [readWithin, h.skip_eq, hread]
  cases x <;> rfl

/-- A text is read as one value only, in whatever room. -/
theorem ReadsAs.unique (h : ReadsAs room text v) (h' : ReadsAs room' text w) : v = w := by
  have hv := (h.mono (Nat.le_max_left room room')).comesTo.readWithin_eq
  have hw := (h'.mono (Nat.le_max_right room room')).comesTo.readWithin_eq
  rw [hw] at hv
  exact (Except.ok.inj hv).symm

/-- Whatever a text that can be read is read as, in however little room, it is that value. -/
theorem ReadsAs.eq_of_readWithin (h : ReadsAs room text v)
    (hw : readWithin room' text = .ok w) : w = v := by
  have hmore := (h.mono (Nat.le_max_right room' room)).comesTo.readWithin_eq
  have hread := (curtails_readWithin (Nat.le_max_left room' room) text).of_ok hw
  rw [hread] at hmore
  exact Except.ok.inj hmore

end Whole

end RolloutLedger.Json
