import RolloutLedger.Proofs.Number.Decimal
import RolloutLedger.Text.Numeral
/-! # How what is not a number is spelled

Before a numeral is read, the digits of all scripts become ASCII digits, the blanks at its ends go,
and so do the underscores between its digits.  Nothing of that makes or changes a letter.  So what
is not a number is read from its word alone, with a sign in front and blanks around, and no sequence
of digits is ever read as what is not a number.
-/

namespace RolloutLedger.Text

/-! ## Blanks -/

theorem exists_trim (cs : List Char) :
    ∃ before after, cs = before ++ trim cs ++ after ∧ (∀ c ∈ before, isBlank c = true) ∧
      ∀ c ∈ after, isBlank c = true := by
  refine ⟨cs.takeWhile isBlank, ((cs.dropWhile isBlank).reverse.takeWhile isBlank).reverse, ?_, ?_,
    ?_⟩
  · rw [trim, List.append_assoc, ← List.reverse_append, List.takeWhile_append_dropWhile,
      List.reverse_reverse, List.takeWhile_append_dropWhile]
  · intro c hc
    exact List.all_eq_true.mp List.all_takeWhile c hc
  · intro c hc
    exact List.all_eq_true.mp List.all_takeWhile c (List.mem_reverse.mp hc)

theorem dropWhile_append_of_neg {cs : List Char} (h : ∀ c ∈ cs, isBlank c = false)
    (hne : cs ≠ []) (rest : List Char) : (cs ++ rest).dropWhile isBlank = cs ++ rest := by
  obtain ⟨c, cs, rfl⟩ := List.exists_cons_of_ne_nil hne
  rw [List.cons_append, List.dropWhile_cons_of_neg]
  rw [h c List.mem_cons_self]
  exact Bool.false_ne_true

theorem trim_append {before body after : List Char} (hbefore : ∀ c ∈ before, isBlank c = true)
    (hafter : ∀ c ∈ after, isBlank c = true) (hbody : ∀ c ∈ body, isBlank c = false)
    (hne : body ≠ []) : trim (before ++ body ++ after) = body := by
  have hbody' : ∀ c ∈ body.reverse, isBlank c = false := by
    intro c hc
    exact hbody c (List.mem_reverse.mp hc)
  have hafter' : ∀ c ∈ after.reverse, isBlank c = true := by
    intro c hc
    exact hafter c (List.mem_reverse.mp hc)
  have hback := dropWhile_append_of_neg hbody' (mt List.reverse_eq_nil_iff.mp hne) []
  rw [List.append_nil] at hback
  rw [trim, List.append_assoc, List.dropWhile_append_of_pos hbefore,
    dropWhile_append_of_neg hbody hne, List.reverse_append, List.dropWhile_append_of_pos hafter',
    hback, List.reverse_reverse]

/-! ## Digits of other scripts -/

/-- A digit of any script as an ASCII digit, and every other character as it is. -/
def asciiDigit (c : Char) : Char :=
  match digitValue? c with
  | some d => Decimal.digitChar d
  | none => c

theorem asciiDigits_eq_map (cs : List Char) : asciiDigits cs = cs.map asciiDigit := rfl

theorem asciiDigit_cases (c : Char) :
    asciiDigit c = c ∨ Decimal.isDigit (asciiDigit c) = true := by
  rw [asciiDigit]
  cases hd : digitValue? c with
  | none => exact Or.inl rfl
  | some d =>
    rw [digitValue?, Option.map_eq_some_iff] at hd
    obtain ⟨first, hfirst, rfl⟩ := hd
    have hblock := List.find?_some hfirst
    rw [Bool.and_eq_true, decide_eq_true_eq, decide_eq_true_eq] at hblock
    exact Or.inr (Decimal.isDigit_digitChar (by omega))

/-- A text without digits has become what it was. -/
theorem eq_of_asciiDigits_eq {cs ds : List Char} (h : asciiDigits cs = ds)
    (hds : ∀ c ∈ ds, Decimal.isDigit c = false) : cs = ds := by
  rw [asciiDigits_eq_map] at h
  have hsame : ∀ c ∈ cs, asciiDigit c = c := by
    intro c hc
    rcases asciiDigit_cases c with hcase | hcase
    · exact hcase
    · have hmem : asciiDigit c ∈ ds := h ▸ List.mem_map_of_mem hc
      rw [hds _ hmem] at hcase
      exact absurd hcase Bool.false_ne_true
  rw [← h, List.map_congr_left hsame, List.map_id']

theorem asciiDigits_eq_self {cs : List Char} (h : ∀ c ∈ cs, digitValue? c = none) :
    asciiDigits cs = cs := by
  have hsame : ∀ c ∈ cs, asciiDigit c = c := by
    intro c hc
    rw [asciiDigit, h c hc]
  rw [asciiDigits_eq_map, List.map_congr_left hsame, List.map_id']

def blankPoints : List Nat :=
  [0x09, 0x0a, 0x0b, 0x0c, 0x0d, 0x20, 0x85, 0xa0, 0x1680, 0x2000, 0x2001, 0x2002, 0x2003, 0x2004,
    0x2005, 0x2006, 0x2007, 0x2008, 0x2009, 0x200a, 0x2028, 0x2029, 0x202f, 0x205f, 0x3000]

theorem mem_blankPoints {c : Char} (h : isBlank c = true) : c.toNat ∈ blankPoints := by
  simp only [isBlank, Bool.or_eq_true, Bool.and_eq_true, decide_eq_true_eq, beq_iff_eq] at h
  simp only [blankPoints, List.mem_cons, List.not_mem_nil, or_false]
  omega

/-- No blank is a digit of any script. -/
theorem digitValue?_of_isBlank {c : Char} (h : isBlank c = true) : digitValue? c = none := by
  have hall : ∀ n ∈ blankPoints,
      (digitZeros.find? fun first => first ≤ n && n < first + 10) = none := by decide
  rw [digitValue?, hall _ (mem_blankPoints h)]
  rfl

theorem isDigit_of_isBlank {c : Char} (h : isBlank c = true) : Decimal.isDigit c = false := by
  have hall : ∀ n ∈ blankPoints, (decide (48 ≤ n) && decide (n ≤ 57)) = false := by decide
  exact hall _ (mem_blankPoints h)

/-! ## Underscores -/

theorem dropUnderscores_cons {c : Char} (hc : c ≠ '_') (afterDigit : Bool) (cs : List Char) :
    dropUnderscores afterDigit (c :: cs) =
      (dropUnderscores (Decimal.isDigit c) cs).map (c :: ·) := by
  rw [dropUnderscores]
  exact hc

theorem dropUnderscores_eq_self {cs : List Char} (h : ∀ c ∈ cs, c ≠ '_') (afterDigit : Bool) :
    dropUnderscores afterDigit cs = some cs := by
  induction cs generalizing afterDigit with
  | nil => rfl
  | cons c cs ih =>
    obtain ⟨hc, hcs⟩ := List.forall_mem_cons.mp h
    rw [dropUnderscores_cons hc, ih hcs]
    rfl

/-- Where no digit is left, no underscore was there. -/
theorem eq_of_dropUnderscores {cs ds : List Char} (h : dropUnderscores false cs = some ds)
    (hds : ∀ c ∈ ds, Decimal.isDigit c = false) : cs = ds := by
  induction cs generalizing ds with
  | nil => exact Option.some.inj h
  | cons c cs ih =>
    by_cases hc : c = '_'
    · rw [hc] at h
      cases cs <;> exact nomatch h
    · rw [dropUnderscores_cons hc, Option.map_eq_some_iff] at h
      obtain ⟨ds, hcs, rfl⟩ := h
      obtain ⟨hdigit, hds⟩ := List.forall_mem_cons.mp hds
      rw [hdigit] at hcs
      rw [ih hcs hds]

/-! ## The word -/

def signs : List (List Char) := [[], ['+'], ['-']]

/-- A spelling of what is not a number: the word `nan` in letters of any case, after a sign or
none, with blanks around it or none. -/
def SpellsNan (s : String) : Prop :=
  ∃ before sign word after, s.toList = before ++ (sign ++ word) ++ after ∧ sign ∈ signs ∧
    word.map lowerAscii = ['n', 'a', 'n'] ∧ (∀ c ∈ before, isBlank c = true) ∧
    ∀ c ∈ after, isBlank c = true

def nanLetters : List Char := ['+', '-', 'n', 'N', 'a', 'A']

theorem mem_nanLetters_of_lowerAscii {c : Char} (h : lowerAscii c = 'n' ∨ lowerAscii c = 'a') :
    c ∈ ['n', 'N', 'a', 'A'] := by
  rw [lowerAscii] at h
  split at h
  · rename_i hupper
    rw [Bool.and_eq_true, decide_eq_true_eq, decide_eq_true_eq] at hupper
    have hall : ∀ n < 91, Char.ofNat (n + 32) = 'n' ∨ Char.ofNat (n + 32) = 'a' → 65 ≤ n →
        Char.ofNat n ∈ ['n', 'N', 'a', 'A'] := by decide
    have hmem := hall c.toNat (by omega) h hupper.1
    rwa [Char.ofNat_toNat] at hmem
  · rcases h with rfl | rfl <;> decide

/-- A sign and the word consist of their letters. -/
theorem mem_nanLetters {sign word : List Char} (hsign : sign ∈ signs)
    (hword : word.map lowerAscii = ['n', 'a', 'n']) : ∀ c ∈ sign ++ word, c ∈ nanLetters := by
  intro c hc
  rcases List.mem_append.mp hc with hc | hc
  · simp only [signs, List.mem_cons, List.not_mem_nil, or_false] at hsign
    rcases hsign with rfl | rfl | rfl
    · exact absurd hc List.not_mem_nil
    · rw [List.mem_singleton.mp hc]
      decide
    · rw [List.mem_singleton.mp hc]
      decide
  · have hlower := List.mem_map_of_mem (f := lowerAscii) hc
    rw [hword] at hlower
    have hletter : lowerAscii c = 'n' ∨ lowerAscii c = 'a' := by
      simp only [List.mem_cons, List.not_mem_nil, or_false] at hlower
      rcases hlower with h | h | h
      · exact Or.inl h
      · exact Or.inr h
      · exact Or.inl h
    exact List.mem_cons_of_mem _ (List.mem_cons_of_mem _ (mem_nanLetters_of_lowerAscii hletter))

theorem nanLetters_spec {c : Char} (h : c ∈ nanLetters) : isBlank c = false ∧
    Decimal.isDigit c = false ∧ digitValue? c = none ∧ c ≠ '_' := by
  simp only [nanLetters, List.mem_cons, List.not_mem_nil, or_false] at h
  rcases h with rfl | rfl | rfl | rfl | rfl | rfl <;> decide

/-! ## Signs -/

theorem exists_sign {cs rest : List Char} {negative : Bool} (h : splitSign cs = (negative, rest)) :
    ∃ sign ∈ signs, cs = sign ++ rest := by
  unfold splitSign at h
  split at h
  · exact ⟨['-'], by decide, by rw [← (Prod.mk.inj h).2]; rfl⟩
  · exact ⟨['+'], by decide, by rw [← (Prod.mk.inj h).2]; rfl⟩
  · exact ⟨[], by decide, by rw [← (Prod.mk.inj h).2]; rfl⟩

theorem splitSign_append {sign word : List Char} (hsign : sign ∈ signs)
    (hword : word.map lowerAscii = ['n', 'a', 'n']) :
    ∃ negative, splitSign (sign ++ word) = (negative, word) := by
  simp only [signs, List.mem_cons, List.not_mem_nil, or_false] at hsign
  rcases hsign with rfl | rfl | rfl
  · refine ⟨false, ?_⟩
    rw [List.nil_append]
    unfold splitSign
    split
    · exact nomatch hword
    · exact nomatch hword
    · rfl
  · exact ⟨false, rfl⟩
  · exact ⟨true, rfl⟩

/-! ## Numbers -/

theorem ofUnitRatio_ne_nan (negative : Bool) (n d : Nat) :
    Binary64.ofUnitRatio negative n d ≠ .nan := by
  rw [Binary64.ofUnitRatio]
  split <;> exact Binary64.noConfusion

theorem ofDecimal_ne_nan (negative : Bool) (mantissa : Nat) (exponent : Int) :
    Binary64.ofDecimal negative mantissa exponent ≠ .nan := by
  unfold Binary64.ofDecimal
  dsimp only
  split
  · exact Binary64.noConfusion
  split
  · exact Binary64.noConfusion
  split
  · exact Binary64.noConfusion
  · split <;> exact ofUnitRatio_ne_nan _ _ _

theorem decimal?_ne_nan (negative : Bool) (cs : List Char) : decimal? negative cs ≠ some .nan := by
  rw [decimal?]
  intro h
  split at h
  split at h
  · exact nomatch h
  · rw [Option.map_eq_some_iff] at h
    obtain ⟨e, -, h⟩ := h
    exact ofDecimal_ne_nan _ _ _ h

/-! ## The way in and the way out -/

theorem spellsNan_of_binary64? {s : String} (h : binary64? s = some .nan) : SpellsNan s := by
  rw [binary64?, Option.bind_eq_bind, Option.bind_eq_some_iff] at h
  obtain ⟨body, hbody, h⟩ := h
  obtain ⟨⟨negative, word⟩, hsplit⟩ : ∃ p, splitSign body = p := ⟨_, rfl⟩
  rw [hsplit] at h
  dsimp only at h
  have hword : word.map lowerAscii = ['n', 'a', 'n'] := by
    split at h
    · exact nomatch h
    split at h
    · rename_i hnan
      have hlist := congrArg String.toList hnan
      rw [String.toList_ofList] at hlist
      exact hlist
    · exact absurd h (decimal?_ne_nan negative word)
  obtain ⟨sign, hsign, rfl⟩ := exists_sign hsplit
  have hdigits : ∀ c ∈ sign ++ word, Decimal.isDigit c = false := by
    intro c hc
    exact (nanLetters_spec (mem_nanLetters hsign hword c hc)).2.1
  -- without digits, what was taken away are blanks only
  obtain ⟨before, after, hwhole, hbefore, hafter⟩ := exists_trim (asciiDigits s.toList)
  rw [eq_of_dropUnderscores hbody hdigits] at hwhole
  refine ⟨before, sign, word, after, eq_of_asciiDigits_eq hwhole ?_, hsign, hword, hbefore, hafter⟩
  rw [List.forall_mem_append, List.forall_mem_append]
  refine ⟨⟨?_, hdigits⟩, ?_⟩
  · intro c hc
    exact isDigit_of_isBlank (hbefore c hc)
  · intro c hc
    exact isDigit_of_isBlank (hafter c hc)

theorem binary64?_of_spellsNan {s : String} (h : SpellsNan s) : binary64? s = some .nan := by
  obtain ⟨before, sign, word, after, hs, hsign, hword, hbefore, hafter⟩ := h
  have hletters : ∀ c ∈ sign ++ word, isBlank c = false ∧ Decimal.isDigit c = false ∧
      digitValue? c = none ∧ c ≠ '_' := by
    intro c hc
    exact nanLetters_spec (mem_nanLetters hsign hword c hc)
  have hascii : asciiDigits s.toList = before ++ (sign ++ word) ++ after := by
    rw [hs]
    apply asciiDigits_eq_self
    rw [List.forall_mem_append, List.forall_mem_append]
    refine ⟨⟨?_, ?_⟩, ?_⟩
    · intro c hc
      exact digitValue?_of_isBlank (hbefore c hc)
    · intro c hc
      exact (hletters c hc).2.2.1
    · intro c hc
      exact digitValue?_of_isBlank (hafter c hc)
  have htrim : trim (before ++ (sign ++ word) ++ after) = sign ++ word := by
    apply trim_append hbefore hafter
    · intro c hc
      exact (hletters c hc).1
    · intro hnil
      rw [(List.append_eq_nil_iff.mp hnil).2] at hword
      exact nomatch hword
  have hunderscores : dropUnderscores false (sign ++ word) = some (sign ++ word) := by
    apply dropUnderscores_eq_self
    intro c hc
    exact (hletters c hc).2.2.2
  obtain ⟨negative, hsplit⟩ := splitSign_append hsign hword
  rw [binary64?, hascii, htrim, hunderscores, Option.bind_eq_bind, Option.bind_some, hsplit]
  dsimp only
  rw [hword]
  rfl

/-- **What is not a number is read from its word alone**, whatever the case of the letters, the sign
in front and the blanks around. -/
theorem binary64?_eq_nan_iff {s : String} : binary64? s = some .nan ↔ SpellsNan s :=
  ⟨spellsNan_of_binary64?, binary64?_of_spellsNan⟩

/-- A sign, blanks and the case of letters make no difference. -/
example : SpellsNan "\t+nAn " := binary64?_eq_nan_iff.mp (by decide)

end RolloutLedger.Text
