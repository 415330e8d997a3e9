import RolloutLedger.Text.Encoding
/-! # Texts as bytes and back

The bytes of a text are scanned into just the characters of the text.  Text that begins with an
ASCII character other than NUL and goes on without a NUL shows itself to be UTF-8.
-/

namespace RolloutLedger

namespace Utf8

/-! ## Well-formed characters

The scan takes one, two, three or four bytes for a character, as the first byte says. -/

section Scan

variable {a b c d : UInt8} {r : Bytes}

theorem scan_one (ha : a.toNat < 0x80) :
    scan (a :: r) = some (Char.ofNat a.toNat) :: scan r := by
  rw [scan.eq_def]
  simp only [if_pos ha]

theorem scan_two (ha : 0xc2 ≤ a.toNat) (ha' : a.toNat < 0xe0) (hb : isContinuation b = true) :
    scan (a :: b :: r) = some (Char.ofNat (a.toNat % 32 * 64 + payload b)) :: scan r := by
  have hfirst : (decide (0xc2 ≤ a.toNat) && decide (a.toNat < 0xe0)) = true := by
    simp only [ha, ha', decide_true, Bool.and_self]
  rw [scan.eq_def]
  simp only [if_neg (show ¬ a.toNat < 0x80 by omega), hfirst, if_true, hb]

theorem scan_three (ha : 0xe0 ≤ a.toNat) (ha' : a.toNat < 0xf0)
    (hb : isSecondOfThree a b = true) (hc : isContinuation c = true) :
    scan (a :: b :: c :: r) =
      some (Char.ofNat (a.toNat % 16 * 4096 + payload b * 64 + payload c)) :: scan r := by
  have hfirst : (decide (0xe0 ≤ a.toNat) && decide (a.toNat < 0xf0)) = true := by
    simp only [ha, ha', decide_true, Bool.and_self]
  have hnot : (decide (0xc2 ≤ a.toNat) && decide (a.toNat < 0xe0)) = false := by
    simp only [decide_eq_false (show ¬ a.toNat < 0xe0 by omega), Bool.and_false]
  rw [scan.eq_def]
  simp only [if_neg (show ¬ a.toNat < 0x80 by omega), hnot, Bool.false_eq_true, if_false, hfirst,
    if_true, hb, hc]

theorem scan_four (ha : 0xf0 ≤ a.toNat) (ha' : a.toNat < 0xf5)
    (hb : isSecondOfFour a b = true) (hc : isContinuation c = true)
    (hd : isContinuation d = true) :
    scan (a :: b :: c :: d :: r) =
      some (Char.ofNat
        (a.toNat % 8 * 262144 + payload b * 4096 + payload c * 64 + payload d)) :: scan r := by
  have hfirst : (decide (0xf0 ≤ a.toNat) && decide (a.toNat < 0xf5)) = true := by
    simp only [ha, ha', decide_true, Bool.and_self]
  have hnot : (decide (0xc2 ≤ a.toNat) && decide (a.toNat < 0xe0)) = false := by
    simp only [decide_eq_false (show ¬ a.toNat < 0xe0 by omega), Bool.and_false]
  have hnot' : (decide (0xe0 ≤ a.toNat) && decide (a.toNat < 0xf0)) = false := by
    simp only [decide_eq_false (show ¬ a.toNat < 0xf0 by omega), Bool.and_false]
  rw [scan.eq_def]
  simp only [if_neg (show ¬ a.toNat < 0x80 by omega), hnot, hnot', Bool.false_eq_true, if_false,
    hfirst, if_true, hb, hc, hd]

end Scan

/-! ## Texts -/

theorem toNat_ofNat {n : Nat} (h : n < 256) : (UInt8.ofNat n).toNat = n := by
  rw [UInt8.toNat_ofNat']
  exact Nat.mod_eq_of_lt h

theorem isContinuation_ofNat {n : Nat} : isContinuation (UInt8.ofNat (0x80 + n % 64)) = true := by
  rw [isContinuation, toNat_ofNat (by omega), Bool.and_eq_true, decide_eq_true_eq,
    decide_eq_true_eq]
  omega

theorem payload_ofNat (n : Nat) : payload (UInt8.ofNat (0x80 + n % 64)) = n % 64 := by
  rw [payload, toNat_ofNat (by omega)]
  omega

theorem toNat_range (c : Char) : c.toNat < 0xd800 ∨ 0xdfff < c.toNat ∧ c.toNat < 0x110000 :=
  c.valid

theorem scan_encodeChar_append (c : Char) (r : Bytes) :
    scan (encodeChar c ++ r) = some c :: scan r := by
  have hrange := toNat_range c
  have hchar : ∀ n, n = c.toNat → Char.ofNat n = c := by
    rintro n rfl
    exact Char.ofNat_toNat c
  rw [encodeChar]
  -- one, two, three or four bytes
  by_cases h1 : c.toNat < 0x80
  · have ha := toNat_ofNat (show c.toNat < 256 by omega)
    rw [if_pos h1, List.singleton_append, scan_one (by rw [ha]; exact h1), ha, hchar _ rfl]
  rw [if_neg h1]
  by_cases h2 : c.toNat < 0x800
  · have ha := toNat_ofNat (show 0xc0 + c.toNat / 64 < 256 by omega)
    rw [if_pos h2, List.cons_append, List.singleton_append,
      scan_two (by omega) (by omega) isContinuation_ofNat, ha, payload_ofNat, hchar]
    omega
  rw [if_neg h2]
  by_cases h3 : c.toNat < 0x10000
  · have ha := toNat_ofNat (show 0xe0 + c.toNat / 4096 < 256 by omega)
    have hb := toNat_ofNat (show 0x80 + c.toNat / 64 % 64 < 256 by omega)
    have hsecond : isSecondOfThree (UInt8.ofNat (0xe0 + c.toNat / 4096))
        (UInt8.ofNat (0x80 + c.toNat / 64 % 64)) = true := by
      rw [isSecondOfThree, isContinuation_ofNat, ha, hb]
      simp only [Bool.true_and, Bool.and_eq_true, Bool.or_eq_true, bne_iff_ne,
        decide_eq_true_eq]
      omega
    rw [if_pos h3, List.cons_append, List.cons_append, List.singleton_append,
      scan_three (by omega) (by omega) hsecond isContinuation_ofNat, ha, payload_ofNat,
      payload_ofNat, hchar]
    omega
  rw [if_neg h3]
  have ha := toNat_ofNat (show 0xf0 + c.toNat / 262144 < 256 by omega)
  have hb := toNat_ofNat (show 0x80 + c.toNat / 4096 % 64 < 256 by omega)
  have hsecond : isSecondOfFour (UInt8.ofNat (0xf0 + c.toNat / 262144))
      (UInt8.ofNat (0x80 + c.toNat / 4096 % 64)) = true := by
    rw [isSecondOfFour, isContinuation_ofNat, ha, hb]
    simp only [Bool.true_and, Bool.and_eq_true, Bool.or_eq_true, bne_iff_ne, decide_eq_true_eq]
    omega
  rw [List.cons_append, List.cons_append, List.cons_append, List.singleton_append,
    scan_four (by omega) (by omega) hsecond isContinuation_ofNat isContinuation_ofNat, ha,
    payload_ofNat, payload_ofNat, payload_ofNat, hchar]
  omega

theorem scan_encode (cs : List Char) : scan (encode cs) = cs.map some := by
  induction cs with
  | nil => rw [encode, List.flatMap_nil, scan.eq_def, List.map_nil]
  | cons c cs ih =>
    rw [encode, List.flatMap_cons, scan_encodeChar_append, List.map_cons, ← ih]
    rfl

/-- **Texts survive as bytes.** -/
theorem decode?_encode (cs : List Char) : decode? (encode cs) = some cs := by
  rw [decode?, scan_encode]
  induction cs with
  | nil => rfl
  | cons c cs ih =>
    rw [List.map_cons, List.mapM_cons, ih]
    rfl

theorem encode_injective {cs ds : List Char} (h : encode cs = encode ds) : cs = ds := by
  have hdecode := decode?_encode cs
  rw [h, decode?_encode] at hdecode
  exact (Option.some.inj hdecode).symm

/-- No byte of a character is zero, unless the character is NUL. -/
theorem toNat_ne_zero_of_mem_encodeChar {c : Char} (hc : c.toNat ≠ 0) :
    ∀ b ∈ encodeChar c, b.toNat ≠ 0 := by
  have hrange := toNat_range c
  rw [encodeChar]
  split
  · intro b hb
    rw [List.mem_singleton.mp hb, toNat_ofNat (by omega)]
    exact hc
  split
  · simp only [List.forall_mem_cons, List.not_mem_nil, false_implies, implies_true, and_true]
    constructor <;> rw [toNat_ofNat (by omega)] <;> omega
  split
  · simp only [List.forall_mem_cons, List.not_mem_nil, false_implies, implies_true, and_true]
    refine ⟨?_, ?_, ?_⟩ <;> rw [toNat_ofNat (by omega)] <;> omega
  · simp only [List.forall_mem_cons, List.not_mem_nil, false_implies, implies_true, and_true]
    refine ⟨?_, ?_, ?_, ?_⟩ <;> rw [toNat_ofNat (by omega)] <;> omega

theorem zero_not_mem_encode {cs : List Char} (h : ∀ c ∈ cs, c.toNat ≠ 0) : 0 ∉ encode cs := by
  intro hzero
  obtain ⟨c, hc, hb⟩ := List.mem_flatMap.mp hzero
  exact toNat_ne_zero_of_mem_encodeChar (h c hc) 0 hb rfl

end Utf8

namespace Text.Encoding

theorem ofMark?_of_ascii {a : UInt8} {r : Bytes} (h : 0 < a.toNat) (h' : a.toNat < 0x80) :
    ofMark? (a :: r) = none := by
  have hne : ∀ n : UInt8, n.toNat = 0 ∨ 0x80 ≤ n.toNat → a ≠ n := by
    rintro n hn rfl
    omega
  rw [ofMark?.eq_def]
  split <;> first
    | rfl
    | (rename_i heq; exact absurd (List.cons.inj heq).1 (hne _ (by decide)))

theorem ofZeros_of_ne_zero {bs : Bytes} (h : 0 ∉ bs) : ofZeros bs = .utf8 := by
  have hne : ∀ a ∈ bs, a ≠ 0 := fun a ha hzero => h (hzero ▸ ha)
  rw [ofZeros.eq_def]
  split
  · rw [if_neg (hne _ (by simp)), if_neg (hne _ (by simp))]
  · rw [if_neg (hne _ (by simp)), if_neg (hne _ (by simp))]
  · rfl

/-- A text that begins with an ASCII character other than NUL shows no byte-order mark. -/
theorem ofMark?_encode {c : Char} (hc : c.toNat < 0x80) (hpos : c.toNat ≠ 0) (cs : List Char) :
    ofMark? (Utf8.encode (c :: cs)) = none := by
  have hfirst : Utf8.encode (c :: cs) = UInt8.ofNat c.toNat :: Utf8.encode cs := by
    rw [Utf8.encode, List.flatMap_cons, Utf8.encodeChar, if_pos hc]
    rfl
  have hbyte := Utf8.toNat_ofNat (show c.toNat < 256 by omega)
  rw [hfirst]
  exact ofMark?_of_ascii (by omega) (by omega)

/-- A text that begins with an ASCII character and has no NUL is recognized by its bytes. -/
theorem decodeAny?_encode {c : Char} {cs : List Char} (hc : c.toNat < 0x80)
    (h : ∀ d ∈ c :: cs, d.toNat ≠ 0) :
    decodeAny? (Utf8.encode (c :: cs)) = some (c :: cs) := by
  rw [decodeAny?, ofMark?_encode hc (h c List.mem_cons_self),
    ofZeros_of_ne_zero (Utf8.zero_not_mem_encode h)]
  exact Utf8.decode?_encode _

end Text.Encoding

end RolloutLedger
