import RolloutLedger.Number
/-! # Numerals and numbers

Numerals read back as the numbers they were written for, and how long a numeral is says how
large its number is.
-/

namespace RolloutLedger.Decimal

/-! ## Digits -/

theorem toNat_digitChar {d : Nat} (h : d < 10) : (digitChar d).toNat = 48 + d := by
  have hvalid : (48 + d).isValidChar := Or.inl (by omega)
  rw [digitChar, Char.ofNat, dif_pos hvalid]
  show (UInt32.ofNatLT (48 + d) _).toNat = 48 + d
  exact UInt32.toNat_ofNatLT

theorem isDigit_digitChar {d : Nat} (h : d < 10) : isDigit (digitChar d) = true := by
  rw [isDigit, toNat_digitChar h, Bool.and_eq_true, decide_eq_true_eq, decide_eq_true_eq]
  omega

theorem digitValue_digitChar {d : Nat} (h : d < 10) : digitValue (digitChar d) = d := by
  rw [digitValue, toNat_digitChar h]
  omega

theorem digitChar_digitValue {c : Char} (h : isDigit c = true) : digitChar (digitValue c) = c := by
  rw [isDigit, Bool.and_eq_true, decide_eq_true_eq, decide_eq_true_eq] at h
  rw [digitChar, digitValue, Nat.add_sub_cancel' h.1, Char.ofNat_toNat]

theorem digitValue_lt {c : Char} (h : isDigit c = true) : digitValue c < 10 := by
  rw [isDigit, Bool.and_eq_true, decide_eq_true_eq, decide_eq_true_eq] at h
  rw [digitValue]
  omega

/-! ## Powers of ten -/

theorem tenTo_zero : tenTo 0 = 1 := rfl

theorem tenTo_succ (k : Nat) : tenTo (k + 1) = tenTo k * 10 := rfl

theorem tenTo_le_tenTo {k l : Nat} (h : k ≤ l) : tenTo k ≤ tenTo l :=
  Nat.pow_le_pow_right (by decide) h

/-! ## Runs of digits -/

theorem value_append_singleton (cs : List Char) (c : Char) :
    value (cs ++ [c]) = 10 * value cs + digitValue c := by
  rw [value, List.foldl_append]
  rfl

theorem value_lt {cs : List Char} (h : ∀ c ∈ cs, isDigit c = true) :
    value cs < tenTo cs.length := by
  have hfold : ∀ (cs : List Char) (n : Nat), (∀ c ∈ cs, isDigit c = true) →
      cs.foldl (fun n c => 10 * n + digitValue c) n < (n + 1) * tenTo cs.length := by
    intro cs
    induction cs with
    | nil =>
      intro n _
      rw [List.foldl_nil, List.length_nil, tenTo_zero]
      omega
    | cons c cs ih =>
      intro n hcs
      have hc := digitValue_lt (hcs c List.mem_cons_self)
      rw [List.foldl_cons, List.length_cons]
      refine Nat.lt_of_lt_of_le (ih _ fun d hd => hcs d (List.mem_cons_of_mem _ hd)) ?_
      have hstep : 10 * n + digitValue c + 1 ≤ (n + 1) * 10 := by omega
      calc (10 * n + digitValue c + 1) * tenTo cs.length
          ≤ (n + 1) * 10 * tenTo cs.length := Nat.mul_le_mul_right _ hstep
        _ = (n + 1) * tenTo (cs.length + 1) := by
          rw [tenTo_succ, Nat.mul_assoc, Nat.mul_comm 10]
  have hwhole := hfold cs 0 h
  rw [Nat.zero_add, Nat.one_mul] at hwhole
  exact hwhole

theorem value_replicate_zero_append (k : Nat) (cs : List Char) :
    value (List.replicate k '0' ++ cs) = value cs := by
  induction k with
  | zero => rfl
  | succ k ih =>
    rw [List.replicate_succ, List.cons_append, value, List.foldl_cons]
    exact ih

/-- A run of digits stands for its front, shifted by what follows, and what follows. -/
theorem value_append (cs ds : List Char) :
    value (cs ++ ds) = value cs * tenTo ds.length + value ds := by
  induction ds generalizing cs with
  | nil =>
    rw [List.append_nil, List.length_nil, tenTo_zero, Nat.mul_one]
    rfl
  | cons d ds ih =>
    have hfront := ih (cs ++ [d])
    have hback := ih [d]
    rw [List.append_assoc, List.singleton_append, value_append_singleton] at hfront
    rw [List.singleton_append] at hback
    have hdigit : value [d] = digitValue d := by
      show 10 * 0 + digitValue d = digitValue d
      omega
    rw [hfront, hback, hdigit, List.length_cons, tenTo_succ, Nat.add_mul, Nat.add_assoc,
      Nat.mul_comm 10, Nat.mul_assoc, Nat.mul_comm 10]

theorem value_append_replicate_zero (cs : List Char) (k : Nat) :
    value (cs ++ List.replicate k '0') = value cs * tenTo k := by
  have hzeros : value (List.replicate k '0') = 0 := by
    have h := value_replicate_zero_append k []
    rwa [List.append_nil] at h
  rw [value_append, List.length_replicate, hzeros, Nat.add_zero]

/-! ### Their order -/

theorem value_cons (c : Char) (cs : List Char) :
    value (c :: cs) = digitValue c * tenTo cs.length + value cs := by
  have happend := value_append [c] cs
  have hdigit : value [c] = digitValue c := by
    show 10 * 0 + digitValue c = digitValue c
    omega
  rw [List.singleton_append, hdigit] at happend
  exact happend

theorem digit_lt_iff {c d : Char} (hc : isDigit c = true) (hd : isDigit d = true) :
    c < d ↔ digitValue c < digitValue d := by
  rw [isDigit, Bool.and_eq_true, decide_eq_true_eq, decide_eq_true_eq] at hc hd
  rw [Char.lt_def, UInt32.lt_iff_toNat_lt, digitValue, digitValue]
  show c.toNat < d.toNat ↔ _
  omega

theorem digit_eq_iff {c d : Char} (hc : isDigit c = true) (hd : isDigit d = true) :
    c = d ↔ digitValue c = digitValue d := by
  constructor
  · exact congrArg digitValue
  · intro h
    rw [← digitChar_digitValue hc, h, digitChar_digitValue hd]

/-- A greater digit in front outweighs all digits that follow. -/
theorem value_cons_lt_iff {c d : Char} {cs ds : List Char} (hcs : ∀ x ∈ cs, isDigit x = true)
    (hds : ∀ x ∈ ds, isDigit x = true) (hlength : cs.length = ds.length) :
    value (c :: cs) < value (d :: ds) ↔
      digitValue c < digitValue d ∨ digitValue c = digitValue d ∧ value cs < value ds := by
  have hbound := value_lt hcs
  have hbound' := value_lt hds
  rw [hlength] at hbound
  rw [value_cons, value_cons, hlength]
  rcases Nat.lt_trichotomy (digitValue c) (digitValue d) with hlt | heq | hgt
  · have hstep := Nat.mul_le_mul_right (tenTo ds.length) hlt
    rw [Nat.succ_mul] at hstep
    omega
  · rw [heq]
    omega
  · have hstep := Nat.mul_le_mul_right (tenTo ds.length) hgt
    rw [Nat.succ_mul] at hstep
    omega

theorem value_cons_eq_iff {c d : Char} {cs ds : List Char} (hcs : ∀ x ∈ cs, isDigit x = true)
    (hds : ∀ x ∈ ds, isDigit x = true) (hlength : cs.length = ds.length) :
    value (c :: cs) = value (d :: ds) ↔
      digitValue c = digitValue d ∧ value cs = value ds := by
  have hlt := value_cons_lt_iff (c := c) (d := d) hcs hds hlength
  have hgt := value_cons_lt_iff (c := d) (d := c) hds hcs hlength.symm
  omega

/-- Texts that start with runs of digits of one length are in the order of the numbers, and those
that start with the same number in the order of what follows. -/
theorem append_lt_append_iff {xs ys : List Char} (hxs : ∀ c ∈ xs, isDigit c = true)
    (hys : ∀ c ∈ ys, isDigit c = true) (hlength : xs.length = ys.length) (cs ds : List Char) :
    xs ++ cs < ys ++ ds ↔ value xs < value ys ∨ value xs = value ys ∧ cs < ds := by
  induction xs generalizing ys with
  | nil =>
    rw [List.length_eq_zero_iff.mp hlength.symm]
    simp
  | cons x xs ih =>
    cases ys with
    | nil => exact nomatch hlength
    | cons y ys =>
      obtain ⟨hx, hxs⟩ := List.forall_mem_cons.mp hxs
      obtain ⟨hy, hys⟩ := List.forall_mem_cons.mp hys
      have hrest : xs.length = ys.length := Nat.succ.inj hlength
      rw [List.cons_append, List.cons_append, List.cons_lt_cons_iff, ih hxs hys hrest,
        value_cons_lt_iff hxs hys hrest, value_cons_eq_iff hxs hys hrest, digit_lt_iff hx hy,
        digit_eq_iff hx hy]
      constructor
      · rintro (h | ⟨h, hlt | ⟨heq, hcs⟩⟩)
        · exact Or.inl (Or.inl h)
        · exact Or.inl (Or.inr ⟨h, hlt⟩)
        · exact Or.inr ⟨⟨h, heq⟩, hcs⟩
      · rintro ((h | ⟨h, hlt⟩) | ⟨⟨h, heq⟩, hcs⟩)
        · exact Or.inl h
        · exact Or.inr ⟨h, Or.inl hlt⟩
        · exact Or.inr ⟨h, Or.inr ⟨heq, hcs⟩⟩

/-! ## Numerals -/

/-- Enough fuel for the digits of a number is more than the number. -/
theorem digitsUpTo_eq_digits {fuel n : Nat} (h : n < fuel) : digitsUpTo fuel n = digits n := by
  have hfuel : ∀ (m fuel fuel' : Nat), m < fuel → m < fuel' →
      digitsUpTo fuel m = digitsUpTo fuel' m := by
    intro m
    induction m using Nat.strongRecOn with
    | ind m ih =>
      intro fuel fuel' hfuel hfuel'
      obtain ⟨k, rfl⟩ := Nat.exists_eq_succ_of_ne_zero (by omega : fuel ≠ 0)
      obtain ⟨k', rfl⟩ := Nat.exists_eq_succ_of_ne_zero (by omega : fuel' ≠ 0)
      rw [digitsUpTo, digitsUpTo]
      by_cases hm : m < 10
      · rw [if_pos hm, if_pos hm]
      · rw [if_neg hm, if_neg hm, ih (m / 10) (by omega) k k' (by omega) (by omega)]
  exact hfuel n fuel (n + 1) h (Nat.lt_succ_self n)

theorem digits_of_lt {n : Nat} (h : n < 10) : digits n = [digitChar n] := by
  rw [digits, digitsUpTo, if_pos h]

theorem digits_of_ge {n : Nat} (h : 10 ≤ n) :
    digits n = digits (n / 10) ++ [digitChar (n % 10)] := by
  rw [digits, digitsUpTo, if_neg (by omega), digitsUpTo_eq_digits (by omega)]

/-- Induction over numerals: numbers below ten, and others by their last digit. -/
theorem digits_induction {motive : Nat → Prop} (small : ∀ n, n < 10 → motive n)
    (large : ∀ n, 10 ≤ n → motive (n / 10) → motive n) (n : Nat) : motive n := by
  induction n using Nat.strongRecOn with
  | ind n ih =>
    by_cases h : n < 10
    · exact small n h
    · exact large n (by omega) (ih (n / 10) (by omega))

theorem isDigit_of_mem_digits {n : Nat} {c : Char} (h : c ∈ digits n) : isDigit c = true := by
  induction n using digits_induction with
  | small n hn =>
    rw [digits_of_lt hn, List.mem_singleton] at h
    rw [h]
    exact isDigit_digitChar hn
  | large n hn ih =>
    rw [digits_of_ge hn, List.mem_append, List.mem_singleton] at h
    rcases h with h | rfl
    · exact ih h
    · exact isDigit_digitChar (Nat.mod_lt n (by omega))

theorem value_digits (n : Nat) : value (digits n) = n := by
  induction n using digits_induction with
  | small n hn =>
    rw [digits_of_lt hn]
    show 10 * 0 + digitValue (digitChar n) = n
    rw [digitValue_digitChar hn]
    omega
  | large n hn ih =>
    rw [digits_of_ge hn, value_append_singleton, ih,
      digitValue_digitChar (Nat.mod_lt n (by omega))]
    omega

theorem length_digits_pos (n : Nat) : 0 < (digits n).length := by
  induction n using digits_induction with
  | small n hn =>
    rw [digits_of_lt hn]
    exact Nat.one_pos
  | large n hn ih =>
    rw [digits_of_ge hn, List.length_append]
    omega

theorem length_digits_le_iff {n k : Nat} (hk : 0 < k) : (digits n).length ≤ k ↔ n < tenTo k := by
  obtain ⟨k, rfl⟩ := Nat.exists_eq_succ_of_ne_zero (Nat.ne_of_gt hk)
  clear hk
  induction n using digits_induction generalizing k with
  | small n hn =>
    have hpow : 10 ≤ tenTo (k + 1) := tenTo_le_tenTo (Nat.succ_le_succ (Nat.zero_le k))
    rw [digits_of_lt hn, List.length_singleton]
    exact ⟨fun _ => Nat.lt_of_lt_of_le hn hpow, fun _ => Nat.succ_le_succ (Nat.zero_le k)⟩
  | large n hn ih =>
    rw [digits_of_ge hn, List.length_append, List.length_singleton]
    cases k with
    | zero =>
      have hpos := length_digits_pos (n / 10)
      rw [show tenTo (Nat.succ 0) = 10 from rfl]
      omega
    | succ k =>
      rw [Nat.succ_le_succ_iff, ih, tenTo_succ (k + 1), Nat.div_lt_iff_lt_mul (by omega)]

theorem lt_tenTo_length (n : Nat) : n < tenTo (digits n).length :=
  (length_digits_le_iff (length_digits_pos n)).mp (Nat.le_refl _)

theorem tenTo_length_le {n : Nat} (hn : n ≠ 0) : tenTo ((digits n).length - 1) ≤ n := by
  by_cases hone : (digits n).length - 1 = 0
  · rw [hone]
    exact Nat.one_le_iff_ne_zero.mpr hn
  · have hlong := mt (length_digits_le_iff (n := n) (Nat.pos_of_ne_zero hone)).mpr (by omega)
    exact Nat.le_of_not_lt hlong

theorem digits_eq_cons {n : Nat} (hn : n ≠ 0) :
    ∃ c cs, digits n = c :: cs ∧ c ≠ '0' ∧ isDigit c = true := by
  induction n using digits_induction with
  | small n h =>
    refine ⟨digitChar n, [], digits_of_lt h, fun hzero => hn ?_, isDigit_digitChar h⟩
    rw [← digitValue_digitChar h, hzero]
    rfl
  | large n h ih =>
    obtain ⟨c, cs, hcons, hc, hdigit⟩ := ih (by omega)
    exact ⟨c, cs ++ [digitChar (n % 10)], by rw [digits_of_ge h, hcons]; rfl, hc, hdigit⟩

theorem isExchangeable_iff {i : Int} :
    isExchangeable i = true ↔ i.natAbs < tenTo maxDigits := decide_eq_true_iff

theorem maxDigits_pos : 0 < maxDigits := by decide

/-- A run of digits that is not too long stands for an integer that can be exchanged. -/
theorem value_lt_of_length_le {cs : List Char} (h : ∀ c ∈ cs, isDigit c = true)
    (hlength : cs.length ≤ maxDigits) : value cs < tenTo maxDigits :=
  Nat.lt_of_lt_of_le (value_lt h) (tenTo_le_tenTo hlength)

/-! ## Padded numerals -/

theorem isDigit_of_mem_padded {width n : Nat} {c : Char} (h : c ∈ padded width n) :
    isDigit c = true := by
  rcases List.mem_append.mp h with h | h
  · rw [List.eq_of_mem_replicate h]
    rfl
  · exact isDigit_of_mem_digits h

theorem value_padded (width n : Nat) : value (padded width n) = n := by
  rw [padded, value_replicate_zero_append, value_digits]

theorem length_padded {width n : Nat} (hwidth : 0 < width) (h : n < tenTo width) :
    (padded width n).length = width := by
  have hlength := (length_digits_le_iff hwidth).mpr h
  rw [padded, List.length_append, List.length_replicate]
  omega

end RolloutLedger.Decimal
