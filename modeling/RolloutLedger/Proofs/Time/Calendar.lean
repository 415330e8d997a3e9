import RolloutLedger.Time.Timestamp
/-! # Day numbers and dates

A day number from one on is the number of its date, and up to the end of the calendar the date is
one that the calendar has.  The way from numbers to dates splits a number into cycles of 400, 100,
4 and 1 years; put together again the cycles give the days before the year.
-/

namespace RolloutLedger.Time

/-! ## Months -/

theorem totalDays_monthLengths (year : Nat) :
    totalDays (monthLengths year) = if isLeap year then 366 else 365 := by
  rw [monthLengths]
  cases isLeap year <;> rfl

/-- The place of a day among the months, from which its month and its day in it are found. -/
theorem monthAndDay_spec {lengths : List Nat} {month n : Nat} (h : n < totalDays lengths) :
    ∃ k < lengths.length, ∃ day,
      Date.monthAndDay lengths month n = (month + k, day) ∧ 1 ≤ day ∧ day ≤ lengths.getD k 0 ∧
        totalDays (lengths.take k) + day = n + 1 := by
  induction lengths generalizing month n with
  | nil => exact absurd h (Nat.not_lt_zero _)
  | cons length rest ih =>
    rw [Date.monthAndDay]
    by_cases hn : n < length
    · rw [if_pos hn]
      exact ⟨0, Nat.succ_pos _, n + 1, rfl, by omega, hn, by simp [totalDays]⟩
    · rw [if_neg hn]
      rw [totalDays] at h
      obtain ⟨k, hk, day, heq, hone, hday, hsum⟩ :=
        @ih (month + 1) (n - length) (by omega)
      refine ⟨k + 1, Nat.succ_lt_succ hk, day, ?_, hone, hday, ?_⟩
      · rw [heq, Nat.add_right_comm, Nat.add_assoc]
      · rw [List.take_succ_cons, totalDays]
        omega

/-! ## Cycles of years -/

theorem daysBeforeYear_cycles {q c f t : Nat} (hc : c ≤ 3) (hf : f ≤ 24) (ht : t ≤ 3) :
    daysBeforeYear (q * 400 + c * 100 + f * 4 + t + 1) =
      146097 * q + 36524 * c + 1461 * f + 365 * t := by
  rw [daysBeforeYear]
  simp only [Nat.add_sub_cancel]
  omega

/-- The last year of a cycle of four is leap, unless it ends one of the first three centuries. -/
theorem isLeap_cycles {q c f : Nat} (hf : f ≤ 24) (h : f < 24 ∨ c = 3) :
    isLeap (q * 400 + c * 100 + f * 4 + 3 + 1) = true := by
  rw [isLeap, Bool.and_eq_true, Bool.or_eq_true, beq_iff_eq, bne_iff_ne, beq_iff_eq]
  omega

/-- What the places of a day number in the cycles are, and that the rest is a day of the year. -/
theorem ofNumber_cycles (number : Nat) :
    ∃ q c f t day, c ≤ 3 ∧ f ≤ 24 ∧ t ≤ 3 ∧
      number - 1 = 146097 * q + 36524 * c + 1461 * f + 365 * t + day ∧
      day < totalDays (monthLengths (q * 400 + c * 100 + f * 4 + t + 1)) ∧
      Date.ofNumber number =
        ⟨q * 400 + c * 100 + f * 4 + t + 1,
          (Date.monthAndDay (monthLengths (q * 400 + c * 100 + f * 4 + t + 1)) 1 day).1,
          (Date.monthAndDay (monthLengths (q * 400 + c * 100 + f * 4 + t + 1)) 1 day).2⟩ := by
  rw [Date.ofNumber]
  generalize number - 1 = n
  generalize hcycle : n % 146097 = inCycle
  generalize hc : min (inCycle / 36524) 3 = c
  generalize hcentury : inCycle - c * 36524 = inCentury
  generalize hfour : inCentury % 1461 = inFour
  generalize ht : min (inFour / 365) 3 = t
  refine ⟨n / 146097, c, inCentury / 1461, t, inFour - t * 365, by omega, by omega, by omega,
    by omega, ?_, rfl⟩
  rw [totalDays_monthLengths]
  -- only the last year of a cycle of four can have 366 days
  by_cases hlast : t < 3
  · split <;> omega
  · have htop : t = 3 := by omega
    by_cases hleap : inCentury / 1461 < 24 ∨ c = 3
    · rw [htop, if_pos (isLeap_cycles (by omega) hleap)]
      omega
    · split <;> omega

/-! ## Numbers to dates and back -/

theorem number_ofNumber {k : Nat} (h : 1 ≤ k) : (Date.ofNumber k).number = k := by
  obtain ⟨q, c, f, t, day, hc, hf, ht, hk, hday, heq⟩ := ofNumber_cycles k
  obtain ⟨i, hi, d, hmonth, hone, hd, hsum⟩ := @monthAndDay_spec _ 1 day hday
  rw [heq, hmonth]
  show daysBeforeYear (q * 400 + c * 100 + f * 4 + t + 1) +
    totalDays ((monthLengths (q * 400 + c * 100 + f * 4 + t + 1)).take (1 + i - 1)) + d = k
  rw [daysBeforeYear_cycles hc hf ht, Nat.add_sub_cancel_left]
  omega

theorem isValid_ofNumber {k : Nat} (hlast : k ≤ lastDay) :
    (Date.ofNumber k).isValid = true := by
  obtain ⟨q, c, f, t, day, hc, hf, ht, hk, hday, heq⟩ := ofNumber_cycles k
  obtain ⟨i, hi, d, hmonth, hone, hd, hsum⟩ := @monthAndDay_spec _ 1 day hday
  have hend : lastDay = 3652059 := rfl
  have hmonths : (monthLengths (q * 400 + c * 100 + f * 4 + t + 1)).length = 12 := rfl
  rw [heq, hmonth, Date.isValid]
  simp only [Bool.and_eq_true, decide_eq_true_eq, Nat.add_sub_cancel_left]
  omega

theorem le_number_ofNumber (k : Nat) : k ≤ (Date.ofNumber k).number := by
  cases k with
  | zero => exact Nat.zero_le _
  | succ k => exact Nat.le_of_eq (number_ofNumber (Nat.succ_pos k)).symm

/-! ## Readings -/

theorem micros_eq (n : Nat) :
    ((n % perDay / perSecond / 3600 * 60 + n % perDay / perSecond / 60 % 60) * 60 +
      n % perDay / perSecond % 60) * perSecond + n % perSecond = n % perDay := by
  rw [show perDay = 86400000000 from rfl, show perSecond = 1000000 from rfl]
  omega

/-- From the first day on, a number of microseconds is found again in its reading. -/
theorem micros_ofMicros {n : Nat} (h : perDay ≤ n) : (Reading.ofMicros n).micros = n := by
  have hday : 1 ≤ n / perDay := (Nat.one_le_div_iff (by decide)).mpr h
  rw [Reading.micros, Reading.ofMicros, number_ofNumber hday, Nat.add_assoc, micros_eq]
  exact Nat.div_add_mod' n perDay

/-- A reading is never before the microseconds it was made from. -/
theorem le_micros_ofMicros (n : Nat) : n ≤ (Reading.ofMicros n).micros := by
  have hday := le_number_ofNumber (n / perDay)
  rw [Reading.micros, Reading.ofMicros, Nat.add_assoc, micros_eq]
  calc n = n / perDay * perDay + n % perDay := (Nat.div_add_mod' n perDay).symm
    _ ≤ _ := Nat.add_le_add_right (Nat.mul_le_mul_right perDay hday) _

theorem isValid_ofMicros {n : Nat} (h : n < (lastDay + 1) * perDay) :
    (Reading.ofMicros n).isValid = true := by
  have hdate : (Date.ofNumber (n / perDay)).isValid = true :=
    isValid_ofNumber (Nat.le_of_lt_succ ((Nat.div_lt_iff_lt_mul (by decide)).mpr h))
  rw [Reading.isValid, Reading.ofMicros]
  simp only [hdate, Bool.true_and, Bool.and_eq_true, decide_eq_true_eq]
  rw [show perDay = 86400000000 from rfl, show perSecond = 1000000 from rfl]
  omega

def Reading.wholeSecond (r : Reading) : Reading := { r with micro := 0 }

theorem Reading.isValid_wholeSecond {r : Reading} (h : r.isValid = true) :
    r.wholeSecond.isValid = true := by
  rw [isValid, Bool.and_eq_true] at h ⊢
  exact ⟨h.1, rfl⟩

theorem wholeSecond_ofMicros (n : Nat) :
    (Reading.ofMicros n).wholeSecond = Reading.ofMicros (n - n % perSecond) := by
  have hday : (n - n % perSecond) / perDay = n / perDay := by
    rw [show perDay = 86400000000 from rfl, show perSecond = 1000000 from rfl]
    omega
  have hsecond : (n - n % perSecond) % perDay / perSecond = n % perDay / perSecond := by
    rw [show perDay = 86400000000 from rfl, show perSecond = 1000000 from rfl]
    omega
  have hmicro : (n - n % perSecond) % perSecond = 0 := by
    rw [show perSecond = 1000000 from rfl]
    omega
  rw [Reading.wholeSecond, Reading.ofMicros, Reading.ofMicros, hday, hsecond, hmicro]

namespace Timestamp

variable {t : Timestamp} {r : Reading}

theorem exists_ofMicros_of_universal? (h : t.universal? = some r) :
    ∃ n, perDay ≤ n ∧ n < (lastDay + 1) * perDay ∧ r = Reading.ofMicros n ∧
      (n : Int) = t.instant := by
  rw [universal?] at h
  split at h
  · rename_i hbounds
    rw [Bool.and_eq_true, decide_eq_true_eq, decide_eq_true_eq] at hbounds
    obtain ⟨hfirst, hlast⟩ := hbounds
    have hnat : ((t.instant.toNat : Nat) : Int) = t.instant :=
      Int.toNat_of_nonneg (Int.le_trans (Int.natCast_nonneg _) hfirst)
    exact ⟨t.instant.toNat, by omega, (Int.toNat_lt' (by decide +kernel)).mpr hlast,
      (Option.some.inj h).symm, hnat⟩
  · exact nomatch h

theorem instant_ofMicros {n : Nat} (h : perDay ≤ n) :
    (⟨Reading.ofMicros n, 0⟩ : Timestamp).instant = n := by
  rw [instant, micros_ofMicros h, Int.sub_zero]

/-- The reading of universal time is one that the calendar has, and it is the same instant. -/
theorem universal?_spec (h : t.universal? = some r) :
    r.isValid = true ∧ (⟨r, 0⟩ : Timestamp).instant = t.instant := by
  obtain ⟨n, hfirst, hlast, rfl, hinstant⟩ := exists_ofMicros_of_universal? h
  exact ⟨isValid_ofMicros hlast, (instant_ofMicros hfirst).trans hinstant⟩

/-- Up to the second, the reading of universal time has itself for its reading. -/
theorem universal?_wholeSecond (h : t.universal? = some r) :
    (⟨r.wholeSecond, 0⟩ : Timestamp).universal? = some r.wholeSecond := by
  obtain ⟨n, hfirst, hlast, rfl, -⟩ := exists_ofMicros_of_universal? h
  have hday : perDay ≤ n - n % perSecond := by
    rw [show perDay = 86400000000 from rfl] at hfirst ⊢
    rw [show perSecond = 1000000 from rfl]
    omega
  have hend : n - n % perSecond < (lastDay + 1) * perDay :=
    Nat.lt_of_le_of_lt (Nat.sub_le _ _) hlast
  rw [wholeSecond_ofMicros, universal?, instant_ofMicros hday]
  simp only [Int.ofNat_le, Int.ofNat_lt, hday, hend, decide_true, Bool.and_self, if_true,
    Int.toNat_natCast]

end Timestamp

end RolloutLedger.Time
