import RolloutLedger.Proofs.Document.Metadata
/-! # Wire forms are in the order of time

The wire form has its fields from the year down to the second, each with as many digits in every
year of four digits.  So texts are in the order of their fields, and the fields are in the order of
time: no day number of a year, of a month or of a day reaches those of the next.
-/

namespace RolloutLedger.Time

/-! ## Years and months -/

/-- The years of a cycle are counted once more at the end of the cycle. -/
theorem div_eq_add (k : Nat) {year : Nat} (h : 1 ≤ year) :
    year / k = (year - 1) / k + if year % k = 0 then 1 else 0 := by
  obtain ⟨y, rfl⟩ := Nat.exists_eq_succ_of_ne_zero (Nat.ne_of_gt h)
  rw [Nat.succ_eq_add_one, Nat.add_sub_cancel, Nat.succ_div]
  simp only [Nat.dvd_iff_mod_eq_zero]

theorem isLeap_iff {year : Nat} :
    isLeap year = true ↔ year % 4 = 0 ∧ (year % 100 ≠ 0 ∨ year % 400 = 0) := by
  rw [isLeap, Bool.and_eq_true, Bool.or_eq_true, beq_iff_eq, bne_iff_ne, beq_iff_eq]

theorem daysBeforeYear_succ {year : Nat} (h : 1 ≤ year) :
    daysBeforeYear (year + 1) = daysBeforeYear year + totalDays (monthLengths year) := by
  have hcentury : year % 100 = 0 → year % 4 = 0 := by omega
  have hcycle : year % 400 = 0 → year % 100 = 0 := by omega
  have hle : (year - 1) / 100 ≤ year - 1 := Nat.div_le_self _ _
  rw [totalDays_monthLengths, daysBeforeYear, daysBeforeYear, Nat.add_sub_cancel,
    div_eq_add 4 h, div_eq_add 100 h, div_eq_add 400 h]
  simp only [isLeap_iff]
  -- omega is not to open the divisions, only the counts of leap years
  generalize (year - 1) / 4 = fours
  generalize (year - 1) / 400 = cycles
  generalize (year - 1) / 100 = centuries at hle ⊢
  by_cases h4 : year % 4 = 0
  · by_cases h100 : year % 100 = 0
    · by_cases h400 : year % 400 = 0
      · rw [if_pos h4, if_pos h100, if_pos h400, if_pos ⟨h4, Or.inr h400⟩]
        omega
      · rw [if_pos h4, if_pos h100, if_neg h400, if_neg (by simp [h100, h400])]
        omega
    · rw [if_pos h4, if_neg h100, if_neg (mt hcycle h100), if_pos ⟨h4, Or.inl h100⟩]
      omega
  · have h100 := mt hcentury h4
    rw [if_neg h4, if_neg h100, if_neg (mt hcycle h100), if_neg fun hleap => h4 hleap.1]
    omega

theorem daysBeforeYear_le {year year' : Nat} (h : 1 ≤ year) (hle : year ≤ year') :
    daysBeforeYear year ≤ daysBeforeYear year' := by
  induction hle with
  | refl => exact Nat.le_refl _
  | step hle ih =>
    rw [Nat.succ_eq_add_one, daysBeforeYear_succ (Nat.le_trans h hle)]
    exact Nat.le_trans ih (Nat.le_add_right _ _)

theorem totalDays_take_succ (lengths : List Nat) (k : Nat) :
    totalDays (lengths.take (k + 1)) = totalDays (lengths.take k) + lengths.getD k 0 := by
  induction lengths generalizing k with
  | nil =>
    rw [List.take_nil, List.take_nil]
    rfl
  | cons length rest ih =>
    cases k with
    | zero =>
      rw [List.take_succ_cons, List.take_zero, List.take_zero]
      exact Nat.add_comm length 0
    | succ k =>
      rw [List.take_succ_cons, List.take_succ_cons, totalDays, totalDays, ih, Nat.add_assoc]
      rfl

theorem totalDays_take_le (lengths : List Nat) {k l : Nat} (h : k ≤ l) :
    totalDays (lengths.take k) ≤ totalDays (lengths.take l) := by
  induction h with
  | refl => exact Nat.le_refl _
  | step _ ih =>
    rw [Nat.succ_eq_add_one, totalDays_take_succ]
    exact Nat.le_trans ih (Nat.le_add_right _ _)

/-! ## Dates -/

namespace Date

variable {d e : Date}

structure IsDay (d : Date) : Prop where
  year_pos : 1 ≤ d.year
  year_le : d.year ≤ 9999
  month_pos : 1 ≤ d.month
  month_le : d.month ≤ 12
  day_pos : 1 ≤ d.day
  day_le : d.day ≤ (monthLengths d.year).getD (d.month - 1) 0

theorem isDay_of_isValid (h : d.isValid = true) : d.IsDay := by
  simp only [isValid, Bool.and_eq_true, decide_eq_true_eq] at h
  obtain ⟨⟨⟨⟨⟨hyear, hyear'⟩, hmonth⟩, hmonth'⟩, hday⟩, hday'⟩ := h
  exact ⟨hyear, hyear', hmonth, hmonth', hday, hday'⟩

theorem IsDay.number_le_take (h : d.IsDay) :
    d.number ≤ daysBeforeYear d.year + totalDays ((monthLengths d.year).take d.month) := by
  obtain ⟨k, hk⟩ := Nat.exists_eq_succ_of_ne_zero (Nat.ne_of_gt h.month_pos)
  have hday := h.day_le
  rw [hk, Nat.succ_sub_one] at hday
  rw [number, hk, Nat.succ_sub_one, Nat.succ_eq_add_one, totalDays_take_succ]
  omega

theorem IsDay.number_le_year (h : d.IsDay) : d.number ≤ daysBeforeYear (d.year + 1) := by
  have hmonths := totalDays_take_le (monthLengths d.year) h.month_le
  have hall : (monthLengths d.year).take 12 = monthLengths d.year := rfl
  rw [hall] at hmonths
  rw [daysBeforeYear_succ h.year_pos]
  exact Nat.le_trans h.number_le_take (Nat.add_le_add_left hmonths _)

theorem IsDay.number_lt_of_year_lt (hd : d.IsDay) (he : e.IsDay) (h : d.year < e.year) :
    d.number < e.number := by
  calc d.number ≤ daysBeforeYear (d.year + 1) := hd.number_le_year
    _ ≤ daysBeforeYear e.year := daysBeforeYear_le (Nat.succ_pos _) h
    _ ≤ daysBeforeYear e.year + totalDays ((monthLengths e.year).take (e.month - 1)) :=
      Nat.le_add_right _ _
    _ < e.number := Nat.lt_add_of_pos_right he.day_pos

theorem IsDay.number_lt_of_month_lt (hd : d.IsDay) (he : e.IsDay) (hyear : d.year = e.year)
    (h : d.month < e.month) : d.number < e.number := by
  have hmonths := totalDays_take_le (monthLengths e.year) (Nat.le_sub_one_of_lt h)
  calc d.number ≤ daysBeforeYear d.year + totalDays ((monthLengths d.year).take d.month) :=
        hd.number_le_take
    _ = daysBeforeYear e.year + totalDays ((monthLengths e.year).take d.month) := by rw [hyear]
    _ ≤ daysBeforeYear e.year + totalDays ((monthLengths e.year).take (e.month - 1)) :=
      Nat.add_le_add_left hmonths _
    _ < e.number := Nat.lt_add_of_pos_right he.day_pos

theorem number_lt_of_day_lt (hyear : d.year = e.year) (hmonth : d.month = e.month)
    (h : d.day < e.day) : d.number < e.number := by
  rw [number, number, hyear, hmonth]
  exact Nat.add_lt_add_left h _

end Date

/-! ## Readings -/

namespace Reading

variable {r s : Reading}

/-- The fields that the wire form has, from the year down to the second. -/
def fields (r : Reading) : List Nat :=
  [r.date.year, r.date.month, r.date.day, r.hour, r.minute, r.second]

structure IsShown (r : Reading) : Prop where
  date : r.date.IsDay
  hour_lt : r.hour < 24
  minute_lt : r.minute < 60
  second_lt : r.second < 60
  micro_lt : r.micro < perSecond

theorem isShown_of_isValid (h : r.isValid = true) : r.IsShown := by
  simp only [isValid, Bool.and_eq_true, decide_eq_true_eq] at h
  obtain ⟨⟨⟨⟨hdate, hhour⟩, hminute⟩, hsecond⟩, hmicro⟩ := h
  exact ⟨Date.isDay_of_isValid hdate, hhour, hminute, hsecond, hmicro⟩

/-- No time of day reaches the next day. -/
theorem IsShown.micros_lt_of_number_lt (hr : r.IsShown) (h : r.date.number < s.date.number) :
    r.micros < s.micros := by
  obtain ⟨-, hhour, hminute, hsecond, hmicro⟩ := hr
  rw [show perSecond = 1000000 from rfl] at hmicro
  rw [micros, micros, show perDay = 86400000000 from rfl, show perSecond = 1000000 from rfl]
  omega

/-- **Fields are in the order of time**: the reading with the smaller fields is the earlier one. -/
theorem IsShown.micros_lt_of_fields_lt (hr : r.IsShown) (hs : s.IsShown)
    (h : r.fields < s.fields) : r.micros < s.micros := by
  simp only [fields, List.cons_lt_cons_iff, List.not_lt_nil, and_false, or_false] at h
  rcases h with hyear | ⟨hyear, hmonth | ⟨hmonth, hday | ⟨hday, hclock⟩⟩⟩
  · exact hr.micros_lt_of_number_lt (hr.date.number_lt_of_year_lt hs.date hyear)
  · exact hr.micros_lt_of_number_lt (hr.date.number_lt_of_month_lt hs.date hyear hmonth)
  · exact hr.micros_lt_of_number_lt (Date.number_lt_of_day_lt hyear hmonth hday)
  · -- on one day, the time of day decides
    have hnumber : r.date.number = s.date.number := by
      rw [Date.number, Date.number, hyear, hmonth, hday]
    obtain ⟨-, -, hminute, hsecond, hmicro⟩ := hr
    obtain ⟨-, -, hminute', hsecond', -⟩ := hs
    rw [show perSecond = 1000000 from rfl] at hmicro
    rw [micros, micros, hnumber, show perSecond = 1000000 from rfl]
    omega

theorem IsShown.not_fields_lt_of_micros_le (hr : r.IsShown) (hs : s.IsShown)
    (h : r.micros ≤ s.micros) : ¬s.fields < r.fields := fun hlt =>
  Nat.not_lt_of_le h (hs.micros_lt_of_fields_lt hr hlt)

theorem IsShown.year_le_of_micros_le (hr : r.IsShown) (hs : s.IsShown)
    (h : r.micros ≤ s.micros) : r.date.year ≤ s.date.year := by
  refine Nat.le_of_not_lt fun hlt => Nat.not_lt_of_le h ?_
  exact hs.micros_lt_of_number_lt (hs.date.number_lt_of_year_lt hr.date hlt)

end Reading

/-! ## Texts -/

namespace Iso

open Decimal (digits padded)

/-- Texts that start with fields of one width are in the order of the fields, and those that start
with the same field in the order of what follows. -/
theorem IsField.append_lt_append_iff {count a b : Nat} {xs ys : List Char}
    (ha : IsField count a xs) (hb : IsField count b ys) (cs ds : List Char) :
    xs ++ cs < ys ++ ds ↔ a < b ∨ a = b ∧ cs < ds := by
  rw [Decimal.append_lt_append_iff ha.isDigit hb.isDigit (ha.length.trans hb.length.symm), ha.value,
    hb.value]

/-- **Wire forms are in the order of their fields** in the years of four digits. -/
theorem wireText_lt_iff {r s : Reading} (hr : r.IsShown) (hs : s.IsShown)
    (hyear : 1000 ≤ r.date.year) (hyear' : 1000 ≤ s.date.year) :
    r.wireText < s.wireText ↔ r.fields < s.fields := by
  have htwo : ∀ {a b : Nat} {cs ds : List Char}, a < 100 → b < 100 →
      (padded 2 a ++ cs < padded 2 b ++ ds ↔ a < b ∨ a = b ∧ cs < ds) := by
    intro a b cs ds ha hb
    exact (isField_padded ha).append_lt_append_iff (isField_padded hb) cs ds
  have hday := Nat.le_trans hr.date.day_le (monthLength_le _ _)
  have hday' := Nat.le_trans hs.date.day_le (monthLength_le _ _)
  have hmonth := hr.date.month_le
  have hmonth' := hs.date.month_le
  obtain ⟨hdate, hhour, hminute, hsecond, -⟩ := hr
  obtain ⟨hdate', hhour', hminute', hsecond', -⟩ := hs
  show r.wireText.toList < s.wireText.toList ↔ _
  rw [toList_wireText, toList_wireText, (isField_digits hyear hdate.year_le).append_lt_append_iff
    (isField_digits hyear' hdate'.year_le), List.cons_lt_cons_self, htwo (by omega) (by omega),
    List.cons_lt_cons_self, htwo (by omega) (by omega), List.cons_lt_cons_self,
    htwo (by omega) (by omega), List.cons_lt_cons_self, htwo (by omega) (by omega),
    List.cons_lt_cons_self, htwo (by omega) (by omega)]
  simp only [Reading.fields, List.cons_lt_cons_iff, List.lt_irrefl]

end Iso

/-! ## Timestamps -/

namespace Timestamp

variable {t : Timestamp}

def firstDated : Timestamp := ofUniversal ⟨⟨1000, 1, 1⟩, 0, 0, 0, 0⟩

def lastDated : Timestamp := ofUniversal ⟨⟨9999, 12, 31⟩, 23, 59, 59, 999999⟩

/-- The instants of the years of four digits have a reading of universal time, in such a year. -/
theorem universal?_of_dated (hfirst : firstDated.instant ≤ t.instant)
    (hlast : t.instant ≤ lastDated.instant) :
    ∃ n : Nat, (n : Int) = t.instant ∧ perDay ≤ n ∧ t.universal? = some (Reading.ofMicros n) ∧
      (Reading.ofMicros n).isValid = true ∧ 1000 ≤ (Reading.ofMicros n).date.year := by
  have hstart : (perDay : Int) ≤ firstDated.instant := by decide +kernel
  have hend : lastDated.instant < ((lastDay + 1) * perDay : Nat) := by decide +kernel
  have hday : (perDay : Int) ≤ t.instant := Int.le_trans hstart hfirst
  have hcalendar : t.instant < ((lastDay + 1) * perDay : Nat) := Int.lt_of_le_of_lt hlast hend
  obtain ⟨n, hn⟩ := Int.eq_ofNat_of_zero_le (Int.le_trans (Int.natCast_nonneg _) hday)
  rw [hn, Int.ofNat_le] at hday
  rw [hn, Int.ofNat_lt] at hcalendar
  have huniversal : t.universal? = some (Reading.ofMicros n) := by
    rw [universal?, hn]
    simp only [Int.ofNat_le, Int.ofNat_lt, hday, hcalendar, decide_true, Bool.and_self, if_true,
      Int.toNat_natCast]
  have hvalid := isValid_ofMicros hcalendar
  refine ⟨n, hn.symm, hday, huniversal, hvalid, ?_⟩
  have hmicros : firstDated.reading.micros ≤ (Reading.ofMicros n).micros := by
    rw [micros_ofMicros hday, ← Int.ofNat_le, ← hn]
    exact Int.le_trans (Int.le_of_eq (Int.sub_zero _).symm) hfirst
  have hshown : firstDated.reading.IsShown := Reading.isShown_of_isValid (by decide)
  exact hshown.year_le_of_micros_le (Reading.isShown_of_isValid hvalid) hmicros

/-- **Wire forms are in the order of time.** -/
theorem exists_wireText?_le {s : String} (hs : t.wireText? = some s)
    (hfirst : firstDated.instant ≤ t.instant) (u : Timestamp) (hle : t.instant ≤ u.instant)
    (hlast : u.instant ≤ lastDated.instant) : ∃ s', u.wireText? = some s' ∧ s ≤ s' := by
  obtain ⟨n, hn, hday, hr, hvalid, hyear⟩ := universal?_of_dated hfirst (Int.le_trans hle hlast)
  obtain ⟨m, hm, hday', hr', hvalid', hyear'⟩ :=
    universal?_of_dated (Int.le_trans hfirst hle) hlast
  have hmicros : (Reading.ofMicros n).micros ≤ (Reading.ofMicros m).micros := by
    rw [micros_ofMicros hday, micros_ofMicros hday']
    omega
  have hshown := Reading.isShown_of_isValid hvalid
  have hshown' := Reading.isShown_of_isValid hvalid'
  rw [wireText?, hr, Option.map_some, Option.some.injEq] at hs
  refine ⟨(Reading.ofMicros m).wireText, by rw [wireText?, hr']; rfl, ?_⟩
  rw [← hs]
  rw [← String.not_lt, Iso.wireText_lt_iff hshown' hshown hyear' hyear]
  exact hshown.not_fields_lt_of_micros_le hshown' hmicros

/-- **Timestamps survive the wire form.**  Every instant of the years of four digits, at any
distance from universal time, has a wire form that is read back as the same instant up to the
second; what is read back has the same wire form, and no later instant has an earlier one. -/
theorem survives_wire_form (t : Timestamp) (hfirst : firstDated.instant ≤ t.instant)
    (hlast : t.instant ≤ lastDated.instant) :
    ∃ s t', t.wireText? = some s ∧ (Value.text s).toTimestamp? = .ok (some t') ∧
      t'.instant = t.instant - t.instant % perSecond ∧ t'.wireText? = some s ∧
      ∀ u : Timestamp, t.instant ≤ u.instant → u.instant ≤ lastDated.instant →
        ∃ s', u.wireText? = some s' ∧ s ≤ s' := by
  obtain ⟨n, hn, hday, hr, hvalid, hyear⟩ := universal?_of_dated hfirst hlast
  have hs : t.wireText? = some (Reading.ofMicros n).wireText := by
    rw [wireText?, hr]
    rfl
  refine ⟨_, ⟨(Reading.ofMicros n).wholeSecond, 0⟩, hs, ?_, ?_, ?_, ?_⟩
  · exact Metadata.toTimestamp?_text (Iso.timestamp?_wireText hvalid hyear)
  · have hsecond : perDay ≤ n - n % perSecond := by
      rw [show perDay = 86400000000 from rfl] at hday ⊢
      rw [show perSecond = 1000000 from rfl]
      omega
    rw [wholeSecond_ofMicros, instant_ofMicros hsecond, ← hn]
    exact Int.ofNat_sub (Nat.mod_le _ _)
  · rw [wireText?, universal?_wholeSecond hr]
    rfl
  · exact exists_wireText?_le hs hfirst

def leapNight : Timestamp := ⟨⟨⟨2024, 3, 1⟩, 0, 29, 59, 999999⟩, 19800000000⟩

def leapAfternoon : Timestamp := ⟨⟨⟨2024, 2, 29⟩, 15, 0, 0, 0⟩, -14400000000⟩

theorem survives_wire_form_leap :
    firstDated.instant ≤ leapNight.instant ∧ leapNight.instant ≤ leapAfternoon.instant ∧
      leapAfternoon.instant ≤ lastDated.instant ∧
      leapNight.wireText? = some "2024-02-29T18:59:59Z" ∧
      (∃ t, (Value.text "2024-02-29T18:59:59Z").toTimestamp? = .ok (some t) ∧
        t.instant = leapNight.instant - 999999) ∧
      ∃ s, leapAfternoon.wireText? = some s ∧ "2024-02-29T18:59:59Z" ≤ s := by
  have hfirst : firstDated.instant ≤ leapNight.instant := by decide +kernel
  have hle : leapNight.instant ≤ leapAfternoon.instant := by decide +kernel
  have hlast : leapAfternoon.instant ≤ lastDated.instant := by decide +kernel
  have htext : leapNight.wireText? = some "2024-02-29T18:59:59Z" := by decide +kernel
  have hfraction : leapNight.instant % perSecond = 999999 := by decide +kernel
  obtain ⟨s, t, hs, ht, hinstant, -, hlater⟩ :=
    survives_wire_form leapNight hfirst (Int.le_trans hle hlast)
  obtain rfl : s = "2024-02-29T18:59:59Z" := Option.some.inj (hs.symm.trans htext)
  rw [hfraction] at hinstant
  exact ⟨hfirst, hle, hlast, htext, ⟨t, ht, hinstant⟩, hlater leapAfternoon hle hlast⟩

end Timestamp

end RolloutLedger.Time
