import RolloutLedger.Proofs.Number.Decimal
import RolloutLedger.Proofs.Time.Calendar
import RolloutLedger.Time.Iso
/-! # The wire form is read back

A reading of universal time in a year of four digits is written up to the second, as a date, a time
of day and a `Z`, each field with as many digits as the reader asks for.
-/

namespace RolloutLedger.Time

namespace Iso

open Decimal (digits padded isDigit)

/-! ## Runs of digits -/

/-- A run of digits of a given length that stands for a number. -/
structure IsField (count n : Nat) (ds : List Char) : Prop where
  length : ds.length = count
  isDigit : ∀ c ∈ ds, isDigit c = true
  value : Decimal.value ds = n

theorem isField_padded {n : Nat} (h : n < 100) : IsField 2 n (padded 2 n) :=
  ⟨Decimal.length_padded (by decide) h, fun _ hc => Decimal.isDigit_of_mem_padded hc,
    Decimal.value_padded 2 n⟩

theorem isField_digits {n : Nat} (h : 1000 ≤ n) (h' : n ≤ 9999) : IsField 4 n (digits n) := by
  refine ⟨?_, fun _ hc => Decimal.isDigit_of_mem_digits hc, Decimal.value_digits n⟩
  have hfour : Decimal.tenTo 4 = 10000 := rfl
  have hthree : Decimal.tenTo 3 = 1000 := rfl
  have hle := (Decimal.length_digits_le_iff (n := n) (k := 4) (by decide)).mpr (by omega)
  have hgt := mt (Decimal.length_digits_le_iff (n := n) (k := 3) (by decide)).mp (by omega)
  omega

theorem IsField.number?_append {count n : Nat} {ds : List Char} (h : IsField count n ds)
    (rest : List Char) : number? count (ds ++ rest) = some (n, rest) := by
  have htake : (ds ++ rest).take count = ds := by rw [← h.length, List.take_left]
  have hdrop : (ds ++ rest).drop count = rest := by rw [← h.length, List.drop_left]
  have hall : ds.all Decimal.isDigit = true := List.all_eq_true.mpr h.isDigit
  rw [number?, htake, hdrop]
  simp only [h.length, hall, h.value, decide_true, Bool.and_true, if_true]

theorem IsField.exists_cons {count n : Nat} {ds : List Char} (h : IsField (count + 1) n ds) :
    ∃ c cs, ds = c :: cs ∧ Decimal.isDigit c = true := by
  cases ds with
  | nil => exact nomatch h.length
  | cons c cs => exact ⟨c, cs, rfl, h.isDigit c List.mem_cons_self⟩

theorem ne_of_isDigit {c d : Char} (hc : Decimal.isDigit c = true)
    (hd : Decimal.isDigit d = false) : c ≠ d := by
  rintro rfl
  rw [hc] at hd
  exact Bool.noConfusion hd

/-! ## Dates -/

section Dates

variable {year month day : Nat} {ys ms ds : List Char}

theorem dateLength?_dashed (hy : IsField 4 year ys) (hm : IsField 2 month ms)
    (rest : List Char) (hrest : 2 ≤ rest.length) :
    dateLength? (ys ++ '-' :: (ms ++ rest)) = some 10 := by
  obtain ⟨m, ms', rfl, hdigit⟩ := hm.exists_cons
  have hmonth : m ≠ 'W' := ne_of_isDigit hdigit rfl
  have hfour : (ys ++ '-' :: (m :: ms' ++ rest))[4]? = some '-' := by
    rw [List.getElem?_append_right (Nat.le_of_eq hy.length), hy.length]
    rfl
  have hfive : (ys ++ '-' :: (m :: ms' ++ rest))[5]? = some m := by
    rw [List.getElem?_append_right (by rw [hy.length]; decide), hy.length]
    rfl
  have hlength : (ys ++ '-' :: (m :: ms' ++ rest)).length = 7 + rest.length := by
    rw [List.length_append, List.length_cons, List.length_append, hy.length, hm.length]
    omega
  rw [dateLength?]
  simp only [hlength, hfour, hfive, Option.some.injEq, hmonth, if_true, if_false]
  rw [if_neg (by omega), if_neg (by omega)]

theorem date?_dashed (hy : IsField 4 year ys) (hm : IsField 2 month ms) (hd : IsField 2 day ds)
    (rest : List Char) :
    date? (ys ++ '-' :: (ms ++ '-' :: (ds ++ rest))) 10 = some ⟨year, month, day⟩ := by
  obtain ⟨m, ms', rfl, hdigit⟩ := hm.exists_cons
  have hmonth := hm.number?_append ('-' :: (ds ++ rest))
  rw [List.cons_append] at hmonth
  rw [date?, hy.number?_append]
  simp only [Option.bind_eq_bind, Option.bind_some, List.head?_cons, beq_self_eq_true, if_true,
    List.drop_succ_cons, List.drop_zero, List.cons_append]
  split
  · rename_i heq
    exact absurd (List.cons.inj heq).1 (ne_of_isDigit hdigit rfl)
  · rw [hmonth]
    simp only [Option.bind_some, dash?, if_true, hd.number?_append]

end Dates

/-! ## Times of day -/

section Clocks

variable {hour minute second : Nat} {hs ms ss : List Char}

theorem clock?_colons (hh : IsField 2 hour hs) (hm : IsField 2 minute ms)
    (hsec : IsField 2 second ss) :
    clock? (hs ++ ':' :: (ms ++ ':' :: ss)) = some ⟨hour, minute, second, 0, false⟩ := by
  have hlast := hsec.number?_append []
  rw [List.append_nil] at hlast
  have hgap : ∀ {count n : Nat} {ds : List Char}, IsField (count + 1) n ds → ∀ rest,
      gap? true (':' :: (ds ++ rest)) = some (.field (ds ++ rest)) := by
    intro count n ds hds rest
    obtain ⟨c, cs, rfl, -⟩ := hds.exists_cons
    rfl
  have hlastGap := hgap hsec []
  rw [List.append_nil] at hlastGap
  rw [clock?, hh.number?_append]
  simp only [Option.bind_eq_bind, Option.bind_some, List.head?_cons, beq_self_eq_true,
    hgap hm, hm.number?_append, hlastGap, hlast]
  rfl

theorem time?_zulu (hh : IsField 2 hour hs) (hm : IsField 2 minute ms)
    (hsec : IsField 2 second ss) :
    time? (hs ++ ':' :: (ms ++ ':' :: (ss ++ ['Z']))) =
      some (⟨hour, minute, second, 0, false⟩, some 0) := by
  have hdigit : ∀ c, Decimal.isDigit c = true → (!startsOffset c) = true := by
    intro c hc
    simp only [startsOffset, ne_of_isDigit hc (rfl : Decimal.isDigit '+' = false),
      ne_of_isDigit hc (rfl : Decimal.isDigit '-' = false),
      ne_of_isDigit hc (rfl : Decimal.isDigit 'Z' = false)]
    rfl
  have hclock : ∀ c ∈ hs ++ ':' :: (ms ++ ':' :: ss), (!startsOffset c) = true := by
    intro c hc
    rcases List.mem_append.mp hc with hc | hc
    · exact hdigit c (hh.isDigit c hc)
    rcases List.mem_cons.mp hc with rfl | hc
    · rfl
    rcases List.mem_append.mp hc with hc | hc
    · exact hdigit c (hm.isDigit c hc)
    rcases List.mem_cons.mp hc with rfl | hc
    · rfl
    · exact hdigit c (hsec.isDigit c hc)
  have hsplit : hs ++ ':' :: (ms ++ ':' :: (ss ++ ['Z'])) =
      (hs ++ ':' :: (ms ++ ':' :: ss)) ++ ['Z'] := by simp
  have htake : (['Z'] : List Char).takeWhile (fun c => !startsOffset c) = [] := rfl
  have hdrop : (['Z'] : List Char).dropWhile (fun c => !startsOffset c) = ['Z'] := rfl
  rw [time?, hsplit, List.takeWhile_append_of_pos hclock, List.dropWhile_append_of_pos hclock,
    htake, hdrop, List.append_nil, clock?_colons hh hm hsec]
  rfl

end Clocks

/-! ## The wire form -/

theorem toList_wireText (r : Reading) :
    r.wireText.toList = digits r.date.year ++ '-' :: (padded 2 r.date.month ++
      '-' :: (padded 2 r.date.day ++ 'T' :: (padded 2 r.hour ++ ':' :: (padded 2 r.minute ++
        ':' :: (padded 2 r.second ++ ['Z']))))) := by
  rw [Reading.wireText, String.toList_ofList]
  simp only [List.append_assoc, List.cons_append]

theorem monthLength_le (year k : Nat) : (monthLengths year).getD k 0 ≤ 31 := by
  have hall : ∀ n ∈ monthLengths year, n ≤ 31 := by
    rw [monthLengths]
    cases isLeap year <;> decide
  rw [List.getD_eq_getElem?_getD]
  cases hk : (monthLengths year)[k]? with
  | none => exact Nat.zero_le _
  | some n => exact hall n (List.mem_of_getElem? hk)

/-- **The wire form is read back.**  A reading in a year of four digits is read from its wire form
as a reading of universal time, up to the second. -/
theorem timestamp?_wireText {r : Reading} (hvalid : r.isValid = true)
    (hyear : 1000 ≤ r.date.year) : timestamp? r.wireText = some ⟨r.wholeSecond, 0⟩ := by
  have hparts := hvalid
  simp only [Reading.isValid, Date.isValid, Bool.and_eq_true, decide_eq_true_eq] at hparts
  obtain ⟨⟨⟨⟨⟨⟨⟨⟨⟨-, hyear'⟩, -⟩, hmonth⟩, -⟩, hday⟩, hhour⟩, hminute⟩, hsecond⟩, -⟩ := hparts
  have hmonthLength := monthLength_le r.date.year (r.date.month - 1)
  have hy := isField_digits hyear hyear'
  have hm : IsField 2 r.date.month _ := isField_padded (by omega)
  have hd : IsField 2 r.date.day _ := isField_padded (by omega)
  have hh : IsField 2 r.hour _ := isField_padded (by omega)
  have hmin : IsField 2 r.minute _ := isField_padded (by omega)
  have hsec : IsField 2 r.second _ := isField_padded (by omega)
  -- the form of the date is found from what stands behind its first field
  have hlong : 2 ≤ ('-' :: (padded 2 r.date.day ++ 'T' :: (padded 2 r.hour ++
      ':' :: (padded 2 r.minute ++ ':' :: (padded 2 r.second ++ ['Z']))))).length := by
    rw [List.length_cons, List.length_append, hd.length]
    omega
  have hlength : dateLength? r.wireText.toList = some 10 := by
    rw [toList_wireText]
    exact dateLength?_dashed hy hm _ hlong
  have hdate : date? r.wireText.toList 10 = some r.date := by
    rw [toList_wireText]
    exact date?_dashed hy hm hd _
  -- ten characters are the date, and the rest is the time of day
  have hdrop : r.wireText.toList.drop 10 = 'T' :: (padded 2 r.hour ++ ':' :: (padded 2 r.minute ++
      ':' :: (padded 2 r.second ++ ['Z']))) := by
    have hten : (digits r.date.year ++ '-' :: (padded 2 r.date.month ++
        '-' :: padded 2 r.date.day)).length = 10 := by
      simp only [List.length_append, List.length_cons, hy.length, hm.length, hd.length]
    rw [← hten, toList_wireText]
    refine Eq.trans (congrArg _ ?_) List.drop_left
    simp only [List.append_assoc, List.cons_append]
  have hreading : (⟨r.date, r.hour, r.minute, r.second, 0⟩ : Reading) = r.wholeSecond := rfl
  rw [timestamp?, read?]
  simp only [Option.bind_eq_bind, hlength, hdate, hdrop, time?_zulu hh hmin hsec,
    Option.bind_some, hreading, Reading.isValid_wholeSecond hvalid, if_true]
  rfl

end Iso

namespace Timestamp

variable {t : Timestamp}

/-- Whether a timestamp is a whole second of universal time, in a year of four digits. -/
def isWholeSecond (t : Timestamp) : Bool :=
  t.universal?.any fun r => decide (1000 ≤ r.date.year) && r.micro == 0

/-- Whether a timestamp lies in a year of four digits of universal time. -/
def isDated (t : Timestamp) : Bool := t.universal?.any fun r => decide (1000 ≤ r.date.year)

/-- A whole second is read back from its wire form as the same instant. -/
theorem exists_reread (h : t.isWholeSecond = true) :
    ∃ s t', t.wireText? = some s ∧ Iso.timestamp? s = some t' ∧ t'.instant = t.instant := by
  obtain ⟨r, hr, hsecond⟩ := (Option.any_eq_true _ _).mp h
  rw [Bool.and_eq_true, decide_eq_true_eq, beq_iff_eq] at hsecond
  obtain ⟨hvalid, hinstant⟩ := universal?_spec hr
  have hwhole : r.wholeSecond = r := by
    rw [Reading.wholeSecond, ← hsecond.2]
  refine ⟨r.wireText, ⟨r, 0⟩, by rw [wireText?, hr]; rfl, ?_, hinstant⟩
  rw [Iso.timestamp?_wireText hvalid hsecond.1, hwhole]

/-- What is read back from the wire form of a timestamp has the same wire form. -/
theorem exists_rewritten (h : t.isDated = true) :
    ∃ s t', t.wireText? = some s ∧ Iso.timestamp? s = some t' ∧ t'.wireText? = some s := by
  obtain ⟨r, hr, hyear⟩ := (Option.any_eq_true _ _).mp h
  refine ⟨r.wireText, ⟨r.wholeSecond, 0⟩, by rw [wireText?, hr]; rfl,
    Iso.timestamp?_wireText (universal?_spec hr).1 (decide_eq_true_eq.mp hyear), ?_⟩
  rw [wireText?, universal?_wholeSecond hr]
  rfl

end Timestamp

end RolloutLedger.Time
