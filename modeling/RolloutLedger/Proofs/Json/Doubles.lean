import RolloutLedger.Proofs.Json.Reading
import RolloutLedger.Proofs.Number.Binary64
/-! # Doubles are read back from their texts

A double is written with a fraction or with an exponent, so that it is never taken for an integer.
Whatever the form, the digits and the place of the point are those of its shortest decimal, and the
double is read back.
-/

namespace RolloutLedger.Json

open Decimal (isDigit)
open Binary64 (Rounds decimalUnits spacing)

variable {ds fs r : List Char} (negative : Bool)

/-! ## The parts of a number -/

theorem fraction_append (hne : fs ≠ []) (hfs : ∀ d ∈ fs, isDigit d = true)
    (hr : endsDigits r = true) : fraction ('.' :: (fs ++ r)) = (fs, r) := by
  obtain ⟨htake, hdrop⟩ := span_digits hfs hr
  rw [fraction, htake, hdrop]
  simp [hne]

theorem exponent_append (e : Int) (hr : endsDigits r = true) :
    exponent ('e' :: (Binary64.exponentText e ++ r)) = (some e, r) := by
  have hdigits : ∀ d ∈ Decimal.padded 2 e.natAbs, isDigit d = true :=
    fun _ => Decimal.isDigit_of_mem_padded
  have hne : Decimal.padded 2 e.natAbs ≠ [] := by
    rw [Decimal.padded]
    exact List.append_ne_nil_of_right_ne_nil _
      (List.ne_nil_of_length_pos (Decimal.length_digits_pos _))
  obtain ⟨htake, hdrop⟩ := span_digits hdigits hr
  have hsigned : signedDigits (Binary64.exponentText e ++ r) = some (e, r) := by
    rw [Binary64.exponentText]
    by_cases hneg : e < 0
    · rw [if_pos hneg, List.singleton_append, List.cons_append, signedDigits]
      simp only [if_true, htake, hdrop, Decimal.value_padded, List.isEmpty_iff, hne, if_false]
      congr 2
      omega
    · rw [if_neg hneg, List.singleton_append, List.cons_append, signedDigits]
      simp only [Char.reduceEq, if_true, if_false, htake, hdrop, Decimal.value_padded,
        List.isEmpty_iff, hne, Bool.false_eq_true]
      congr 2
      omega
  rw [exponent, hsigned]
  rfl

/-! ## Numbers with a fraction or an exponent -/

/-- Digits, a point and further digits are read as one decimal. -/
theorem unsigned_fraction (hwhole : whole (ds ++ '.' :: (fs ++ r)) = (ds, '.' :: (fs ++ r)))
    (hds : ds ≠ []) (hfs : fs ≠ []) (hdigits : ∀ d ∈ fs, isDigit d = true)
    (hr : endsNumber r = true) :
    unsigned negative (ds ++ '.' :: (fs ++ r)) =
      .ok (.float (.ofDecimal negative (Decimal.value (ds ++ fs)) (-fs.length)), r) := by
  rw [unsigned, hwhole]
  simp only [fraction_append hfs hdigits (endsDigits_of_endsNumber hr), exponent_of_endsNumber hr]
  simp [hds, hfs]

/-- A digit, further digits behind a point if there are any, and an exponent are read as one
decimal. -/
theorem unsigned_exponent {c : Char} (hc : c ≠ '0') (hds : ∀ d ∈ c :: ds, isDigit d = true)
    (e : Int) (hr : endsNumber r = true) :
    unsigned negative ((match c :: ds with
        | [] => []
        | [d] => [d]
        | d :: rest => d :: '.' :: rest) ++ 'e' :: (Binary64.exponentText e ++ r)) =
      .ok (.float (.ofDecimal negative (Decimal.value (c :: ds)) (e - ds.length)), r) := by
  have hends := endsDigits_of_endsNumber hr
  have hpoint : ∀ text : List Char, endsDigits ('.' :: text) = true := fun _ => rfl
  have hletter : ∀ text : List Char, endsDigits ('e' :: text) = true := fun _ => rfl
  have hfirst : ∀ d ∈ [c], isDigit d = true := fun d hd =>
    hds d (List.mem_singleton.mp hd ▸ List.mem_cons_self)
  cases ds with
  | nil =>
    have hwhole := whole_append hc hfirst (hletter (Binary64.exponentText e ++ r))
    have hfraction : ∀ text : List Char, fraction ('e' :: text) = ([], 'e' :: text) := fun _ => rfl
    rw [unsigned, hwhole]
    simp only [hfraction, exponent_append e hends]
    simp
  | cons d ds =>
    have hwhole := whole_append hc hfirst
      (hpoint (d :: ds ++ 'e' :: (Binary64.exponentText e ++ r)))
    have hrest : ∀ x ∈ d :: ds, isDigit x = true := fun x hx => hds x (List.mem_cons_of_mem _ hx)
    rw [List.cons_append, List.cons_append, unsigned]
    rw [List.cons_append] at hwhole
    simp only [List.nil_append] at hwhole
    rw [hwhole]
    simp only [fraction_append (List.cons_ne_nil d ds) hrest (hletter _), exponent_append e hends]
    simp

/-! ## Magnitudes -/

section Positional

variable {u : Nat} {point : Int} {c : Char} (hu : 0 < u) (hgrid : spacing u ∣ u)
  (hfinite : u < Binary64.overflow) (hc : c ≠ '0') (hdigits : ∀ d ∈ c :: ds, isDigit d = true)
  (hrounds : Rounds u (decimalUnits (Decimal.value (c :: ds)) (point - (c :: ds).length)))
  (hr : endsNumber r = true)

include hu hgrid hfinite hdigits hrounds hr

/-- The point stands in front of the digits, and perhaps of zeros. -/
theorem unsigned_pointFirst (hpoint : point ≤ 0) :
    unsigned negative (['0'] ++ '.' :: (List.replicate point.natAbs '0' ++ c :: ds ++ r)) =
      .ok (.float (.finite negative u), r) := by
  have hall : ∀ d ∈ List.replicate point.natAbs '0' ++ c :: ds, isDigit d = true := by
    intro d hd
    rcases List.mem_append.mp hd with hd | hd
    · rw [List.eq_of_mem_replicate hd]
      rfl
    · exact hdigits d hd
  have hvalue : Decimal.value (['0'] ++ (List.replicate point.natAbs '0' ++ c :: ds)) =
      Decimal.value (c :: ds) := by
    have hzeros : ['0'] ++ (List.replicate point.natAbs '0' ++ c :: ds) =
        List.replicate (point.natAbs + 1) '0' ++ c :: ds := rfl
    rw [hzeros, Decimal.value_replicate_zero_append]
  have hexponent : -((List.replicate point.natAbs '0' ++ c :: ds).length : Int) =
      point - (c :: ds).length := by
    rw [List.length_append, List.length_replicate]
    omega
  have hne : List.replicate point.natAbs '0' ++ c :: ds ≠ [] :=
    List.append_ne_nil_of_right_ne_nil _ (List.cons_ne_nil _ _)
  rw [unsigned_fraction negative rfl (by decide) hne hall hr, hvalue, hexponent,
    hrounds.ofDecimal_eq hu hgrid hfinite]

include hc

/-- The point stands behind the digits, and perhaps behind zeros, and a zero follows it. -/
theorem unsigned_pointLast (hpoint : ((c :: ds).length : Int) ≤ point) :
    unsigned negative (c :: ds ++ List.replicate (point.toNat - (c :: ds).length) '0' ++
      '.' :: (['0'] ++ r)) = .ok (.float (.finite negative u), r) := by
  generalize hk : point.toNat - (c :: ds).length = k
  have hall : ∀ d ∈ c :: (ds ++ List.replicate k '0'), isDigit d = true := by
    intro d hd
    rcases List.mem_append.mp (List.cons_append ▸ hd) with hd | hd
    · exact hdigits d hd
    · rw [List.eq_of_mem_replicate hd]
      rfl
  have hpoint' : point = (c :: ds).length + (k : Int) := by omega
  have hvalue : Decimal.value (c :: (ds ++ List.replicate k '0') ++ ['0']) =
      Decimal.value (c :: ds) * Decimal.tenTo (k + 1) := by
    have hzeros : c :: (ds ++ List.replicate k '0') ++ ['0'] =
        c :: ds ++ List.replicate (k + 1) '0' := by
      rw [List.replicate_succ', List.cons_append, List.cons_append, List.append_assoc]
    rw [hzeros, Decimal.value_append_replicate_zero]
  have hsame : decimalUnits (Decimal.value (c :: ds)) (point - (c :: ds).length) =
      decimalUnits (Decimal.value (c :: (ds ++ List.replicate k '0') ++ ['0']))
        (-(['0'].length : Int)) := by
    rw [hvalue, Binary64.decimalUnits_mul_tenTo]
    refine congrArg _ ?_
    rw [List.length_singleton]
    omega
  rw [hsame] at hrounds
  rw [List.cons_append, unsigned_fraction negative (whole_append hc hall rfl) (List.cons_ne_nil _ _)
    (by decide) (List.forall_mem_singleton.mpr rfl) hr, hrounds.ofDecimal_eq hu hgrid hfinite]

theorem unsigned_pointWithin (hpoint : 0 < point) (hlong : point < (c :: ds).length) :
    unsigned negative ((c :: ds).take point.toNat ++ '.' :: ((c :: ds).drop point.toNat ++ r)) =
      .ok (.float (.finite negative u), r) := by
  obtain ⟨k, hk⟩ := Nat.exists_eq_succ_of_ne_zero (show point.toNat ≠ 0 by omega)
  have htake : (c :: ds).take point.toNat = c :: ds.take k := by rw [hk, List.take_succ_cons]
  have hdrop : (c :: ds).drop point.toNat ≠ [] := by
    rw [ne_eq, List.drop_eq_nil_iff]
    omega
  have hwhole : ∀ d ∈ c :: ds.take k, isDigit d = true := fun d hd =>
    hdigits d (List.mem_of_mem_take (htake ▸ hd))
  have hexponent : -(((c :: ds).drop point.toNat).length : Int) = point - (c :: ds).length := by
    rw [List.length_drop]
    omega
  have hread := unsigned_fraction negative
    (whole_append hc hwhole (rfl : endsDigits ('.' :: ((c :: ds).drop point.toNat ++ r)) = true))
    (List.cons_ne_nil _ _) hdrop (fun d hd => hdigits d (List.mem_of_mem_drop hd)) hr
  rw [← htake, List.take_append_drop, hexponent, hrounds.ofDecimal_eq hu hgrid hfinite] at hread
  exact hread

end Positional

/-- **A magnitude is read back.** -/
theorem unsigned_magnitudeText {u : Nat} (hgrid : spacing u ∣ u) (hfinite : u < Binary64.overflow)
    (hr : endsNumber r = true) :
    unsigned negative (Binary64.magnitudeText u ++ r) = .ok (.float (.finite negative u), r) := by
  unfold Binary64.magnitudeText
  by_cases hzero : u = 0
  · have hread := @unsigned_fraction ['0'] ['0'] r negative rfl (List.cons_ne_nil _ _)
      (List.cons_ne_nil _ _) (List.forall_mem_singleton.mpr rfl) hr
    rw [if_pos hzero, hzero]
    exact hread
  have hu := Nat.pos_of_ne_zero hzero
  obtain ⟨⟨c, cs, hcons, hc⟩, hdigits, hrounds⟩ := Binary64.shortest_spec hu hgrid
  rcases hshortest : Binary64.shortest u with ⟨ds, point⟩
  rw [hshortest] at hcons hdigits hrounds
  simp only at hcons hdigits hrounds
  subst hcons
  rw [if_neg hzero]
  simp only
  split
  · split
    · rename_i hpoint
      rw [← unsigned_pointFirst negative hu hgrid hfinite hdigits hrounds hr hpoint]
      simp
    · rename_i hpoint
      by_cases hlong : point < (c :: cs).length
      · have hnone : point.toNat - (c :: cs).length = 0 := by omega
        have hrest : ((c :: cs).drop point.toNat).isEmpty = false := by
          rw [List.isEmpty_eq_false_iff, ne_eq, List.drop_eq_nil_iff]
          omega
        rw [← unsigned_pointWithin negative hu hgrid hfinite hc hdigits hrounds hr (by omega) hlong,
          hnone, hrest]
        simp
      · have hle : (c :: cs).length ≤ point.toNat := by omega
        rw [← unsigned_pointLast negative hu hgrid hfinite hc hdigits hrounds hr (by omega),
          List.take_of_length_le hle, List.drop_eq_nil_of_le hle]
        simp
  · have hexponent : point - (c :: cs).length = point - 1 - cs.length := by
      rw [List.length_cons]
      omega
    rw [List.append_assoc, List.cons_append]
    refine (unsigned_exponent negative hc hdigits (point - 1) hr).trans ?_
    rw [← hexponent, hrounds.ofDecimal_eq hu hgrid hfinite]

/-! ## Characters -/

/-- A magnitude is written with digits, a point, and the letter and the sign of an exponent. -/
theorem mem_magnitudeText {u : Nat} (hgrid : spacing u ∣ u) {c : Char}
    (hc : c ∈ Binary64.magnitudeText u) : isDigit c = true ∨ c ∈ ['.', 'e', '-', '+'] := by
  unfold Binary64.magnitudeText at hc
  by_cases hzero : u = 0
  · rw [if_pos hzero] at hc
    simp only [List.mem_cons, List.not_mem_nil, or_false] at hc
    rcases hc with rfl | rfl | rfl <;> decide
  obtain ⟨-, hdigits, -⟩ := Binary64.shortest_spec (Nat.pos_of_ne_zero hzero) hgrid
  rcases hshortest : Binary64.shortest u with ⟨ds, point⟩
  rw [hshortest] at hc hdigits
  rw [if_neg hzero] at hc
  simp only at hc hdigits
  have hzeros : ∀ {k}, c ∈ List.replicate k '0' → isDigit c = true := by
    intro k hk
    rw [List.eq_of_mem_replicate hk]
    rfl
  have hexponent : c ∈ Binary64.exponentText (point - 1) →
      isDigit c = true ∨ c ∈ ['.', 'e', '-', '+'] := by
    intro h
    rcases List.mem_append.mp h with h | h
    · split at h <;> rw [List.mem_singleton.mp h] <;> decide
    · exact Or.inl (Decimal.isDigit_of_mem_padded h)
  split at hc
  · split at hc
    · simp only [List.mem_cons, List.mem_append] at hc
      rcases hc with rfl | rfl | hc | hc
      · exact Or.inl rfl
      · exact Or.inr (by decide)
      · exact Or.inl (hzeros hc)
      · exact Or.inl (hdigits c hc)
    · simp only [List.mem_cons, List.mem_append] at hc
      rcases hc with (hc | hc) | rfl | hc
      · exact Or.inl (hdigits c (List.mem_of_mem_take hc))
      · exact Or.inl (hzeros hc)
      · exact Or.inr (by decide)
      · split at hc
        · rw [List.mem_singleton.mp hc]
          exact Or.inl rfl
        · exact Or.inl (hdigits c (List.mem_of_mem_drop hc))
  · rcases List.mem_append.mp hc with hc | hc
    · split at hc
      · exact absurd hc List.not_mem_nil
      · exact Or.inl (hdigits c hc)
      · simp only [List.mem_cons] at hc
        rcases hc with rfl | rfl | hc
        · exact Or.inl (hdigits c List.mem_cons_self)
        · exact Or.inr (by decide)
        · exact Or.inl (hdigits c (List.mem_cons_of_mem _ hc))
    · rcases List.mem_cons.mp hc with rfl | hc
      · exact Or.inr (by decide)
      · exact hexponent hc

theorem toNat_ge_of_all {cs : List Char} (h : cs.all (fun c => decide (0x20 ≤ c.toNat)) = true) :
    ∀ c ∈ cs, 0x20 ≤ c.toNat := fun c hc => decide_eq_true_eq.mp (List.all_eq_true.mp h c hc)

theorem toNat_ge_of_mem_floatText {x : Binary64} (hx : x.IsDouble) {c : Char}
    (hc : c ∈ floatText x) : 0x20 ≤ c.toNat := by
  cases hx with
  | nan =>
    exact toNat_ge_of_all rfl c hc
  | infinity negative =>
    cases negative with
    | false => exact toNat_ge_of_all rfl c hc
    | true => exact toNat_ge_of_all rfl c hc
  | @finite negative u hgrid _ =>
    have hmagnitude : c ∈ Binary64.magnitudeText u → 0x20 ≤ c.toNat := by
      intro h
      rcases mem_magnitudeText hgrid h with hdigit | hother
      · rw [isDigit, Bool.and_eq_true, decide_eq_true_eq] at hdigit
        omega
      · exact @toNat_ge_of_all ['.', 'e', '-', '+'] rfl c hother
    rcases List.mem_append.mp hc with hc | hc
    · split at hc
      · rw [List.mem_singleton.mp hc]
        decide
      · exact absurd hc List.not_mem_nil
    · exact hmagnitude hc

/-! ## Doubles -/

theorem exists_digit_of_unsigned {negative : Bool} {cs : List Char}
    (h : unsigned negative cs ≠ .error .notJson) : ∃ c r, cs = c :: r ∧ isDigit c = true := by
  cases cs with
  | nil => exact absurd rfl h
  | cons c r =>
    refine ⟨c, r, rfl, ?_⟩
    by_contra hc
    have hwhole : whole (c :: r) = ([], c :: r) := by
      rw [whole.eq_def]
      split
      · rename_i heq
        rw [(List.cons.inj heq).1] at hc
        exact absurd rfl hc
      · rw [List.takeWhile_cons_of_neg hc, List.dropWhile_cons_of_neg hc]
    rw [unsigned, hwhole] at h
    exact h rfl

/-- **Every double is read back from its text.** -/
theorem value_floatText {x : Binary64} (hx : x.IsDouble) (fuel room : Nat)
    (hr : endsNumber r = true) :
    value (fuel + 1) room (floatText x ++ r) = .ok (.float x, r) := by
  cases hx with
  | nan => rfl
  | infinity negative => cases negative <;> rfl
  | @finite negative u hgrid hfinite =>
    have hread := unsigned_magnitudeText negative hgrid hfinite hr
    obtain ⟨c, cs, hcons, hc⟩ := exists_digit_of_unsigned fun h => nomatch hread.symm.trans h
    rw [floatText, Binary64.render, List.append_assoc, hcons]
    rw [hcons] at hread
    cases negative with
    | true =>
      have hc' : c ≠ 'I' := by
        rintro rfl
        exact Bool.noConfusion hc
      rw [if_pos rfl, List.singleton_append, value_of_number fuel room (Or.inr rfl), ← hread]
      rw [number.eq_def]
      split <;> simp_all
    | false =>
      have hc' : c ≠ '-' := by
        rintro rfl
        exact Bool.noConfusion hc
      rw [if_neg Bool.false_ne_true, List.nil_append, value_of_number fuel room (Or.inl hc),
        ← hread]
      rw [number.eq_def]
      split <;> simp_all

theorem readsAs_floatText (room : Nat) {x : Binary64} (hx : x.IsDouble) :
    ReadsAs room (floatText x) (.float x) := by
  refine readsAs_of_step ?_ fun fuel _ hrest => value_floatText hx fuel room hrest
  intro hnil
  have hread := value_floatText (r := []) hx 0 room rfl
  rw [hnil] at hread
  exact nomatch hread

end RolloutLedger.Json
