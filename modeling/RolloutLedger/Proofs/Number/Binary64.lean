import Mathlib.Algebra.Order.Field.Power
import Mathlib.Data.List.TakeWhile
import Mathlib.Data.Rat.Cast.Order
import Mathlib.Tactic.FieldSimp
import Mathlib.Tactic.Linarith
import Mathlib.Tactic.Positivity
import Mathlib.Tactic.Ring
import RolloutLedger.Proofs.Number.Decimal
/-! # Doubles are read back

A double is a magnitude on the grid of doubles, whose spacing grows with it.  Around each magnitude
lie the numbers that are read as it.  The decimal that is written is one of them, and seventeen
digits are always enough for there to be one; whatever decimal of the same value is read gives the
double back.

Every double that is read from a decimal lies on the grid.
-/

namespace RolloutLedger.Binary64

open Decimal (tenTo digits)

variable {u n d q : Nat} {negative : Bool}

/-! ## The grid -/

/-- What a double can be: not a number, infinite, or a multiple of the spacing of doubles around
it. -/
inductive IsDouble : Binary64 → Prop
  | nan : IsDouble nan
  | infinity (negative : Bool) : IsDouble (infinity negative)
  | finite (negative : Bool) {units : Nat} (grid : spacing units ∣ units)
    (bounded : units < overflow) : IsDouble (finite negative units)

/-- The spacing is a power of two such that a significand has its number of bits, or less where the
spacing is least. -/
theorem spacing_spec (u : Nat) :
    ∃ j, spacing u = 2 ^ j ∧ u < 2 ^ 53 * 2 ^ j ∧ (j = 0 ∨ 2 ^ 52 * 2 ^ j ≤ u) := by
  refine ⟨Nat.log2 u + 1 - 53, rfl, ?_, ?_⟩
  · rw [← Nat.pow_add]
    exact Nat.lt_of_lt_of_le Nat.lt_log2_self (Nat.pow_le_pow_right (by decide) (by omega))
  · by_cases hlog : Nat.log2 u ≤ 52
    · left
      omega
    · right
      have hu : u ≠ 0 := by
        rintro rfl
        exact hlog (by decide)
      rw [← Nat.pow_add]
      exact Nat.le_trans (Nat.pow_le_pow_right (by decide) (by omega)) (Nat.log2_self_le hu)

theorem spacing_eq {j : Nat} (hlt : u < 2 ^ 53 * 2 ^ j) (hge : j = 0 ∨ 2 ^ 52 * 2 ^ j ≤ u) :
    spacing u = 2 ^ j := by
  rw [← Nat.pow_add] at hlt hge
  have hlog : Nat.log2 u + 1 - 53 = j := by
    rcases hge with rfl | hge
    · by_cases hu : u = 0
      · rw [hu]
        rfl
      · have := (Nat.log2_lt hu).mpr hlt
        omega
    · have hu : u ≠ 0 := Nat.ne_of_gt (Nat.lt_of_lt_of_le (Nat.two_pow_pos _) hge)
      have := (Nat.log2_lt hu).mpr hlt
      have := (Nat.le_log2 hu).mpr hge
      omega
  show 2 ^ (Nat.log2 u + 1 - 53) = 2 ^ j
  rw [hlog]

theorem spacing_pos (u : Nat) : 0 < spacing u := Nat.two_pow_pos _

theorem spacing_dvd_mul {r : Nat} (hr : r ≤ 2 ^ 53) (j : Nat) :
    spacing (r * 2 ^ j) ∣ r * 2 ^ j := by
  obtain ⟨i, hi, -, hge⟩ := spacing_spec (r * 2 ^ j)
  rw [hi]
  rcases hge with rfl | hge
  · exact Nat.one_dvd _
  · -- the spacing may be twice the power of two, but then there are as many multiples as can be
    by_cases hij : i ≤ j
    · exact Nat.dvd_trans (Nat.pow_dvd_pow 2 hij) (Nat.dvd_mul_left _ _)
    · obtain ⟨k, rfl⟩ : ∃ k, i = j + 1 + k := ⟨i - (j + 1), by omega⟩
      have hbound : 2 ^ 52 * 2 ^ (j + 1 + k) ≤ 2 ^ 53 * 2 ^ j :=
        Nat.le_trans hge (Nat.mul_le_mul_right _ hr)
      have hk : k = 0 := by
        by_contra hk
        have hmore : 2 ^ (52 + (j + 2)) ≤ 2 ^ 52 * 2 ^ (j + 1 + k) := by
          rw [← Nat.pow_add]
          exact Nat.pow_le_pow_right (by decide) (by omega)
        have hless : 2 ^ 53 * 2 ^ j < 2 ^ (52 + (j + 2)) := by
          rw [← Nat.pow_add]
          exact Nat.pow_lt_pow_right (by decide) (by omega)
        omega
      subst hk
      have hwhole : r * 2 ^ j = 2 ^ 53 * 2 ^ j := by
        have : 2 ^ 52 * 2 ^ (j + 1 + 0) = 2 ^ 53 * 2 ^ j := by
          rw [← Nat.pow_add, ← Nat.pow_add]
          congr 1
          omega
        exact Nat.le_antisymm (Nat.mul_le_mul_right _ hr) (this ▸ hge)
      rw [hwhole, ← Nat.pow_add]
      exact Nat.pow_dvd_pow 2 (by omega)

/-! ## Rounding -/

/-- A number is rounded to an integer at most a half away, to an odd one only if it is nearer. -/
theorem roundHalfEven_eq (hd : 0 < d) (hlow : 2 * q * d ≤ 2 * n + d)
    (hhigh : 2 * n ≤ (2 * q + 1) * d)
    (hodd : q % 2 = 1 → 2 * q * d < 2 * n + d ∧ 2 * n < (2 * q + 1) * d) :
    roundHalfEven n d = q := by
  have hn : d * (n / d) + n % d = n := Nat.div_add_mod n d
  have hr : n % d < d := Nat.mod_lt n hd
  unfold roundHalfEven
  simp only
  generalize n / d = Q at *
  generalize n % d = r at *
  subst hn
  have hle : Q ≤ q := by
    by_contra hlt
    have : (2 * q + 1) * d < 2 * (d * Q + r) := by nlinarith
    omega
  have hge : q ≤ Q + 1 := by
    by_contra hlt
    have : 2 * (d * Q + r) + d < 2 * q * d := by nlinarith
    omega
  obtain rfl | rfl : q = Q ∨ q = Q + 1 := by omega
  · have hhalf : 2 * r ≤ d := by nlinarith
    by_cases hless : 2 * r < d
    · rw [if_pos hless]
    · have heven : q % 2 = 0 := by
        by_contra hne
        have := (hodd (by omega)).2
        nlinarith
      rw [if_neg hless, if_neg (by omega), if_pos heven]
  · have hhalf : d ≤ 2 * r := by nlinarith
    by_cases hmore : d < 2 * r
    · rw [if_neg (by omega), if_pos hmore]
    · have hnot : ¬ Q % 2 = 0 := by
        intro heven
        have := (hodd (by omega)).1
        nlinarith
      rw [if_neg (by omega), if_neg hmore, if_neg hnot]

/-! ## The numbers that are read as a magnitude -/

/-- How far below a magnitude the next double lies, in halves of the spacing: where the spacing
changes, the doubles below lie closer. -/
def gapBelow (u : Nat) : Nat :=
  if u / spacing u = Nat.pow 2 (precision - 1) && 1 < spacing u then spacing u else 2 * spacing u

/-- A number of units that lies no farther from a magnitude than half of the way to the doubles
beside it, and less far if the significand is odd. -/
structure Rounds (u : Nat) (x : ℚ) : Prop where
  low : 4 * (u : ℚ) - gapBelow u ≤ 4 * x
  high : 4 * x ≤ 4 * u + 2 * spacing u
  odd : u / spacing u % 2 = 1 → 4 * (u : ℚ) - gapBelow u < 4 * x ∧ 4 * x < 4 * u + 2 * spacing u

theorem gapBelow_le (u : Nat) : gapBelow u ≤ 2 * spacing u := by
  unfold gapBelow
  split <;> omega

theorem spacing_le (hu : 0 < u) (hgrid : spacing u ∣ u) : spacing u ≤ u := Nat.le_of_dvd hu hgrid

/-- What is read as a magnitude lies between its half and its double. -/
theorem Rounds.between {x : ℚ} (h : Rounds u x) (hu : 0 < u) (hgrid : spacing u ∣ u) :
    (u : ℚ) ≤ 2 * x ∧ 2 * x ≤ 3 * u := by
  have hgap : (gapBelow u : ℚ) ≤ 2 * spacing u := by exact_mod_cast gapBelow_le u
  have hle : (spacing u : ℚ) ≤ u := by exact_mod_cast spacing_le hu hgrid
  have hlow := h.low
  have hhigh := h.high
  constructor <;> linarith

/-- The same for a ratio, without fractions. -/
structure RoundsRatio (u n d : Nat) : Prop where
  low : 4 * u * d ≤ 4 * n + gapBelow u * d
  high : 4 * n ≤ (4 * u + 2 * spacing u) * d
  odd : u / spacing u % 2 = 1 →
    4 * u * d < 4 * n + gapBelow u * d ∧ 4 * n < (4 * u + 2 * spacing u) * d

theorem rounds_div_iff (hd : 0 < d) : Rounds u (n / d) ↔ RoundsRatio u n d := by
  have hd' : (0 : ℚ) < d := by exact_mod_cast hd
  have hle : 4 * (u : ℚ) - gapBelow u ≤ 4 * (n / d) ↔ 4 * u * d ≤ 4 * n + gapBelow u * d := by
    rw [← mul_div_assoc, le_div_iff₀ hd', sub_mul, sub_le_iff_le_add]
    norm_cast
  have hlt : 4 * (u : ℚ) - gapBelow u < 4 * (n / d) ↔ 4 * u * d < 4 * n + gapBelow u * d := by
    rw [← mul_div_assoc, lt_div_iff₀ hd', sub_mul, sub_lt_iff_lt_add]
    norm_cast
  have hge : 4 * ((n : ℚ) / d) ≤ 4 * u + 2 * spacing u ↔ 4 * n ≤ (4 * u + 2 * spacing u) * d := by
    rw [← mul_div_assoc, div_le_iff₀ hd']
    norm_cast
  have hgt : 4 * ((n : ℚ) / d) < 4 * u + 2 * spacing u ↔ 4 * n < (4 * u + 2 * spacing u) * d := by
    rw [← mul_div_assoc, div_lt_iff₀ hd']
    norm_cast
  constructor
  · exact fun h => ⟨hle.mp h.low, hge.mp h.high, fun hodd => (h.odd hodd).imp hlt.mp hgt.mp⟩
  · exact fun h => ⟨hle.mpr h.low, hge.mpr h.high, fun hodd => (h.odd hodd).imp hlt.mpr hgt.mpr⟩

/-- The spacing of doubles around a number that is read as a magnitude is the spacing there, unless
the number lies below it and the spacing changes. -/
theorem RoundsRatio.spacing_floor (h : RoundsRatio u n d) (hgrid : spacing u ∣ u) (hd : 0 < d) :
    spacing (n / d) = spacing u ∨
      gapBelow u = spacing u ∧ n < u * d ∧ spacing u = 2 * spacing (n / d) := by
  obtain ⟨j, hj, hlt, hge⟩ := spacing_spec u
  obtain ⟨m, hm⟩ := hgrid
  have hlow := h.low
  have hhigh := h.high
  have hgap := gapBelow_le u
  have hpos : 0 < 2 ^ j := Nat.two_pow_pos j
  rw [hj] at hm hhigh hgap ⊢
  have hmlt : m < 2 ^ 53 := by
    rw [hm, Nat.mul_comm] at hlt
    exact Nat.lt_of_mul_lt_mul_right hlt
  have hfloor : n / d < 2 ^ 53 * 2 ^ j := by
    rw [Nat.div_lt_iff_lt_mul hd]
    have hnext : u + 2 ^ j ≤ 2 ^ 53 * 2 ^ j := by
      rw [hm]
      calc 2 ^ j * m + 2 ^ j = 2 ^ j * (m + 1) := by ring
        _ ≤ 2 ^ j * 2 ^ 53 := Nat.mul_le_mul_left _ hmlt
        _ = 2 ^ 53 * 2 ^ j := Nat.mul_comm _ _
    have hless : n < (u + 2 ^ j) * d := by nlinarith
    exact Nat.lt_of_lt_of_le hless (Nat.mul_le_mul_right d hnext)
  by_cases hsame : j = 0 ∨ 2 ^ 52 * 2 ^ j ≤ n / d
  · exact Or.inl (spacing_eq hfloor hsame)
  · -- the number lies in the range below, so that the magnitude is the least of its own
    obtain ⟨hne, hbelow⟩ := not_or.mp hsame
    have hbelow : n < 2 ^ 52 * 2 ^ j * d := (Nat.div_lt_iff_lt_mul hd).mp (Nat.lt_of_not_le hbelow)
    have hleast := hge.resolve_left hne
    have hmge : 2 ^ 52 ≤ m := by
      rw [hm, Nat.mul_comm] at hleast
      exact Nat.le_of_mul_le_mul_left hleast hpos
    have hmeq : m = 2 ^ 52 := by
      by_contra hne
      have hmore : (2 ^ 52 + 1) * 2 ^ j * d ≤ u * d := by
        rw [hm, Nat.mul_comm (2 ^ j) m]
        exact Nat.mul_le_mul_right d (Nat.mul_le_mul_right _ (by omega))
      have hgap' := Nat.mul_le_mul_right d hgap
      nlinarith [Nat.mul_pos hpos hd]
    obtain ⟨i, rfl⟩ := Nat.exists_eq_succ_of_ne_zero hne
    have hdivide : u / spacing u = Nat.pow 2 (precision - 1) := by
      rw [hj, hm, Nat.mul_div_cancel_left m hpos, hmeq]
      rfl
    have hgapeq : gapBelow u = 2 ^ (i + 1) := by
      rw [gapBelow, hdivide, hj, if_pos (by simp)]
    have hu : u = 2 ^ 52 * 2 ^ (i + 1) := by rw [hm, hmeq, Nat.mul_comm]
    have htwice : 2 ^ (i + 1) = 2 * 2 ^ i := by rw [Nat.pow_succ, Nat.mul_comm]
    refine Or.inr ⟨hgapeq, hu ▸ hbelow, ?_⟩
    rw [htwice]
    refine congrArg _ (spacing_eq ?_ (Or.inr ?_)).symm
    · rw [Nat.div_lt_iff_lt_mul hd]
      calc n < 2 ^ 52 * 2 ^ (i + 1) * d := hbelow
        _ = 2 ^ 53 * 2 ^ i * d := by rw [htwice]; ring
    · rw [Nat.le_div_iff_mul_le hd]
      rw [hgapeq, hu, htwice] at hlow
      nlinarith [Nat.mul_pos (Nat.two_pow_pos i) hd]

/-- **Reading by ratio.**  A ratio that is read as a double is read as this double. -/
theorem RoundsRatio.ofUnitRatio_eq (h : RoundsRatio u n d) (hgrid : spacing u ∣ u)
    (hfinite : u < overflow) (hd : 0 < d) : ofUnitRatio negative n d = .finite negative u := by
  have hunits : roundHalfEven n (d * spacing (n / d)) * spacing (n / d) = u := by
    have hstep := h.spacing_floor hgrid hd
    have hgap := Nat.mul_le_mul_right d (gapBelow_le u)
    have hlow := h.low
    have hhigh := h.high
    have hodd := h.odd
    have hpos := spacing_pos (n / d)
    have hu : u / spacing u * spacing u = u := Nat.div_mul_cancel hgrid
    generalize u / spacing u = m at *
    generalize spacing u = step at *
    generalize spacing (n / d) = around at *
    generalize gapBelow u = gap at *
    subst hu
    rcases hstep with hstep | ⟨hgapeq, hless, hstep⟩
    · subst hstep
      refine congrArg (· * around) (roundHalfEven_eq (Nat.mul_pos hd hpos) ?_ ?_ ?_)
      · nlinarith
      · nlinarith
      · intro hmodd
        obtain ⟨hlow, hhigh⟩ := hodd hmodd
        constructor <;> nlinarith
    · -- on the finer grid below, the magnitude is an even multiple of the spacing
      subst hgapeq hstep
      have heven : roundHalfEven n (d * around) = 2 * m := by
        refine roundHalfEven_eq (Nat.mul_pos hd hpos) ?_ ?_ ?_
        · nlinarith
        · nlinarith
        · omega
      rw [heven]
      ring
  rw [ofUnitRatio, hunits, if_pos hfinite]

/-! ## Decimals -/

def decimalUnits (mantissa : Nat) (exponent : Int) : ℚ :=
  mantissa * (10 : ℚ) ^ exponent * unitsPerOne

theorem unitsPerOne_pos : (0 : ℚ) < unitsPerOne := Nat.cast_pos.mpr (by decide +kernel)

theorem cast_tenTo (k : Nat) : (tenTo k : ℚ) = 10 ^ k := Nat.cast_pow 10 k

theorem tenTo_pos (k : Nat) : 0 < tenTo k := Nat.pow_pos (by decide)

theorem decimalUnits_pos {m : Nat} (hm : 0 < m) (e : Int) : 0 < decimalUnits m e :=
  mul_pos (mul_pos (Nat.cast_pos.mpr hm) (zpow_pos (by norm_num) e)) unitsPerOne_pos

/-- Zeros at the end of a decimal move its point. -/
theorem decimalUnits_mul_tenTo (m k : Nat) (e : Int) :
    decimalUnits (m * tenTo k) e = decimalUnits m (e + k) := by
  rw [decimalUnits, decimalUnits, zpow_add₀ (by norm_num), zpow_natCast, Nat.cast_mul, cast_tenTo]
  ring

theorem Rounds.mantissa_ne_zero {m : Nat} {e : Int} (h : Rounds u (decimalUnits m e)) (hu : 0 < u)
    (hgrid : spacing u ∣ u) : m ≠ 0 := by
  rintro rfl
  have hle := (h.between hu hgrid).1
  have hu' : (0 : ℚ) < u := by exact_mod_cast hu
  rw [decimalUnits, Nat.cast_zero, zero_mul, zero_mul, mul_zero] at hle
  exact absurd hu' (not_lt.mpr hle)

/-- A step of a decimal grid, in quarters of a unit. -/
theorem gridRatio_spec (p : Int) :
    0 < (gridRatio p).2 ∧ ((gridRatio p).1 : ℚ) / (4 * (gridRatio p).2) = decimalUnits 1 p := by
  unfold gridRatio decimalUnits
  cases p with
  | ofNat e =>
    refine ⟨Nat.one_pos, ?_⟩
    simp only [Nat.cast_mul, cast_tenTo, Int.ofNat_eq_natCast, zpow_natCast]
    push_cast
    ring
  | negSucc e =>
    refine ⟨tenTo_pos _, ?_⟩
    rw [zpow_negSucc, cast_tenTo]
    push_cast
    -- the unit is too large a number to be evaluated
    generalize (unitsPerOne : ℚ) = unit
    field_simp

theorem decimalUnits_eq (m : Nat) (p : Int) :
    decimalUnits m p = m * decimalUnits 1 p := by
  unfold decimalUnits
  push_cast
  ring

/-! ## Decimal grids -/

/-- Whether so many steps of a grid are read as a magnitude; a step is given in quarters of a unit,
as a ratio. -/
def readsBack (u num den c : Nat) : Bool :=
  if u / spacing u % 2 = 0 then
    (4 * u - gapBelow u) * den ≤ c * num && c * num ≤ (4 * u + 2 * spacing u) * den
  else (4 * u - gapBelow u) * den < c * num && c * num < (4 * u + 2 * spacing u) * den

theorem readsBack_iff {num den c : Nat} (hu : 0 < u) (hgrid : spacing u ∣ u) :
    readsBack u num den c = true ↔ RoundsRatio u (c * num) (4 * den) := by
  have hgap : gapBelow u ≤ 4 * u := by
    have := gapBelow_le u
    have := spacing_le hu hgrid
    omega
  have hsub : (4 * u - gapBelow u) * den + gapBelow u * den = 4 * u * den := by
    rw [← Nat.add_mul, Nat.sub_add_cancel hgap]
  have hlow : 4 * u * (4 * den) = 4 * (4 * u * den) := by ring
  have hgapped : gapBelow u * (4 * den) = 4 * (gapBelow u * den) := by ring
  have hhigh : (4 * u + 2 * spacing u) * (4 * den) = 4 * ((4 * u + 2 * spacing u) * den) := by ring
  constructor
  · intro h
    unfold readsBack at h
    constructor
    · split at h <;> simp only [Bool.and_eq_true, decide_eq_true_eq] at h <;> omega
    · split at h <;> simp only [Bool.and_eq_true, decide_eq_true_eq] at h <;> omega
    · intro hodd
      rw [if_neg (by omega)] at h
      simp only [Bool.and_eq_true, decide_eq_true_eq] at h
      omega
  · intro h
    have hl := h.low
    have hh := h.high
    have ho := h.odd
    unfold readsBack
    split <;> simp only [Bool.and_eq_true, decide_eq_true_eq]
    · omega
    · have := ho (by omega)
      omega

/-- The decimal that is taken from a grid is one of the two neighbours of the magnitude, and is read
as it; if none is taken, neither of them is. -/
theorem onGrid?_cases {num den : Nat} {point : Int} {places : Nat}
    (hratio : gridRatio (point - places) = (num, den)) :
    (∃ c, onGrid? u point places = some c ∧ readsBack u num den c = true) ∨
      onGrid? u point places = none ∧ readsBack u num den (4 * u * den / num) = false ∧
        readsBack u num den (4 * u * den / num + 1) = false := by
  unfold onGrid?
  rw [hratio]
  simp only
  split
  · rename_i hlower hupper
    split
    · exact Or.inl ⟨_, rfl, hlower⟩
    split
    · exact Or.inl ⟨_, rfl, hupper⟩
    split
    · exact Or.inl ⟨_, rfl, hlower⟩
    · exact Or.inl ⟨_, rfl, hupper⟩
  · rename_i hlower _
    exact Or.inl ⟨_, rfl, hlower⟩
  · rename_i _ hupper
    exact Or.inl ⟨_, rfl, hupper⟩
  · rename_i hlower hupper
    exact Or.inr ⟨rfl, hlower, hupper⟩

section Grid

variable {point : Int} {places : Nat}

/-- A decimal that is taken from a grid is read as the double it is taken for. -/
theorem rounds_of_onGrid? (hu : 0 < u) (hgrid : spacing u ∣ u) {c : Nat}
    (h : onGrid? u point places = some c) : Rounds u (decimalUnits c (point - places)) := by
  rcases hratio : gridRatio (point - places) with ⟨num, den⟩
  obtain ⟨hden, hstep⟩ := gridRatio_spec (point - places)
  rw [hratio] at hden hstep
  rcases onGrid?_cases hratio with ⟨c', hc', hreads⟩ | ⟨hnone, -⟩
  · rw [h, Option.some.injEq] at hc'
    subst hc'
    have hrounds := (rounds_div_iff (Nat.mul_pos (by decide) hden)).mpr
      ((readsBack_iff hu hgrid).mp hreads)
    rw [decimalUnits_eq, ← hstep, ← mul_div_assoc]
    exact_mod_cast hrounds
  · rw [h] at hnone
    exact nomatch hnone

/-- A grid that is fine enough has a decimal that is read as the double: one of the neighbours of
the magnitude lies near enough, for else there would be more than a step between them. -/
theorem exists_onGrid? (hu : 0 < u) (hgrid : spacing u ∣ u)
    (hfine : 4 * decimalUnits 1 (point - places) < gapBelow u + 2 * spacing u) :
    ∃ c, onGrid? u point places = some c := by
  rcases hratio : gridRatio (point - places) with ⟨num, den⟩
  obtain ⟨hden, hstep⟩ := gridRatio_spec (point - places)
  rw [hratio] at hden hstep
  simp only at hden hstep
  rcases onGrid?_cases hratio with ⟨c, hc, -⟩ | ⟨-, hlower, hupper⟩
  · exact ⟨c, hc⟩
  · exfalso
    have hden' : (0 : ℚ) < den := by exact_mod_cast hden
    have hsmall : num < (gapBelow u + 2 * spacing u) * den := by
      have hquarter : (num : ℚ) / den = 4 * decimalUnits 1 (point - places) := by
        rw [← hstep]
        field_simp
      rw [← hquarter, div_lt_iff₀ hden'] at hfine
      exact_mod_cast hfine
    have hnum : 0 < num := by
      have hpositive := decimalUnits_pos Nat.one_pos (point - places)
      rw [← hstep] at hpositive
      by_contra hzero
      have hzero : num = 0 := by omega
      rw [hzero] at hpositive
      simp at hpositive
    have hle : 4 * u * den / num * num ≤ 4 * u * den := Nat.div_mul_le_self _ _
    have hlt : 4 * u * den < (4 * u * den / num + 1) * num :=
      Nat.lt_mul_of_div_lt (Nat.lt_succ_self _) hnum
    generalize 4 * u * den / num = lower at *
    have hspacing := Nat.mul_pos (spacing_pos u) hden
    have hgap : (4 * u - gapBelow u) * den + gapBelow u * den = 4 * u * den := by
      have hle := Nat.le_trans (gapBelow_le u) (Nat.mul_le_mul_left 2 (spacing_le hu hgrid))
      rw [← Nat.add_mul, Nat.sub_add_cancel (by omega)]
    have hhigh : (4 * u + 2 * spacing u) * den = 4 * u * den + 2 * (spacing u * den) := by ring
    have hsum : (gapBelow u + 2 * spacing u) * den = gapBelow u * den + 2 * (spacing u * den) := by
      ring
    have hnext : (lower + 1) * num = lower * num + num := by ring
    -- the lower neighbour lies too far below, the upper one too far above
    unfold readsBack at hlower hupper
    split at hlower <;>
      simp only [*, if_true, if_false, Bool.and_eq_false_iff, decide_eq_false_iff_not, not_le,
        not_lt] at hlower hupper <;>
      omega

end Grid

/-! ## The shortest decimal -/

/-- The point of a magnitude stands no farther right than its first digit asks for. -/
theorem decimalUnits_pointOf_le (hu : 0 < u) : decimalUnits 1 (pointOf u - 1) ≤ u := by
  have hone : unitsPerOne ≤ tenTo 324 := by decide +kernel
  have hpos : 0 < unitsPerOne := by exact_mod_cast unitsPerOne_pos
  have hne : u * tenTo 324 / unitsPerOne ≠ 0 := by
    have hle : unitsPerOne ≤ u * tenTo 324 :=
      Nat.le_trans hone (Nat.le_mul_of_pos_left _ hu)
    exact Nat.ne_of_gt (Nat.div_pos hle hpos)
  have hfirst := Nat.mul_le_of_le_div _ _ _ (Decimal.tenTo_length_le hne)
  have hlength := Decimal.length_digits_pos (u * tenTo 324 / unitsPerOne)
  unfold decimalUnits pointOf
  generalize (digits (u * tenTo 324 / unitsPerOne)).length = k at *
  have hcast : (10 : ℚ) ^ (k - 1) * unitsPerOne ≤ u * 10 ^ 324 := by
    rw [← cast_tenTo, ← cast_tenTo]
    exact_mod_cast hfirst
  have hexponent : (k : Int) - 324 - 1 = ((k - 1 : Nat) : Int) - (324 : Nat) := by omega
  rw [hexponent, zpow_sub₀ (by norm_num), zpow_natCast, zpow_natCast, Nat.cast_one, one_mul,
    div_mul_eq_mul_div, div_le_iff₀ (by positivity)]
  exact hcast

/-- **Seventeen digits are enough.**  A step of the grid at the seventeenth digit is less than what
is read as the double. -/
theorem seventeen_fine (hu : 0 < u) (hgrid : spacing u ∣ u) :
    4 * decimalUnits 1 (pointOf u - (17 : Nat)) < gapBelow u + 2 * spacing u := by
  have hshift : decimalUnits 1 (pointOf u - (17 : Nat)) * 10 ^ 16 =
      decimalUnits 1 (pointOf u - 1) := by
    have hexponent : pointOf u - (17 : Nat) = pointOf u - 1 - (16 : Nat) := by omega
    unfold decimalUnits
    rw [hexponent, zpow_sub₀ (by norm_num), zpow_natCast]
    generalize (unitsPerOne : ℚ) = unit
    field_simp
  have hle := decimalUnits_pointOf_le hu
  rw [← hshift] at hle
  have hsignificand : u / spacing u < 2 ^ 53 := by
    obtain ⟨j, hj, hlt, -⟩ := spacing_spec u
    rw [hj]
    exact (Nat.div_lt_iff_lt_mul (Nat.two_pow_pos j)).mpr hlt
  have hunits : u / spacing u * spacing u = u := Nat.div_mul_cancel hgrid
  have hbound : 4 * u < (gapBelow u + 2 * spacing u) * 10 ^ 16 := by
    have hpos := spacing_pos u
    unfold gapBelow
    generalize u / spacing u = m at *
    generalize spacing u = step at *
    subst hunits
    split
    · rename_i hleast
      rw [Bool.and_eq_true, decide_eq_true_eq] at hleast
      have hm : m = 2 ^ 52 := hleast.1
      rw [hm]
      omega
    · nlinarith
  have hbound : (4 : ℚ) * u < (gapBelow u + 2 * spacing u) * 10 ^ 16 := by exact_mod_cast hbound
  linarith

theorem shortestFrom_spec {point : Int} {c : Nat} (tries places : Nat)
    (h : onGrid? u point (places + tries) = some c) :
    ∃ found k, shortestFrom u point tries places = ⟨found, point - (k : Nat)⟩ ∧
      onGrid? u point k = some found := by
  induction tries generalizing places with
  | zero =>
    rw [Nat.add_zero] at h
    exact ⟨c, places, by rw [shortestFrom, h]; rfl, h⟩
  | succ tries ih =>
    rw [shortestFrom]
    cases hhere : onGrid? u point places with
    | some found => exact ⟨found, places, rfl, hhere⟩
    | none => exact ih _ (by rw [← h, Nat.add_right_comm, Nat.add_assoc])

/-- The decimal that is taken for a double is read as it. -/
theorem rounds_shortestFrom (hu : 0 < u) (hgrid : spacing u ∣ u) :
    Rounds u (decimalUnits (shortestFrom u (pointOf u) 16 1).number
      (shortestFrom u (pointOf u) 16 1).point) := by
  obtain ⟨c, hc⟩ := exists_onGrid? hu hgrid (seventeen_fine hu hgrid)
  obtain ⟨found, k, heq, hfound⟩ := shortestFrom_spec 16 1 hc
  rw [heq]
  exact rounds_of_onGrid? hu hgrid hfound

theorem exists_trailing (ds : List Char) :
    ∃ k, ds = (ds.reverse.dropWhile (· == '0')).reverse ++ List.replicate k '0' := by
  refine ⟨(ds.reverse.takeWhile (· == '0')).length, ?_⟩
  have hzeros : ds.reverse.takeWhile (· == '0') =
      List.replicate (ds.reverse.takeWhile (· == '0')).length '0' :=
    List.eq_replicate_iff.mpr ⟨rfl, fun c hc => by simpa using List.mem_takeWhile_imp hc⟩
  have hsplit := congrArg List.reverse
    (List.takeWhile_append_dropWhile (p := (· == '0')) (l := ds.reverse))
  rw [List.reverse_append, List.reverse_reverse, hzeros, List.reverse_replicate] at hsplit
  exact hsplit.symm

/-- **The shortest decimal.**  The digits of a double begin with one that is not zero, and stand for
a decimal that is read as the double. -/
theorem shortest_spec (hu : 0 < u) (hgrid : spacing u ∣ u) :
    (∃ c cs, (shortest u).1 = c :: cs ∧ c ≠ '0') ∧
      (∀ c ∈ (shortest u).1, Decimal.isDigit c = true) ∧
      Rounds u (decimalUnits (Decimal.value (shortest u).1)
        ((shortest u).2 - (shortest u).1.length)) := by
  have hrounds := rounds_shortestFrom hu hgrid
  unfold shortest
  generalize shortestFrom u (pointOf u) 16 1 = found at *
  simp only
  have hfound := hrounds.mantissa_ne_zero hu hgrid
  obtain ⟨c, cs, hcons, hc, -⟩ := Decimal.digits_eq_cons hfound
  have hdigits : ∀ c ∈ digits found.number, Decimal.isDigit c = true :=
    fun c => Decimal.isDigit_of_mem_digits
  have hvalue := Decimal.value_digits found.number
  obtain ⟨k, hk⟩ := exists_trailing (digits found.number)
  generalize ((digits found.number).reverse.dropWhile (· == '0')).reverse = ds at *
  generalize digits found.number = whole at *
  subst hk
  rw [Decimal.value_append_replicate_zero] at hvalue
  refine ⟨?_, fun d hd => hdigits d (List.mem_append_left _ hd), ?_⟩
  · cases ds with
    | nil =>
      -- a numeral of zeros alone would begin with a zero
      refine absurd ?_ hc
      exact List.eq_of_mem_replicate (hcons ▸ List.mem_cons_self)
    | cons d ds => exact ⟨d, ds, rfl, by rwa [(List.cons.inj hcons).1]⟩
  · have hsame : decimalUnits found.number found.point = decimalUnits (Decimal.value ds)
        (found.point + (ds ++ List.replicate k '0').length - ds.length) := by
      rw [← hvalue, decimalUnits_mul_tenTo, List.length_append, List.length_replicate]
      refine congrArg _ ?_
      omega
    exact hsame ▸ hrounds

/-! ## Reading decimals -/

section Decimals

variable {m : Nat} {e : Int}

/-- The number of digits of a decimal says how large it is. -/
theorem decimalUnits_bounds (hm : m ≠ 0) (e : Int) :
    (10 : ℚ) ^ ((digits m).length + e - 1) * unitsPerOne ≤ decimalUnits m e ∧
      decimalUnits m e < (10 : ℚ) ^ ((digits m).length + e) * unitsPerOne := by
  have hlength := Decimal.length_digits_pos m
  have hlow : (10 : ℚ) ^ ((digits m).length - 1) ≤ m := by
    rw [← cast_tenTo]
    exact_mod_cast Decimal.tenTo_length_le hm
  have hhigh : (m : ℚ) < 10 ^ (digits m).length := by
    rw [← cast_tenTo]
    exact_mod_cast Decimal.lt_tenTo_length m
  have hpower : (0 : ℚ) < 10 ^ e := zpow_pos (by norm_num) e
  generalize (digits m).length = k at *
  have hexponent : (k : Int) + e - 1 = ((k - 1 : Nat) : Int) + e := by omega
  unfold decimalUnits
  rw [hexponent, zpow_add₀ (by norm_num), zpow_add₀ (by norm_num), zpow_natCast, zpow_natCast]
  constructor
  · exact mul_le_mul_of_nonneg_right (mul_le_mul_of_nonneg_right hlow hpower.le)
      unitsPerOne_pos.le
  · exact mul_lt_mul_of_pos_right (mul_lt_mul_of_pos_right hhigh hpower) unitsPerOne_pos

/-- What is read as a double is neither too large nor too small to be looked at. -/
theorem Rounds.places_bounds (h : Rounds u (decimalUnits m e)) (hu : 0 < u)
    (hgrid : spacing u ∣ u) (hfinite : u < overflow) (hm : m ≠ 0) :
    ¬ (digits m).length + e > 400 ∧ ¬ (digits m).length + e < -400 := by
  obtain ⟨hlow, hhigh⟩ := decimalUnits_bounds hm e
  obtain ⟨hle, hge⟩ := h.between hu hgrid
  generalize (digits m).length + e = places at *
  constructor
  · intro hlarge
    have hpower : (tenTo 400 : ℚ) ≤ 10 ^ (places - 1) := by
      rw [cast_tenTo, ← zpow_natCast]
      exact zpow_le_zpow_right₀ (by norm_num) (by omega)
    have hunits : (3 : ℚ) * overflow ≤ tenTo 400 * unitsPerOne := by
      exact_mod_cast (by decide +kernel : 3 * overflow ≤ tenTo 400 * unitsPerOne)
    have hu' : (u : ℚ) < overflow := by exact_mod_cast hfinite
    have := mul_le_mul_of_nonneg_right hpower unitsPerOne_pos.le
    have : (0 : ℚ) ≤ u := Nat.cast_nonneg u
    linarith
  · intro hsmall
    have hpower : (10 : ℚ) ^ places * tenTo 400 ≤ 1 := by
      rw [cast_tenTo, ← zpow_natCast, ← zpow_add₀ (by norm_num)]
      exact zpow_le_one_of_nonpos₀ (by norm_num) (by omega)
    have hunits : (2 : ℚ) * unitsPerOne ≤ tenTo 400 := by
      exact_mod_cast (by decide +kernel : 2 * unitsPerOne ≤ tenTo 400)
    have hu' : (1 : ℚ) ≤ u := by exact_mod_cast hu
    have hpositive : (0 : ℚ) < 10 ^ places := zpow_pos (by norm_num) places
    have := mul_le_mul_of_nonneg_left hunits hpositive.le
    linarith

/-- **Reading by decimal.**  Every decimal that is read as a double gives this double. -/
theorem Rounds.ofDecimal_eq (h : Rounds u (decimalUnits m e)) (hu : 0 < u) (hgrid : spacing u ∣ u)
    (hfinite : u < overflow) : ofDecimal negative m e = .finite negative u := by
  have hm := h.mantissa_ne_zero hu hgrid
  obtain ⟨hlarge, hsmall⟩ := h.places_bounds hu hgrid hfinite hm
  unfold ofDecimal
  simp only
  rw [if_neg hm, if_neg hlarge, if_neg hsmall]
  cases e with
  | ofNat k =>
    refine ((rounds_div_iff Nat.one_pos).mp ?_).ofUnitRatio_eq hgrid hfinite Nat.one_pos
    have hvalue : decimalUnits m (Int.ofNat k) =
        ((m * tenTo k * unitsPerOne : Nat) : ℚ) / (1 : Nat) := by
      unfold decimalUnits
      rw [Int.ofNat_eq_natCast, zpow_natCast, ← cast_tenTo]
      push_cast
      ring
    exact hvalue ▸ h
  | negSucc k =>
    refine ((rounds_div_iff (tenTo_pos (k + 1))).mp ?_).ofUnitRatio_eq hgrid hfinite (tenTo_pos _)
    have hvalue : decimalUnits m (Int.negSucc k) =
        ((m * unitsPerOne : Nat) : ℚ) / (tenTo (k + 1) : Nat) := by
      unfold decimalUnits
      rw [zpow_negSucc, ← cast_tenTo]
      push_cast
      ring
    exact hvalue ▸ h

end Decimals

/-! ## What is read lies on the grid -/

theorem roundHalfEven_le (hd : 0 < d) (h : n < q * d) : roundHalfEven n d ≤ q := by
  have hfloor : n / d < q := (Nat.div_lt_iff_lt_mul hd).mpr h
  unfold roundHalfEven
  simp only
  repeat' split
  all_goals omega

theorem isDouble_ofUnitRatio (negative : Bool) (n : Nat) (hd : 0 < d) :
    (ofUnitRatio negative n d).IsDouble := by
  obtain ⟨j, hj, hlt, -⟩ := spacing_spec (n / d)
  have hless : n < 2 ^ 53 * (d * 2 ^ j) := by
    have := (Nat.div_lt_iff_lt_mul hd).mp hlt
    linarith
  have hsignificand := roundHalfEven_le (Nat.mul_pos hd (Nat.two_pow_pos j)) hless
  unfold ofUnitRatio
  simp only
  rw [hj]
  split
  · exact .finite negative (spacing_dvd_mul hsignificand j) ‹_›
  · exact .infinity negative

/-- **Whatever is read is a double.** -/
theorem isDouble_ofDecimal (negative : Bool) (m : Nat) (e : Int) :
    (ofDecimal negative m e).IsDouble := by
  have hzero : (Binary64.finite negative 0).IsDouble :=
    .finite negative (Nat.dvd_zero _) (by decide +kernel)
  unfold ofDecimal
  simp only
  split
  · exact hzero
  split
  · exact .infinity negative
  split
  · exact hzero
  cases e with
  | ofNat k => exact isDouble_ofUnitRatio negative _ Nat.one_pos
  | negSucc k => exact isDouble_ofUnitRatio negative _ (tenTo_pos _)

end RolloutLedger.Binary64
