import RolloutLedger.Proofs.Outcomes
import RolloutLedger.Proofs.Text.Numeral
import RolloutLedger.Settings
/-! # Settings that were read

An environment holds free texts, and every reader of a setting either refuses its text or answers
within the bounds of the setting.  There is one exception: a deadline is refused if it is zero or
less, and what is not a number is neither.  So the deadline that is read is a positive number
exactly if its text does not spell what is not a number.
-/

namespace RolloutLedger

/-! ## Numbers on one line -/

namespace Scalar

theorem Place.le_total (p q : Place) : p.le q = true ∨ q.le p = true := by
  cases p with
  | bottom => exact Or.inl rfl
  | top =>
    right
    cases q <;> rfl
  | «at» m =>
    cases q with
    | bottom => exact Or.inr rfl
    | top => exact Or.inl rfl
    | «at» n =>
      simp only [Place.le, decide_eq_true_eq]
      exact Int.le_total m n

/-- A double that has a place, and is not zero or less, is more than zero. -/
theorem zero_lt_of_not_le {x : Binary64} (hx : x ≠ .nan) (h : (float x).le (.int 0) = false) :
    (int 0).lt (.float x) = true := by
  rw [lt, h, Bool.not_false, Bool.and_true]
  rw [le] at h ⊢
  · cases hplace : (float x).place? with
    | none =>
      cases x with
      | nan => exact absurd rfl hx
      | infinity negative => exact nomatch hplace
      | finite negative units => exact nomatch hplace
    | some p =>
      rw [hplace] at h
      simp only [place?] at h ⊢
      rcases Place.le_total p (.at (0 * Binary64.unitsPerOne)) with hle | hle
      · rw [hle] at h
        cases h
      · exact hle
  all_goals
    intros
    contradiction

/-- What is not a number is not more than zero either. -/
theorem not_zero_lt_nan : ¬(int 0).lt (.float .nan) = true := Bool.false_ne_true

end Scalar

namespace Settings

/-! ## What settings are like -/

def levels : List String := ["debug", "info", "warning", "error"]

/-- Settings whose length of histories and whose log level are within their bounds. -/
structure IsBounded (s : Settings) : Prop where
  one_le_limit : 1 ≤ s.historyLimit
  limit_le : s.historyLimit ≤ 1000
  level_mem : s.logLevel ∈ levels

/-- Settings that also have a deadline of more than no time. -/
structure IsUsable (s : Settings) : Prop extends s.IsBounded where
  zero_lt_timeout : (Scalar.int 0).lt s.storeTimeout = true

/-- A failure over a variable, and what its text is like. -/
inductive Refused (env : Environment) : Error → Prop
  | limit {text : String} (h : lookup env "RBGS_REVISION_HISTORY_LIMIT" = some text)
      (hread : Text.integer? text = none) : Refused env .unreadable
  | deadline {text : String} (h : lookup env "RBGS_STORE_TIMEOUT_SECONDS" = some text)
      (hread : Text.binary64? text = none) : Refused env .unreadable
  | notPositive {text : String} {x : Binary64}
      (h : lookup env "RBGS_STORE_TIMEOUT_SECONDS" = some text)
      (hread : Text.binary64? text = some x) (hle : (Scalar.float x).le (.int 0) = true) :
      Refused env (.timeoutNotPositive x)
  | level {name : String} (h : lookup env "RBGS_LOG_LEVEL" = some name)
      (hname : lower name ∉ levels) : Refused env (.unknownLogLevel name)

/-- An environment whose deadline is spelled as what is not a number. -/
def GivesNan (env : Environment) : Prop :=
  ∃ text, lookup env "RBGS_STORE_TIMEOUT_SECONDS" = some text ∧ Text.SpellsNan text

/-- A deadline as the environment gives it: what is not a number where that is spelled, and a
positive number otherwise. -/
def IsDeadlineOf (env : Environment) (timeout : Scalar) : Prop :=
  GivesNan env ∧ timeout = .float .nan ∨
    ¬GivesNan env ∧ (Scalar.int 0).lt timeout = true

/-! ## What is read -/

variable (env : Environment)

theorem clamp_bounds {low high : Int} (h : low ≤ high) (n : Int) :
    low ≤ clamp low high n ∧ clamp low high n ≤ high := by
  rw [clamp]
  omega

theorem meets_readHistoryLimit :
    Meets (fun n => 1 ≤ n ∧ n ≤ 1000) (Refused env)
      (readHistoryLimit (lookup env "RBGS_REVISION_HISTORY_LIMIT")) := by
  cases hv : lookup env "RBGS_REVISION_HISTORY_LIMIT" with
  | none => exact .ok (by decide)
  | some text =>
    cases hn : Text.integer? text with
    | none =>
      simp only [readHistoryLimit, hn]
      exact .error (.limit hv hn)
    | some n =>
      simp only [readHistoryLimit, hn]
      exact .ok (clamp_bounds (by decide) n)

/-- The deadline of an environment that has none. -/
theorem zero_lt_standard : (Scalar.int 0).lt standard.storeTimeout = true := by decide +kernel

theorem meets_readTimeout :
    Meets (IsDeadlineOf env) (Refused env)
      (readTimeout (lookup env "RBGS_STORE_TIMEOUT_SECONDS")) := by
  cases hv : lookup env "RBGS_STORE_TIMEOUT_SECONDS" with
  | none =>
    refine .ok (Or.inr ⟨?_, zero_lt_standard⟩)
    rintro ⟨text, htext, -⟩
    rw [hv] at htext
    cases htext
  | some text =>
    have hgives : GivesNan env ↔ Text.SpellsNan text := by
      rw [GivesNan, hv]
      constructor
      · rintro ⟨_, heq, h⟩
        cases heq
        exact h
      · intro h
        exact ⟨text, rfl, h⟩
    cases hx : Text.binary64? text with
    | none =>
      simp only [readTimeout, hx]
      exact .error (.deadline hv hx)
    | some x =>
      simp only [readTimeout, hx]
      split
      · rename_i hle
        exact .error (.notPositive hv hx hle)
      · rename_i hle
        refine .ok ?_
        rw [IsDeadlineOf, hgives, ← Text.binary64?_eq_nan_iff, hx]
        by_cases hnan : x = .nan
        · exact Or.inl ⟨congrArg some hnan, congrArg Scalar.float hnan⟩
        · refine Or.inr ⟨fun h => hnan (Option.some.inj h), ?_⟩
          exact Scalar.zero_lt_of_not_le hnan (Bool.eq_false_iff.mpr hle)

theorem meets_readLogLevel :
    Meets (· ∈ levels) (Refused env) (readLogLevel (lookup env "RBGS_LOG_LEVEL")) := by
  cases hv : lookup env "RBGS_LOG_LEVEL" with
  | none => exact .ok (by decide)
  | some name =>
    rw [readLogLevel]
    split
    · rename_i hname
      exact .ok (List.contains_iff_mem.mp hname)
    · rename_i hname
      exact .error (.level hv (mt List.contains_iff_mem.mpr hname))

/-- **Settings that were read are usable, unless their deadline is not a number.**  Every
environment is refused over one of its texts, or makes settings within their bounds, with a positive
deadline exactly if the text of the deadline does not spell what is not a number. -/
theorem usable_unless_nan :
    Meets (fun s => s.IsBounded ∧ (s.IsUsable ↔ ¬GivesNan env) ∧
      (s.storeTimeout = .float .nan ↔ GivesNan env)) (Refused env) (ofEnvironment env) := by
  refine (meets_readHistoryLimit env).bind fun limit hlimit => ?_
  refine (meets_readTimeout env).bind fun timeout htimeout => ?_
  refine (meets_readLogLevel env).bind fun level hlevel => ?_
  refine .ok ⟨⟨hlimit.1, hlimit.2, hlevel⟩, ?_, ?_⟩
  · constructor
    · rintro ⟨-, hpositive⟩
      rcases htimeout with ⟨-, rfl⟩ | ⟨hgives, -⟩
      · exact absurd hpositive Scalar.not_zero_lt_nan
      · exact hgives
    · intro hgives
      rcases htimeout with ⟨h, -⟩ | ⟨-, hpositive⟩
      · exact absurd h hgives
      · exact ⟨⟨hlimit.1, hlimit.2, hlevel⟩, hpositive⟩
  · rcases htimeout with ⟨hgives, htimeout⟩ | ⟨hgives, hpositive⟩
    · exact ⟨fun _ => hgives, fun _ => htimeout⟩
    · refine ⟨?_, fun h => absurd h hgives⟩
      rintro rfl
      exact absurd hpositive Scalar.not_zero_lt_nan

/-- The word alone makes settings whose deadline is not a number. -/
theorem unusable_with_nan :
    ¬Meets IsUsable (Refused [("RBGS_STORE_TIMEOUT_SECONDS", "nan")])
      (ofEnvironment [("RBGS_STORE_TIMEOUT_SECONDS", "nan")]) := by
  have hread : ofEnvironment [("RBGS_STORE_TIMEOUT_SECONDS", "nan")] =
      .ok { standard with storeTimeout := .float .nan } := rfl
  intro h
  have husable := h.of_ok hread
  exact absurd husable.zero_lt_timeout Scalar.not_zero_lt_nan

end Settings

end RolloutLedger
