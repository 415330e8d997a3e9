import RolloutLedger.Proofs.Gate.Check
/-! # Environments that the gate takes for the same

Environments are compared as sets of variables, where the source of a variable is compared by its
canonical bytes.  These say which source it is, and those of a source are never empty.  So two
environments are taken for the same if each has the variables of the other, and otherwise the
reason lists the names of those that are on one side only.
-/

namespace RolloutLedger

/-! ## The same variables -/

/-- Two variables with the same name and value, and with sources that are the same JSON.  Without a
source a variable has null for it, which is the same JSON as nothing else. -/
structure EnvVar.Same (v w : EnvVar) : Prop where
  name : v.name = w.name
  value : v.value = w.value
  source : Value.sameJson v.valueFrom w.valueFrom = true

namespace EnvVar

variable {u v w : EnvVar}

theorem Same.refl (hv : v.valueFrom.isPlain = true) : v.Same v :=
  ⟨rfl, rfl, (Value.sameJson_iff_ordered_eq hv hv).mpr rfl⟩

theorem Same.symm (hv : v.valueFrom.isPlain = true) (hw : w.valueFrom.isPlain = true)
    (h : v.Same w) : w.Same v :=
  ⟨h.name.symm, h.value.symm, (Value.sameJson_iff_ordered_eq hw hv).mpr
    ((Value.sameJson_iff_ordered_eq hv hw).mp h.source).symm⟩

theorem Same.trans (hu : u.valueFrom.isPlain = true) (hv : v.valueFrom.isPlain = true)
    (hw : w.valueFrom.isPlain = true) (huv : u.Same v) (hvw : v.Same w) : u.Same w :=
  ⟨huv.name.trans hvw.name, huv.value.trans hvw.value, (Value.sameJson_iff_ordered_eq hu hw).mpr
    (((Value.sameJson_iff_ordered_eq hu hv).mp huv.source).trans
      ((Value.sameJson_iff_ordered_eq hv hw).mp hvw.source))⟩

end EnvVar

namespace Gate

def ArePlain (env : List EnvVar) : Prop := ∀ v ∈ env, v.valueFrom.isPlain = true

/-- The sources of variables are within the limits of the runtime, given room for their nesting. -/
def AreWritable (env : List EnvVar) : Prop :=
  ∀ v ∈ env, v.valueFrom.WithinLimits v.valueFrom.depth

def SameEnv (desired actual : List EnvVar) : Prop :=
  (∀ v ∈ desired, ∃ w ∈ actual, v.Same w) ∧ ∀ w ∈ actual, ∃ v ∈ desired, v.Same w

section SameEnv

variable {d a b : List EnvVar}

theorem SameEnv.refl (hd : ArePlain d) : SameEnv d d := by
  constructor
  · intro v hv
    exact ⟨v, hv, .refl (hd v hv)⟩
  · intro v hv
    exact ⟨v, hv, .refl (hd v hv)⟩

theorem SameEnv.symm (hd : ArePlain d) (ha : ArePlain a) (h : SameEnv d a) : SameEnv a d := by
  obtain ⟨hthere, hback⟩ := h
  constructor
  · intro w hw
    obtain ⟨v, hv, hsame⟩ := hback w hw
    exact ⟨v, hv, hsame.symm (hd v hv) (ha w hw)⟩
  · intro v hv
    obtain ⟨w, hw, hsame⟩ := hthere v hv
    exact ⟨w, hw, hsame.symm (hd v hv) (ha w hw)⟩

theorem SameEnv.trans (hd : ArePlain d) (ha : ArePlain a) (hb : ArePlain b) (hda : SameEnv d a)
    (hab : SameEnv a b) : SameEnv d b := by
  constructor
  · intro u hu
    obtain ⟨v, hv, huv⟩ := hda.1 u hu
    obtain ⟨w, hw, hvw⟩ := hab.1 v hv
    exact ⟨w, hw, huv.trans (hd u hu) (ha v hv) (hb w hw) hvw⟩
  · intro w hw
    obtain ⟨v, hv, hvw⟩ := hab.2 w hw
    obtain ⟨u, hu, huv⟩ := hda.2 v hv
    exact ⟨u, hu, huv.trans (hd u hu) (ha v hv) (hb w hw) hvw⟩

end SameEnv

/-! ## The form in which variables are compared -/

section Variables

variable {v w : EnvVar} {x y : Variable}

/-- A variable is compared by its name, its value, and the canonical bytes of its source. -/
theorem exists_bytes_of_variableOf (hx : variableOf v = .ok x) :
    ∃ bytes, x = (v.name, v.value, bytes) ∧
      (v.valueFrom = .null ∧ bytes = [] ∨
        v.valueFrom ≠ .null ∧ Digest.canonical .standard v.valueFrom = .ok bytes) := by
  rw [variableOf] at hx
  cases hsource : v.valueFrom.present? with
  | none =>
    rw [hsource] at hx
    cases hx
    have hnull : v.valueFrom = .null := by
      cases hv : v.valueFrom <;> rw [hv] at hsource <;> first | rfl | cases hsource
    exact ⟨[], rfl, Or.inl ⟨hnull, rfl⟩⟩
  | some source =>
    rw [hsource] at hx
    obtain ⟨bytes, hbytes, rfl⟩ := map_eq_ok_iff.mp hx
    obtain ⟨hv, hpresent⟩ := source_of_present? hsource
    exact ⟨bytes, rfl, Or.inr ⟨hv ▸ hpresent, hv ▸ hbytes⟩⟩

theorem sameJson_null_left {s : Value} : Value.sameJson .null s = true ↔ s = .null := by
  cases s <;> simp [Value.sameJson]

theorem sameJson_null_right {s : Value} : Value.sameJson s .null = true ↔ s = .null := by
  cases s <;> simp [Value.sameJson]

/-- **What is compared says which variable it is.** -/
theorem eq_iff_same (hv : v.valueFrom.isPlain = true) (hw : w.valueFrom.isPlain = true)
    (hx : variableOf v = .ok x) (hy : variableOf w = .ok y) : x = y ↔ v.Same w := by
  obtain ⟨bs, rfl, hbs⟩ := exists_bytes_of_variableOf hx
  obtain ⟨cs, rfl, hcs⟩ := exists_bytes_of_variableOf hy
  have hsource : bs = cs ↔ Value.sameJson v.valueFrom w.valueFrom = true := by
    rcases hbs with ⟨hnull, rfl⟩ | ⟨hpresent, hbs⟩
    · rw [hnull, sameJson_null_left]
      rcases hcs with ⟨hnull', rfl⟩ | ⟨hpresent', hcs⟩
      · exact iff_of_true rfl hnull'
      -- the bytes of a source are not those of none
      · exact iff_of_false (Digest.canonical_ne_nil rfl hw hcs).symm hpresent'
    · rcases hcs with ⟨hnull', rfl⟩ | ⟨-, hcs⟩
      · rw [hnull', sameJson_null_right]
        exact iff_of_false (Digest.canonical_ne_nil rfl hv hbs) hpresent
      · exact Digest.eq_iff_sameJson rfl hv hw hbs hcs
  rw [Prod.mk.injEq, Prod.mk.injEq, hsource]
  constructor
  · rintro ⟨hname, hvalue, hsame⟩
    exact ⟨hname, hvalue, hsame⟩
  · intro h
    exact ⟨h.name, h.value, h.source⟩

theorem name_of_variableOf (hx : variableOf v = .ok x) : x.1 = v.name := by
  obtain ⟨bytes, rfl, -⟩ := exists_bytes_of_variableOf hx
  rfl

theorem isExchangeable_of_variableOf (hv : v.valueFrom.isPlain = true)
    (hx : variableOf v = .ok x) : v.valueFrom.isExchangeable = true := by
  obtain ⟨bytes, -, ⟨hnull, -⟩ | ⟨-, hbytes⟩⟩ := exists_bytes_of_variableOf hx
  · rw [hnull]
    rfl
  · exact Digest.isExchangeable_of_canonical hv hbytes

end Variables

/-! ## Environments -/

/-- Names in order, each once: those with some property. -/
structure ListsNames (names : List String) (P : String → Prop) : Prop where
  ascending : names.Pairwise (· < ·)
  exact : ∀ n, n ∈ names ↔ P n

/-- What the reason says where environments differ: the names of the wanted variables that are not
there and of those there that are not wanted, of which there are some. -/
def EnvDifference (desired actual : List EnvVar) (reason : String) : Prop :=
  ∃ missing unexpected, reason = "env not equal: missing " ++ listed missing ++
      ", unexpected " ++ listed unexpected ∧
    ListsNames missing (fun n => ∃ v ∈ desired, v.name = n ∧ ∀ w ∈ actual, ¬ v.Same w) ∧
    ListsNames unexpected (fun n => ∃ w ∈ actual, w.name = n ∧ ∀ v ∈ desired, ¬ v.Same w) ∧
    ¬ (missing = [] ∧ unexpected = [])

theorem EnvDifference.not_sameEnv {desired actual : List EnvVar} {reason : String}
    (h : EnvDifference desired actual reason) : ¬ SameEnv desired actual := by
  rintro ⟨hthere, hback⟩
  obtain ⟨missing, unexpected, -, hmissing, hunexpected, hsome⟩ := h
  apply hsome
  constructor
  · refine List.eq_nil_iff_forall_not_mem.mpr fun n hn => ?_
    obtain ⟨v, hv, -, hnone⟩ := (hmissing.exact n).mp hn
    obtain ⟨w, hw, hsame⟩ := hthere v hv
    exact hnone w hw hsame
  · refine List.eq_nil_iff_forall_not_mem.mpr fun n hn => ?_
    obtain ⟨w, hw, -, hnone⟩ := (hunexpected.exact n).mp hn
    obtain ⟨v, hv, hsame⟩ := hback w hw
    exact hnone v hv hsame

section Names

variable {there here : List Variable}

theorem mem_missingFrom_iff {x : Variable} : x ∈ missingFrom there here ↔ x ∈ here ∧ x ∉ there := by
  simp [missingFrom]

theorem nodup_eraseDups {α : Type} [BEq α] [LawfulBEq α] (xs : List α) : xs.eraseDups.Nodup := by
  cases xs with
  | nil => exact List.nodup_nil
  | cons x rest =>
    have hlater : x ∉ (rest.filter fun y => !y == x).eraseDups := by
      simp
    rw [List.eraseDups_cons, List.nodup_cons]
    exact ⟨hlater, nodup_eraseDups (rest.filter fun y => !y == x)⟩
termination_by xs.length
decreasing_by exact Nat.lt_succ_of_le (List.length_filter_le _ _)

theorem mem_namesOf_iff {vs : List Variable} {n : String} :
    n ∈ namesOf vs ↔ ∃ x ∈ vs, x.1 = n := by
  rw [namesOf, mem_sortBy, List.mem_eraseDups, List.mem_map]

theorem pairwise_namesOf (vs : List Variable) : (namesOf vs).Pairwise (· < ·) := by
  have hsorted := sortBy_pairwise textLe_isTotalOrder (vs.map (·.1)).eraseDups
  have hnodup : (namesOf vs).Nodup := by
    rw [namesOf, (sortBy_perm _ _).nodup_iff]
    exact nodup_eraseDups _
  refine List.Pairwise.imp_of_mem ?_ (hsorted.and hnodup)
  rintro m n - - ⟨hle, hne⟩
  rw [textLe, decide_eq_true_eq] at hle
  exact Std.lt_of_le_of_ne hle hne

theorem namesOf_congr {vs ws : List Variable} (h : ∀ x, x ∈ vs ↔ x ∈ ws) :
    namesOf vs = namesOf ws := by
  rw [namesOf, namesOf]
  refine sortBy_eq_of_perm textLe_isTotalOrder (fun m _ n _ => textLe_antisymm) ?_
  refine (List.perm_ext_iff_of_nodup (nodup_eraseDups _) (nodup_eraseDups _)).mpr fun n => ?_
  rw [List.mem_eraseDups, List.mem_eraseDups, List.mem_map, List.mem_map]
  exact exists_congr fun x => and_congr_left fun _ => h x

end Names

section Environments

variable {desired actual desired' actual' : List EnvVar} {want held : List Variable} {c : Checked}

/-- Environments can be compared exactly if their sources can be written. -/
theorem exists_variables_iff {env : List EnvVar} (henv : ArePlain env) :
    (∃ xs, env.mapM variableOf = .ok xs) ↔ AreWritable env := by
  constructor
  · rintro ⟨xs, hxs⟩ v hv
    obtain ⟨x, -, hx⟩ := exists_mem_of_mapM_eq_ok hxs v hv
    exact Value.withinLimits_depth_iff.mpr (isExchangeable_of_variableOf (henv v hv) hx)
  · intro hwritable
    exact exists_mapM_variableOf fun v hv => ⟨henv v hv, hwritable v hv⟩

theorem checkEnv_eq (hwant : desired.mapM variableOf = .ok want)
    (hheld : actual.mapM variableOf = .ok held) :
    checkEnv desired actual = .ok
      (if (missingFrom held want).isEmpty && (missingFrom want held).isEmpty then .satisfied
      else .mismatch "env" <| "env not equal: missing " ++
        listed (namesOf (missingFrom held want)) ++
          ", unexpected " ++ listed (namesOf (missingFrom want held))) := by
  rw [checkEnv, hwant, hheld, ok_bind, ok_bind]
  dsimp only
  split
  · rfl
  · rfl

theorem exists_variables_of_checkEnv (h : checkEnv desired actual = .ok c) :
    ∃ want held, desired.mapM variableOf = .ok want ∧ actual.mapM variableOf = .ok held := by
  obtain ⟨want, hwant, h⟩ := bind_eq_ok_iff.mp h
  obtain ⟨held, hheld, -⟩ := bind_eq_ok_iff.mp h
  exact ⟨want, held, hwant, hheld⟩

theorem exists_checkEnv_iff (hd : ArePlain desired) (ha : ArePlain actual) :
    (∃ c, checkEnv desired actual = .ok c) ↔ AreWritable desired ∧ AreWritable actual := by
  rw [← exists_variables_iff hd, ← exists_variables_iff ha]
  constructor
  · rintro ⟨c, hc⟩
    obtain ⟨want, held, hwant, hheld⟩ := exists_variables_of_checkEnv hc
    exact ⟨⟨want, hwant⟩, ⟨held, hheld⟩⟩
  · rintro ⟨⟨want, hwant⟩, ⟨held, hheld⟩⟩
    exact ⟨_, checkEnv_eq hwant hheld⟩

/-- What one environment compares is among what the other compares, variable by variable. -/
theorem mem_variables_iff (hd : ArePlain desired) (ha : ArePlain actual)
    (hheld : actual.mapM variableOf = .ok held) {v : EnvVar} (hv : v ∈ desired) {x : Variable}
    (hx : variableOf v = .ok x) : x ∈ held ↔ ∃ w ∈ actual, v.Same w := by
  constructor
  · intro hmem
    obtain ⟨w, hw, hxw⟩ := exists_of_mapM_eq_ok hheld x hmem
    exact ⟨w, hw, (eq_iff_same (hd v hv) (ha w hw) hx hxw).mp rfl⟩
  · rintro ⟨w, hw, hsame⟩
    obtain ⟨y, hy, hwy⟩ := exists_mem_of_mapM_eq_ok hheld w hw
    rw [(eq_iff_same (hd v hv) (ha w hw) hx hwy).mpr hsame]
    exact hy

theorem missingFrom_eq_nil_iff (hd : ArePlain desired) (ha : ArePlain actual)
    (hwant : desired.mapM variableOf = .ok want) (hheld : actual.mapM variableOf = .ok held) :
    missingFrom held want = [] ↔ ∀ v ∈ desired, ∃ w ∈ actual, v.Same w := by
  rw [List.eq_nil_iff_forall_not_mem]
  constructor
  · intro hnone v hv
    obtain ⟨x, hx, hvx⟩ := exists_mem_of_mapM_eq_ok hwant v hv
    by_contra hlacks
    refine hnone x (mem_missingFrom_iff.mpr ⟨hx, ?_⟩)
    rw [mem_variables_iff hd ha hheld hv hvx]
    exact hlacks
  · intro hall x hx
    obtain ⟨hmem, hnot⟩ := mem_missingFrom_iff.mp hx
    obtain ⟨v, hv, hvx⟩ := exists_of_mapM_eq_ok hwant x hmem
    exact hnot ((mem_variables_iff hd ha hheld hv hvx).mpr (hall v hv))

theorem listsNames_missingFrom (hd : ArePlain desired) (ha : ArePlain actual)
    (hwant : desired.mapM variableOf = .ok want) (hheld : actual.mapM variableOf = .ok held) :
    ListsNames (namesOf (missingFrom held want))
      fun n => ∃ v ∈ desired, v.name = n ∧ ∀ w ∈ actual, ¬ v.Same w := by
  refine ⟨pairwise_namesOf _, fun n => ?_⟩
  rw [mem_namesOf_iff]
  constructor
  · rintro ⟨x, hx, rfl⟩
    obtain ⟨hmem, hnot⟩ := mem_missingFrom_iff.mp hx
    obtain ⟨v, hv, hvx⟩ := exists_of_mapM_eq_ok hwant x hmem
    refine ⟨v, hv, (name_of_variableOf hvx).symm, fun w hw hsame => hnot ?_⟩
    exact (mem_variables_iff hd ha hheld hv hvx).mpr ⟨w, hw, hsame⟩
  · rintro ⟨v, hv, rfl, hnone⟩
    obtain ⟨x, hx, hvx⟩ := exists_mem_of_mapM_eq_ok hwant v hv
    refine ⟨x, mem_missingFrom_iff.mpr ⟨hx, fun hmem => ?_⟩, name_of_variableOf hvx⟩
    obtain ⟨w, hw, hsame⟩ := (mem_variables_iff hd ha hheld hv hvx).mp hmem
    exact hnone w hw hsame

theorem namesOf_eq_nil_iff {vs : List Variable} : namesOf vs = [] ↔ vs = [] := by
  constructor
  · intro h
    refine List.eq_nil_iff_forall_not_mem.mpr fun x hx => ?_
    have hname := mem_namesOf_iff.mpr ⟨x, hx, rfl⟩
    rw [h] at hname
    exact List.not_mem_nil hname
  · rintro rfl
    rfl

/-- **What a check of environments finds.** -/
theorem checkEnv_spec (hd : ArePlain desired) (ha : ArePlain actual)
    (h : checkEnv desired actual = .ok c) :
    c = .satisfied ∧ SameEnv desired actual ∨
      ∃ reason, c = .mismatch "env" reason ∧ EnvDifference desired actual reason := by
  obtain ⟨want, held, hwant, hheld⟩ := exists_variables_of_checkEnv h
  have hflip : ∀ w ∈ actual, ∀ v ∈ desired, w.Same v ↔ v.Same w := by
    intro w hw v hv
    exact ⟨.symm (ha w hw) (hd v hv), .symm (hd v hv) (ha w hw)⟩
  rw [checkEnv_eq hwant hheld] at h
  by_cases hempty : (missingFrom held want).isEmpty && (missingFrom want held).isEmpty
  · rw [if_pos hempty] at h
    cases h
    rw [Bool.and_eq_true, List.isEmpty_iff, List.isEmpty_iff,
      missingFrom_eq_nil_iff hd ha hwant hheld, missingFrom_eq_nil_iff ha hd hheld hwant] at hempty
    obtain ⟨hthere, hback⟩ := hempty
    refine Or.inl ⟨rfl, hthere, fun w hw => ?_⟩
    obtain ⟨v, hv, hsame⟩ := hback w hw
    exact ⟨v, hv, (hflip w hw v hv).mp hsame⟩
  · rw [if_neg hempty] at h
    cases h
    refine Or.inr ⟨_, rfl, _, _, rfl, listsNames_missingFrom hd ha hwant hheld, ?_, ?_⟩
    · obtain ⟨hascending, hexact⟩ := listsNames_missingFrom ha hd hheld hwant
      refine ⟨hascending, fun n => (hexact n).trans ?_⟩
      refine exists_congr fun w => and_congr_right fun hw => and_congr_right fun _ => ?_
      exact forall₂_congr fun v hv => not_congr (hflip w hw v hv)
    · rw [namesOf_eq_nil_iff, namesOf_eq_nil_iff]
      rintro ⟨hmissing, hunexpected⟩
      apply hempty
      rw [hmissing, hunexpected]
      rfl

/-! ### Order and number of variables -/

theorem exists_variables_congr {env env' : List EnvVar} {xs : List Variable}
    (h : ∀ v, v ∈ env' ↔ v ∈ env) (hxs : env.mapM variableOf = .ok xs) :
    ∃ xs', env'.mapM variableOf = .ok xs' ∧ ∀ x, x ∈ xs' ↔ x ∈ xs := by
  have hreturns : Meets (fun xs' => ∀ x ∈ xs', x ∈ xs) (fun _ => False) (env'.mapM variableOf) := by
    refine Meets.mapM fun v hv => ?_
    obtain ⟨x, hx, hvx⟩ := exists_mem_of_mapM_eq_ok hxs v ((h v).mp hv)
    rw [hvx]
    exact .ok hx
  obtain ⟨xs', hxs'⟩ := hreturns.exists_ok
  refine ⟨xs', hxs', fun x => ⟨hreturns.of_ok hxs' x, fun hx => ?_⟩⟩
  obtain ⟨v, hv, hvx⟩ := exists_of_mapM_eq_ok hxs x hx
  obtain ⟨y, hy, hvy⟩ := exists_mem_of_mapM_eq_ok hxs' v ((h v).mpr hv)
  cases hvx.symm.trans hvy
  exact hy

/-- The order of variables and how often they are there are of no account. -/
theorem checkEnv_extends (hd : ∀ v, v ∈ desired' ↔ v ∈ desired)
    (ha : ∀ v, v ∈ actual' ↔ v ∈ actual) :
    Extends (checkEnv desired' actual') (checkEnv desired actual) := by
  intro c h
  obtain ⟨want, held, hwant, hheld⟩ := exists_variables_of_checkEnv h
  obtain ⟨want', hwant', hmem⟩ := exists_variables_congr hd hwant
  obtain ⟨held', hheld', hmem'⟩ := exists_variables_congr ha hheld
  have hmissing : ∀ x, x ∈ missingFrom held' want' ↔ x ∈ missingFrom held want := by
    intro x
    rw [mem_missingFrom_iff, mem_missingFrom_iff, hmem, hmem']
  have hunexpected : ∀ x, x ∈ missingFrom want' held' ↔ x ∈ missingFrom want held := by
    intro x
    rw [mem_missingFrom_iff, mem_missingFrom_iff, hmem, hmem']
  have hempty : ∀ {xs ys : List Variable}, (∀ x, x ∈ xs ↔ x ∈ ys) → xs.isEmpty = ys.isEmpty := by
    intro xs ys hxy
    rw [Bool.eq_iff_iff, List.isEmpty_iff, List.isEmpty_iff, List.eq_nil_iff_forall_not_mem,
      List.eq_nil_iff_forall_not_mem]
    exact forall_congr' fun x => not_congr (hxy x)
  rw [← h, checkEnv_eq hwant hheld, checkEnv_eq hwant' hheld', hempty hmissing, hempty hunexpected,
    namesOf_congr hmissing, namesOf_congr hunexpected]

end Environments

end Gate

end RolloutLedger
