import RolloutLedger.Proofs.Gate.Template
/-! # What the gate reports

A difference that a check finds is counted once, under the field that differs, and logged once, with
this field and the reason.  A check that finds nothing leaves nothing behind.

Checks are made of others, and a container is named in a reason only after the difference was
logged: the record holds the reason without the container in front of it.
-/

namespace RolloutLedger.Gate

open Entries (field)

/-! ## Reports -/

structure IsMismatchRecord (name reason : String) (r : LogRecord) : Prop where
  level : r.level = .debug
  event : r.event = .text "update_gate_mismatch"
  field : Entries.get? (.text "field") r.fields = some (.text name)
  reason : Entries.get? (.text "reason") r.fields = some (.text reason)

/-- A journal that tells of one difference and of nothing else: one counter is raised, by one, and
there is one record, which every log takes that takes its level. -/
structure ReportsOnce (name reason : String) (j : Journal) : Prop where
  counted : j.increments = [(.mismatches name, 1)]
  logged : ∃ r, IsMismatchRecord name reason r ∧
    ∀ threshold, j.records threshold = if Level.debug.reaches threshold then [r] else []
  called : j.calls = []

/-- A check left behind what belongs to its verdict; `reads` says how the field and the reason of a
difference go together with the reason that was logged. -/
structure Reported (reads : String → String → String → Prop) (c : Checked) : Prop where
  silent : c.verdict = .satisfied → c.journal = []
  once : ∀ name reason, c.verdict = .differs name reason →
    ∃ logged, reads name reason logged ∧ ReportsOnce name logged c.journal

def Reports (reads : String → String → String → Prop) : Except Error Checked → Prop :=
  Meets (Reported reads) fun _ => True

/-- A difference in one of some fields, logged with the reason that is given. -/
def AsGiven (names : List String) (name reason logged : String) : Prop :=
  name ∈ names ∧ reason = logged

def containerFields : List String :=
  ["name", "image", "env", "startup_probe", "liveness_probe", "readiness_probe"]

/-- A difference in one of some containers, which the reason names in front of what was logged. -/
def InContainer (wanted : List Container) (name reason logged : String) : Prop :=
  name ∈ containerFields ∧
    ∃ want ∈ wanted, reason = "container " ++ Text.quoted want.name ++ ": " ++ logged

section Reports

variable {reads reads' : String → String → String → Prop} {c : Checked}
  {x y : Except Error Checked}

theorem reportsOnce_mismatch (name reason : String) :
    ReportsOnce name reason (Checked.mismatch name reason).journal where
  counted := by
    simp [Checked.mismatch, Journal.increments, Journal.counters, Journal.count,
      List.eraseDups_cons]
  logged := by
    refine ⟨(Logger.ofComponent "reconciler.equality").record .debug "update_gate_mismatch"
      [field "field" (.text name), field "reason" (.text reason)], ⟨rfl, rfl, rfl, rfl⟩, ?_⟩
    intro threshold
    rw [Checked.mismatch, Journal.records]
    by_cases h : Level.debug.reaches threshold = true
    · simp [Logger.record, Logger.recordOf, h]
    · simp [Logger.record, Logger.recordOf, h]
  called := rfl

theorem reported_satisfied : Reported reads .satisfied where
  silent _ := rfl
  once _ _ h := nomatch h

theorem reported_mismatch {name reason : String} (h : reads name reason reason) :
    Reported reads (.mismatch name reason) where
  silent h := nomatch h
  once name' reason' hdiffers := by
    cases hdiffers
    exact ⟨reason, h, reportsOnce_mismatch name reason⟩

theorem Reported.mono (h : Reported reads c)
    (hreads : ∀ name reason logged, reads name reason logged → reads' name reason logged) :
    Reported reads' c where
  silent := h.silent
  once name reason hdiffers := by
    obtain ⟨logged, hlogged, hreports⟩ := h.once name reason hdiffers
    exact ⟨logged, hreads _ _ _ hlogged, hreports⟩

theorem Reports.mono (h : Reports reads x)
    (hreads : ∀ name reason logged, reads name reason logged → reads' name reason logged) :
    Reports reads' x :=
  Meets.mono h (fun _ hc => hc.mono hreads) fun _ he => he

/-- Of two checks in a row, only the one that finds a difference has something to report. -/
theorem Reports.andThen (hc : Reported reads c) (hx : Reports reads x) :
    Reports reads (c.andThen x) := by
  unfold Checked.andThen
  cases hverdict : c.verdict with
  | satisfied =>
    refine Meets.map hx fun d hd => ?_
    rw [hc.silent hverdict, List.nil_append]
    exact hd
  | differs name reason => exact .ok hc

theorem Reports.both (hx : Reports reads x) (hy : Reports reads y) :
    Reports reads (x >>= fun c => c.andThen y) :=
  Meets.bind hx fun _ hc => Reports.andThen hc hy

end Reports

/-! ## Labels and annotations -/

theorem reports_checkMembers (name what : String) (desired actual : Value) :
    Reports (AsGiven [name]) (checkMembers name what desired actual) := by
  unfold checkMembers
  refine Meets.bind (Meets.any _) fun members _ => ?_
  split
  · refine Meets.bind (Meets.any _) fun lacking _ => ?_
    split
    · exact .ok (reported_mismatch ⟨List.mem_singleton_self name, rfl⟩)
    · exact .ok reported_satisfied
  · exact .error trivial

theorem reports_checkLabeling (desired actual : Labeling) :
    Reports (AsGiven ["labels", "annotations"]) (checkLabeling desired actual) := by
  refine Reports.both ?_ ?_
  · refine (reports_checkMembers _ _ _ _).mono ?_
    rintro name reason logged ⟨hname, hlogged⟩
    exact ⟨List.mem_cons.mpr (Or.inl (List.mem_singleton.mp hname)), hlogged⟩
  · refine (reports_checkMembers _ _ _ _).mono ?_
    rintro name reason logged ⟨hname, hlogged⟩
    exact ⟨List.mem_cons_of_mem _ hname, hlogged⟩

/-! ## Containers -/

section Containers

variable {names : List String} {name : String}

theorem reported_checkText (hname : name ∈ names) (reason desired actual : String) :
    Reported (AsGiven names) (checkText name reason desired actual) := by
  unfold checkText
  split
  · exact reported_satisfied
  · exact reported_mismatch ⟨hname, rfl⟩

theorem reported_checkProbe (hname : name ∈ names) (reason : String)
    (desired actual : Option Probe) :
    Reported (AsGiven names) (checkProbe name reason desired actual) := by
  unfold checkProbe
  split
  · exact reported_satisfied
  · exact reported_mismatch ⟨hname, rfl⟩

theorem reports_checkEnv (hname : "env" ∈ names) (desired actual : List EnvVar) :
    Reports (AsGiven names) (checkEnv desired actual) := by
  unfold checkEnv
  refine Meets.bind (Meets.any _) fun want _ => ?_
  refine Meets.bind (Meets.any _) fun held _ => ?_
  dsimp only
  split
  · exact .ok reported_satisfied
  · exact .ok (reported_mismatch ⟨hname, rfl⟩)

theorem reports_checkContainer (desired actual : Container) :
    Reports (AsGiven containerFields) (checkContainer desired actual) := by
  have hprobes : Reports (AsGiven containerFields) (checkProbes desired actual) := by
    refine Reports.andThen (reported_checkProbe (by decide) _ _ _) ?_
    refine Reports.andThen (reported_checkProbe (by decide) _ _ _) ?_
    exact .ok (reported_checkProbe (by decide) _ _ _)
  refine Reports.andThen (reported_checkText (by decide) _ _ _) ?_
  refine Reports.andThen (reported_checkText (by decide) _ _ _) ?_
  exact Reports.both (reports_checkEnv (by decide) _ _) hprobes

end Containers

/-! ## Pod templates -/

section Templates

variable {group : String}

/-- Naming the container changes the reason of a verdict, and nothing that was left behind. -/
theorem Reported.within {c : Checked} {want : Container}
    (h : Reported (AsGiven containerFields) c) :
    Reported (InContainer [want]) (c.within ("container " ++ Text.quoted want.name)) where
  silent hsatisfied := h.silent (verdict_within_iff.mp hsatisfied)
  once name reason hdiffers := by
    unfold Checked.within at hdiffers ⊢
    cases hverdict : c.verdict with
    | satisfied =>
      rw [hverdict] at hdiffers
      exact nomatch hdiffers
    | differs name' reason' =>
      rw [hverdict] at hdiffers
      cases hdiffers
      obtain ⟨logged, ⟨hname, rfl⟩, hreports⟩ := h.once _ _ hverdict
      exact ⟨reason', ⟨hname, want, List.mem_singleton_self want, rfl⟩, hreports⟩

/-- A difference between groups of containers: in the group, or in one of the wanted ones. -/
def InGroup (group : String) (wanted : List Container) (name reason logged : String) : Prop :=
  AsGiven [group] name reason logged ∨ InContainer wanted name reason logged

theorem InContainer.mono {wanted wanted' : List Container} {name reason logged : String}
    (hsubset : wanted ⊆ wanted') (h : InContainer wanted name reason logged) :
    InContainer wanted' name reason logged := by
  obtain ⟨hname, want, hwant, hreason⟩ := h
  exact ⟨hname, want, hsubset hwant, hreason⟩

theorem reports_checkEach (actual : List Container) :
    ∀ desired, Reports (InGroup group desired) (checkEach group actual desired) := by
  intro desired
  induction desired with
  | nil => exact .ok reported_satisfied
  | cons want rest ih =>
    unfold checkEach
    split
    · exact .ok (reported_mismatch (Or.inl ⟨List.mem_singleton_self group, rfl⟩))
    · refine Meets.bind (reports_checkContainer want _) fun c hc => ?_
      refine Reports.andThen (hc.within.mono ?_) (ih.mono ?_)
      · intro name reason logged h
        exact Or.inr (h.mono (List.cons_subset_cons want (List.nil_subset rest)))
      · intro name reason logged h
        exact h.imp_right (InContainer.mono (List.subset_cons_self want rest))

theorem reports_checkContainers (desired actual : List Container) :
    Reports (InGroup group desired) (checkContainers group desired actual) := by
  unfold checkContainers
  split
  · exact reports_checkEach actual desired
  · exact .ok (reported_mismatch (Or.inl ⟨List.mem_singleton_self group, rfl⟩))

/-- A difference between pod templates: in one of their own fields, or in a wanted container. -/
def InTemplate (desired : PodTemplate) (name reason logged : String) : Prop :=
  AsGiven ["labels", "annotations", "initContainers", "containers"] name reason logged ∨
    InContainer (desired.spec.initContainers ++ desired.spec.containers) name reason logged

theorem reports_checkTemplate (desired actual : PodTemplate) :
    Reports (InTemplate desired) (checkTemplate desired actual) := by
  refine Reports.both ?_ (Reports.both ?_ ?_)
  · refine (reports_checkLabeling _ _).mono ?_
    rintro name reason logged ⟨hname, hlogged⟩
    refine Or.inl ⟨?_, hlogged⟩
    exact List.mem_append_left ["initContainers", "containers"] hname
  · refine (reports_checkContainers _ _).mono ?_
    rintro name reason logged (⟨hname, hlogged⟩ | h)
    · rw [List.mem_singleton.mp hname]
      exact Or.inl ⟨by decide, hlogged⟩
    · exact Or.inr (h.mono (List.subset_append_left _ _))
  · refine (reports_checkContainers _ _).mono ?_
    rintro name reason logged (⟨hname, hlogged⟩ | h)
    · rw [List.mem_singleton.mp hname]
      exact Or.inl ⟨by decide, hlogged⟩
    · exact Or.inr (h.mono (List.subset_append_right _ _))

end Templates

/-! ## Every difference once -/

/-- **Differences are reported once.**  Whatever labels and annotations, containers or templates are
checked: if nothing differs, nothing is counted, logged or called.  If something differs, one
counter is raised, by one, which is that of the field of the verdict, and one record is written,
with the field and the reason of the verdict; only where the reason of a template names a container
in front, the record does without it. -/
theorem differences_reported :
    (∀ desired actual c, checkLabeling desired actual = .ok c →
      Reported (AsGiven ["labels", "annotations"]) c) ∧
    (∀ desired actual c, checkContainer desired actual = .ok c →
      Reported (AsGiven containerFields) c) ∧
    ∀ desired actual c, checkTemplate desired actual = .ok c → Reported (InTemplate desired) c := by
  refine ⟨?_, ?_, ?_⟩
  · intro desired actual c h
    exact (reports_checkLabeling desired actual).of_ok h
  · intro desired actual c h
    exact (reports_checkContainer desired actual).of_ok h
  · intro desired actual c h
    exact (reports_checkTemplate desired actual).of_ok h

def oneContainer (c : Container) : PodTemplate where
  labels := []
  annotations := []
  spec := ⟨[c], [], [], []⟩

/-- The image of a container differs; the record does not name the container. -/
theorem differences_reported_image :
    ∃ c, checkTemplate (oneContainer (plainContainer "a"))
        (oneContainer { plainContainer "a" with image := "other" }) = .ok c ∧
      c.verdict = .differs "image" "container 'a': container image not equal" ∧
      ReportsOnce "image" "container image not equal" c.journal := by
  have hdiffers : ∃ c, checkTemplate (oneContainer (plainContainer "a"))
      (oneContainer { plainContainer "a" with image := "other" }) = .ok c ∧
        c.verdict = .differs "image" "container 'a': container image not equal" :=
    ⟨_, rfl, by decide +kernel⟩
  obtain ⟨c, hc, hverdict⟩ := hdiffers
  obtain ⟨-, -, htemplate⟩ := differences_reported
  obtain ⟨logged, hreads, hreports⟩ := (htemplate _ _ c hc).once _ _ hverdict
  rcases hreads with ⟨hname, -⟩ | ⟨-, want, hwant, hreason⟩
  · exact absurd hname (by decide)
  · obtain rfl : want = plainContainer "a" := List.mem_singleton.mp hwant
    have hpart : "container " ++ Text.quoted (plainContainer "a").name ++ ": " =
        "container 'a': " := by decide +kernel
    have hwhole : "container 'a': " ++ "container image not equal" =
        "container 'a': " ++ logged := by
      rw [← hpart, ← hreason]
      decide +kernel
    obtain rfl := (String.append_right_inj _).mp hwhole
    exact ⟨c, hc, hverdict, hreports⟩

end RolloutLedger.Gate
