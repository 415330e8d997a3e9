import Mathlib.Data.List.Forall2
import Mathlib.Data.List.Nodup
import Mathlib.Data.List.Perm.Basic
import Mathlib.Data.List.Perm.Subperm
import RolloutLedger.Proofs.Gate.Check
/-! # The gate of pod templates

Containers are matched by name: there have to be as many as are wanted, and each wanted one is
compared with the last one of its name.  No more is checked, yet no container can be there too
much or twice, because as many as there are different wanted names are taken by them.
-/

namespace RolloutLedger.Gate

/-! ## Containers by name -/

section Named

variable {name : String} {c : Container} {cs : List Container}

theorem mem_of_named? (h : named? name cs = some c) : c ∈ cs ∧ c.name = name := by
  unfold named? at h
  have hname := List.find?_some h
  simp only [beq_iff_eq] at hname
  exact ⟨List.mem_reverse.mp (List.mem_of_find?_eq_some h), hname⟩

theorem named?_of_mem (hnames : (cs.map (·.name)).Nodup) (h : c ∈ cs) :
    named? c.name cs = some c := by
  cases hfound : named? c.name cs with
  | none =>
    have hnot := List.find?_eq_none.mp hfound c (List.mem_reverse.mpr h)
    exact absurd (beq_self_eq_true c.name) hnot
  | some d =>
    obtain ⟨hd, hname⟩ := mem_of_named? hfound
    rw [List.inj_on_of_nodup_map hnames hd h hname]

end Named

/-! ## Groups of containers -/

/-- Some reordering of the containers there satisfies the wanted ones place by place. -/
def Matches (desired actual : List Container) : Prop :=
  ∃ cs : List Container, cs.Perm actual ∧
    List.Forall₂ (fun want found => Satisfied (checkContainer want found)) desired cs

section Matches

variable {desired actual : List Container} {group : String}

theorem name_eq_of_checkContainer {want found : Container}
    (h : Satisfied (checkContainer want found)) : want.name = found.name := by
  unfold checkContainer at h
  obtain ⟨hname, -⟩ := satisfied_andThen_iff.mp h
  unfold checkText at hname
  split at hname
  · assumption
  · exact nomatch hname

theorem map_name_of_forall₂ {cs : List Container}
    (h : List.Forall₂ (fun want found => Satisfied (checkContainer want found)) desired cs) :
    desired.map (·.name) = cs.map (·.name) := by
  induction h with
  | nil => rfl
  | cons hd _ ih => rw [List.map_cons, List.map_cons, name_eq_of_checkContainer hd, ih]

theorem satisfied_checkEach_iff (actual : List Container) :
    ∀ desired, Satisfied (checkEach group actual desired) ↔
      ∀ want ∈ desired, ∃ found, named? want.name actual = some found ∧
        Satisfied (checkContainer want found) := by
  intro desired
  induction desired with
  | nil =>
    refine ⟨fun _ want hwant => absurd hwant List.not_mem_nil, fun _ => ?_⟩
    exact satisfied_ok_iff.mpr rfl
  | cons want rest ih =>
    rw [List.forall_mem_cons, ← ih, checkEach]
    cases hfound : named? want.name actual with
    | none =>
      constructor
      · intro h
        exact absurd h (not_satisfied_mismatch _ _)
      · rintro ⟨⟨found, hnone, -⟩, -⟩
        cases hnone
    | some found =>
      have hone : (∃ found', some found = some found' ∧ Satisfied (checkContainer want found')) ↔
          Satisfied (checkContainer want found) := by
        constructor
        · rintro ⟨found', heq, h⟩
          cases heq
          exact h
        · intro h
          exact ⟨found, rfl, h⟩
      rw [hone]
      refine satisfied_bind_iff.trans ?_
      constructor
      · rintro ⟨c, hc, h⟩
        obtain ⟨hverdict, hrest⟩ := satisfied_andThen_iff.mp h
        exact ⟨⟨c, hc, verdict_within_iff.mp hverdict⟩, hrest⟩
      · rintro ⟨⟨c, hc, hverdict⟩, hrest⟩
        exact ⟨c, hc, satisfied_andThen_iff.mpr ⟨verdict_within_iff.mpr hverdict, hrest⟩⟩

theorem satisfied_checkContainers :
    Satisfied (checkContainers group desired actual) ↔ desired.length = actual.length ∧
      ∀ want ∈ desired, ∃ found, named? want.name actual = some found ∧
        Satisfied (checkContainer want found) := by
  unfold checkContainers
  split
  · rename_i hlength
    rw [satisfied_checkEach_iff]
    exact (and_iff_right hlength).symm
  · rename_i hlength
    constructor
    · intro h
      exact absurd h (not_satisfied_mismatch _ _)
    · rintro ⟨h, -⟩
      exact absurd h hlength

theorem exists_of_mem_forall₂ {R : Container → Container → Prop} {cs : List Container}
    {want : Container} (h : List.Forall₂ R desired cs) (hwant : want ∈ desired) :
    ∃ found ∈ cs, R want found := by
  induction h with
  | nil => exact absurd hwant List.not_mem_nil
  | cons hR _ ih =>
    rcases List.mem_cons.mp hwant with rfl | hwant
    · exact ⟨_, List.mem_cons_self, hR⟩
    · obtain ⟨found, hfound, hR'⟩ := ih hwant
      exact ⟨found, List.mem_cons_of_mem _ hfound, hR'⟩

theorem exists_found {R : Container → Container → Prop} :
    ∀ {desired : List Container},
      (∀ want ∈ desired, ∃ found, named? want.name actual = some found ∧ R want found) →
      ∃ cs, cs ⊆ actual ∧ List.Forall₂ R desired cs := by
  intro desired
  induction desired with
  | nil =>
    intro _
    exact ⟨[], List.nil_subset _, .nil⟩
  | cons want rest ih =>
    intro h
    obtain ⟨⟨found, hfound, hR⟩, hrest⟩ := List.forall_mem_cons.mp h
    obtain ⟨cs, hsubset, hcs⟩ := ih hrest
    exact ⟨found :: cs, List.cons_subset.mpr ⟨(mem_of_named? hfound).1, hsubset⟩, .cons hR hcs⟩

/-- **What the gate asks of a group of containers.** -/
theorem satisfied_checkContainers_iff (hnames : (desired.map (·.name)).Nodup) :
    Satisfied (checkContainers group desired actual) ↔ Matches desired actual := by
  rw [satisfied_checkContainers]
  constructor
  · rintro ⟨hlength, hfound⟩
    obtain ⟨cs, hsubset, hcs⟩ := exists_found hfound
    -- different names, so different containers; and there are no more than these
    have hnodup : (cs.map (·.name)).Nodup := by
      rw [← map_name_of_forall₂ hcs]
      exact hnames
    have hsubperm := List.subperm_of_subset (List.Nodup.of_map _ hnodup) hsubset
    have hle := Nat.le_of_eq (hlength.symm.trans hcs.length_eq)
    exact ⟨cs, hsubperm.perm_of_length_le hle, hcs⟩
  · rintro ⟨cs, hperm, hcs⟩
    have hnodup : (actual.map (·.name)).Nodup := by
      rw [← (hperm.map _).nodup_iff, ← map_name_of_forall₂ hcs]
      exact hnames
    refine ⟨hcs.length_eq.trans hperm.length_eq, fun want hwant => ?_⟩
    obtain ⟨found, hfound, hsatisfied⟩ := exists_of_mem_forall₂ hcs hwant
    refine ⟨found, ?_, hsatisfied⟩
    rw [name_eq_of_checkContainer hsatisfied]
    exact named?_of_mem hnodup (hperm.subset hfound)

theorem Matches.names_perm (h : Matches desired actual) :
    (actual.map (·.name)).Perm (desired.map (·.name)) := by
  obtain ⟨cs, hperm, hcs⟩ := h
  rw [map_name_of_forall₂ hcs]
  exact (hperm.map _).symm

theorem Matches.perm {desired' actual' : List Container} (hdesired : desired'.Perm desired)
    (hactual : actual'.Perm actual) (h : Matches desired actual) : Matches desired' actual' := by
  obtain ⟨cs, hperm, hcs⟩ := h
  obtain ⟨cs', hcs', hperm'⟩ := List.perm_comp_forall₂ hdesired hcs
  exact ⟨cs', (hperm'.trans hperm).trans hactual.symm, hcs'⟩

theorem matches_perm_iff {desired' actual' : List Container} (hdesired : desired'.Perm desired)
    (hactual : actual'.Perm actual) : Matches desired' actual' ↔ Matches desired actual := by
  constructor
  · exact Matches.perm hdesired.symm hactual.symm
  · exact Matches.perm hdesired hactual

end Matches

/-! ## Checks that return -/

section Returning

variable {desired actual : List Container}

theorem exists_checkContainer {want found : Container} (hwant : ∀ v ∈ want.env, IsComparable v)
    (hfound : ∀ v ∈ found.env, IsComparable v) : ∃ c, checkContainer want found = .ok c := by
  have hprobes : ∃ c, checkProbes want found = .ok c :=
    exists_andThen (exists_andThen ⟨_, rfl⟩)
  exact exists_andThen (exists_andThen (exists_both (exists_checkEnv hwant hfound) hprobes))

/-- Every variable of some containers has a source that can be compared. -/
def AreComparable (cs : List Container) : Prop := ∀ c ∈ cs, ∀ v ∈ c.env, IsComparable v

theorem exists_checkEach (group : String) (hactual : AreComparable actual) :
    ∀ {desired}, AreComparable desired → ∃ c, checkEach group actual desired = .ok c := by
  intro desired
  induction desired with
  | nil =>
    intro _
    exact ⟨_, rfl⟩
  | cons want rest ih =>
    intro h
    obtain ⟨hwant, hrest⟩ := List.forall_mem_cons.mp h
    rw [checkEach]
    cases hfound : named? want.name actual with
    | none => exact ⟨_, rfl⟩
    | some found =>
      obtain ⟨c, hc⟩ := exists_checkContainer hwant (hactual found (mem_of_named? hfound).1)
      dsimp only
      rw [hc]
      exact exists_andThen (ih hrest)

theorem exists_checkContainers (group : String) (hdesired : AreComparable desired)
    (hactual : AreComparable actual) : ∃ c, checkContainers group desired actual = .ok c := by
  unfold checkContainers
  split
  · exact exists_checkEach group hactual hdesired
  · exact ⟨_, rfl⟩

end Returning

/-! ## Pod templates -/

/-- Two templates with the same labels and annotations, and with the same containers in any
order. -/
structure SameUpToOrder (t t' : PodTemplate) : Prop where
  labels : t'.labels = t.labels
  annotations : t'.annotations = t.annotations
  initContainers : t'.spec.initContainers.Perm t.spec.initContainers
  containers : t'.spec.containers.Perm t.spec.containers

section Templates

variable {desired actual : PodTemplate}

/-- A template is satisfied if its labels, its init containers and its containers are. -/
theorem satisfied_checkTemplate_iff
    (hlabels : Key.areComparable (desired.labels.map (·.1)) = true)
    (hannotations : Key.areComparable (desired.annotations.map (·.1)) = true)
    (hinit : (desired.spec.initContainers.map (·.name)).Nodup)
    (hnames : (desired.spec.containers.map (·.name)).Nodup) :
    Satisfied (checkTemplate desired actual) ↔
      (Covers desired.labels actual.labels ∧ Covers desired.annotations actual.annotations) ∧
        Matches desired.spec.initContainers actual.spec.initContainers ∧
          Matches desired.spec.containers actual.spec.containers := by
  unfold checkTemplate
  rw [satisfied_both_iff, satisfied_both_iff, (checkLabeling_spec hlabels hannotations).2,
    satisfied_checkContainers_iff hinit, satisfied_checkContainers_iff hnames]

/-- **The gate of pod templates is sound and complete.**  If no two wanted containers and no two
wanted init containers share a name, a template satisfies the wanted one exactly if it has every
wanted label and annotation with an equal value, and its init containers and its containers can be
put in an order in which they satisfy the wanted ones place by place.  Then it has the wanted
containers and no other, each once.  The order of containers is of no account on either side.  And
the check does return if the sources of all variables are data without doubles. -/
theorem template_satisfied_iff
    (hlabels : Key.areComparable (desired.labels.map (·.1)) = true)
    (hannotations : Key.areComparable (desired.annotations.map (·.1)) = true)
    (hinit : (desired.spec.initContainers.map (·.name)).Nodup)
    (hnames : (desired.spec.containers.map (·.name)).Nodup) :
    (Satisfied (checkTemplate desired actual) ↔
      (Covers desired.labels actual.labels ∧ Covers desired.annotations actual.annotations) ∧
        Matches desired.spec.initContainers actual.spec.initContainers ∧
          Matches desired.spec.containers actual.spec.containers) ∧
    (Satisfied (checkTemplate desired actual) →
      ((actual.spec.initContainers.map (·.name)).Perm
          (desired.spec.initContainers.map (·.name)) ∧
        (actual.spec.initContainers.map (·.name)).Nodup) ∧
      (actual.spec.containers.map (·.name)).Perm (desired.spec.containers.map (·.name)) ∧
        (actual.spec.containers.map (·.name)).Nodup) ∧
    (∀ desired' actual', SameUpToOrder desired desired' → SameUpToOrder actual actual' →
      (Satisfied (checkTemplate desired' actual') ↔ Satisfied (checkTemplate desired actual))) ∧
    (AreComparable desired.spec.initContainers → AreComparable desired.spec.containers →
      AreComparable actual.spec.initContainers → AreComparable actual.spec.containers →
      ∃ c, checkTemplate desired actual = .ok c) := by
  have hiff := @satisfied_checkTemplate_iff desired actual hlabels hannotations hinit hnames
  refine ⟨hiff, ?_, ?_, ?_⟩
  · intro h
    obtain ⟨-, hinits, hcontainers⟩ := hiff.mp h
    have hinits := hinits.names_perm
    have hcontainers := hcontainers.names_perm
    exact ⟨⟨hinits, hinits.nodup_iff.mpr hinit⟩, hcontainers, hcontainers.nodup_iff.mpr hnames⟩
  · intro desired' actual' hdesired hactual
    have hinit' : (desired'.spec.initContainers.map (·.name)).Nodup :=
      (hdesired.initContainers.map _).nodup_iff.mpr hinit
    have hnames' : (desired'.spec.containers.map (·.name)).Nodup :=
      (hdesired.containers.map _).nodup_iff.mpr hnames
    rw [hiff, satisfied_checkTemplate_iff (by rwa [hdesired.labels])
      (by rwa [hdesired.annotations]) hinit' hnames', hdesired.labels, hdesired.annotations,
      hactual.labels, hactual.annotations]
    have hinits := matches_perm_iff hdesired.initContainers hactual.initContainers
    have hcontainers := matches_perm_iff hdesired.containers hactual.containers
    rw [hinits, hcontainers]
  · intro hinits hcontainers hinits' hcontainers'
    exact exists_both (checkLabeling_spec hlabels hannotations).1
      (exists_both (exists_checkContainers _ hinits hinits')
        (exists_checkContainers _ hcontainers hcontainers'))

end Templates

/-! ### Two containers in either order -/

def plainContainer (name : String) : Container where
  name := name
  image := "image"
  command := []
  args := []
  env := [⟨"KEY", "", .object [Entries.field "configMapKeyRef" (.text "map")]⟩]
  ports := []
  resources := []
  volumeMounts := []
  imagePullPolicy := ""
  startupProbe := none
  livenessProbe := none
  readinessProbe := none
  extra := []

def twoContainers (first second : String) : PodTemplate where
  labels := [Entries.field "app" (.text "a")]
  annotations := []
  spec := ⟨[plainContainer first, plainContainer second], [], [], []⟩

theorem template_satisfied_iff_swapped :
    Key.areComparable ((twoContainers "a" "b").labels.map (·.1)) = true ∧
      ((twoContainers "a" "b").spec.containers.map (·.name)).Nodup ∧
      Satisfied (checkTemplate (twoContainers "a" "b") (twoContainers "b" "a")) ∧
      ∃ c, checkTemplate (twoContainers "a" "b") (twoContainers "b" "a") = .ok c := by
  have hkeys : Key.areComparable ((twoContainers "a" "b").labels.map (·.1)) = true := by decide
  have hnames : ((twoContainers "a" "b").spec.containers.map (·.name)).Nodup := by decide
  obtain ⟨-, -, hperm, hreturns⟩ := @template_satisfied_iff (twoContainers "a" "b")
    (twoContainers "b" "a") hkeys rfl List.nodup_nil hnames
  have hswap : SameUpToOrder (twoContainers "b" "a") (twoContainers "a" "b") :=
    ⟨rfl, rfl, List.Perm.refl _, List.Perm.swap _ _ _⟩
  have hsame : SameUpToOrder (twoContainers "a" "b") (twoContainers "a" "b") :=
    ⟨rfl, rfl, List.Perm.refl _, List.Perm.refl _⟩
  have hself : Satisfied (checkTemplate (twoContainers "a" "b") (twoContainers "a" "b")) := by
    decide +kernel
  have hnone : AreComparable [] := fun c hc => absurd hc List.not_mem_nil
  have hcomparable : ∀ first second,
      AreComparable (twoContainers first second).spec.containers := by
    intro first second c hc v hv
    simp only [twoContainers, List.mem_cons, List.not_mem_nil, or_false] at hc
    rcases hc with rfl | rfl
    all_goals
      rw [List.mem_singleton.mp hv]
      exact ⟨by decide, by decide⟩
  exact ⟨hkeys, hnames, (hperm _ _ hsame hswap).mp hself,
    hreturns hnone (hcomparable _ _) hnone (hcomparable _ _)⟩

end RolloutLedger.Gate
