import RolloutLedger.Proofs.Gate.Environment
/-! # The gate of containers

Two containers are compared in six respects, one after the other, and the first in which they
differ is reported.  A container that differs in none satisfies the wanted one.  That is an
equivalence; it does not depend on whether the defaults of probes were filled in before, nor on the
order of variables or on how often one is there.
-/

namespace RolloutLedger

open Entries (field)

/-! ## Probes -/

namespace Probe

def IsPlain (p : Probe) : Prop := ∀ nv ∈ p.values, nv.2.isPlain = true

/-- Two probes are both absent, or each value of one is equal to that of the other once the defaults
are filled in. -/
def Same : Option Probe → Option Probe → Prop
  | none, none => True
  | some p, some q =>
    List.Forall₂ (fun x y => Value.same x.2 y.2 = true) p.withDefaults.values q.withDefaults.values
  | _, _ => False

variable {p q : Probe}

theorem isPlain_iff : p.IsPlain ↔ p.exec.isPlain = true ∧ p.httpGet.isPlain = true ∧
    p.tcpSocket.isPlain = true ∧ p.grpc.isPlain = true ∧ p.initialDelaySeconds.isPlain = true ∧
    p.timeoutSeconds.isPlain = true ∧ p.periodSeconds.isPlain = true ∧
    p.successThreshold.isPlain = true ∧ p.failureThreshold.isPlain = true ∧
    p.terminationGracePeriodSeconds.isPlain = true := by
  simp [IsPlain, values]

theorem agrees_iff : p.agrees q = true ↔ Same (some p) (some q) := by
  rw [agrees, alike, List.all_eq_true, Same, List.forall₂_iff_zip]
  constructor
  · intro h
    exact ⟨rfl, fun hxy => h _ hxy⟩
  · rintro ⟨-, h⟩ ⟨x, y⟩ hxy
    exact h hxy

theorem agrees?_iff {p q : Option Probe} : agrees? p q = true ↔ Same p q := by
  cases p with
  | none =>
    cases q with
    | none => exact iff_of_true rfl trivial
    | some q => exact iff_of_false Bool.false_ne_true id
  | some p =>
    cases q with
    | none => exact iff_of_false Bool.false_ne_true id
    | some q => exact agrees_iff

theorem orElse_orElse {v d : Value} (hd : d.isBlank = false) :
    (v.orElse d).orElse d = v.orElse d := by
  rw [Value.orElse, Value.orElse]
  by_cases hv : v.isBlank = true
  · rw [if_pos hv, hd, if_neg Bool.false_ne_true]
  · rw [if_neg hv, if_neg hv]

theorem withDefaults_withDefaults (p : Probe) : p.withDefaults.withDefaults = p.withDefaults := by
  simp only [withDefaults, orElse_orElse (show (Value.int 1).isBlank = false from rfl),
    orElse_orElse (show (Value.int 10).isBlank = false from rfl),
    orElse_orElse (show (Value.int 3).isBlank = false from rfl)]

theorem agrees?_withDefaults (p q : Option Probe) :
    agrees? (p.map withDefaults) (q.map withDefaults) = agrees? p q := by
  cases p with
  | none => cases q <;> rfl
  | some p =>
    cases q with
    | none => rfl
    | some q =>
      show alike false p.withDefaults.withDefaults q.withDefaults.withDefaults = _
      rw [withDefaults_withDefaults, withDefaults_withDefaults]
      rfl

theorem isPlain_withDefaults (hp : p.IsPlain) : p.withDefaults.IsPlain := by
  have horElse : ∀ (v : Value) (i : Int), v.isPlain = true →
      (v.orElse (.int i)).isPlain = true := by
    intro v i hv
    rw [Value.orElse]
    split
    · rfl
    · exact hv
  rw [isPlain_iff] at hp ⊢
  obtain ⟨h1, h2, h3, h4, h5, h6, h7, h8, h9, h10⟩ := hp
  exact ⟨h1, h2, h3, h4, h5, horElse _ _ h6, horElse _ _ h7, horElse _ _ h8, horElse _ _ h9, h10⟩

/-- The values of a probe in the form in which equal ones are one. -/
def normal (p : Probe) : List Value := p.withDefaults.values.map fun nv => nv.2.counted.ordered

theorem forall₂_same_iff {xs ys : List (String × Value)} (hxs : ∀ x ∈ xs, x.2.isPlain = true)
    (hys : ∀ y ∈ ys, y.2.isPlain = true) :
    List.Forall₂ (fun x y => Value.same x.2 y.2 = true) xs ys ↔
      xs.map (fun x => x.2.counted.ordered) = ys.map fun y => y.2.counted.ordered := by
  induction xs generalizing ys with
  | nil => cases ys <;> simp
  | cons x xs ih =>
    cases ys with
    | nil => simp
    | cons y ys =>
      obtain ⟨hx, hxs⟩ := List.forall_mem_cons.mp hxs
      obtain ⟨hy, hys⟩ := List.forall_mem_cons.mp hys
      rw [List.forall₂_cons, List.map_cons, List.map_cons, List.cons.injEq,
        Value.same_iff_ordered_eq hx hy, ih hxs hys]

theorem same_iff {p q : Option Probe} (hp : ∀ x ∈ p, x.IsPlain) (hq : ∀ x ∈ q, x.IsPlain) :
    Same p q ↔ p.map normal = q.map normal := by
  cases p with
  | none =>
    cases q with
    | none => exact iff_of_true trivial rfl
    | some q => exact iff_of_false id nofun
  | some p =>
    cases q with
    | none => exact iff_of_false id nofun
    | some q =>
      rw [Same,
        forall₂_same_iff (isPlain_withDefaults (hp p rfl)) (isPlain_withDefaults (hq q rfl)),
        Option.map_some, Option.map_some, Option.some.injEq, normal, normal]

section Same

variable {p q r : Option Probe}

theorem Same.refl (hp : ∀ x ∈ p, x.IsPlain) : Same p p := (same_iff hp hp).mpr rfl

theorem Same.symm (hp : ∀ x ∈ p, x.IsPlain) (hq : ∀ x ∈ q, x.IsPlain) (h : Same p q) : Same q p :=
  (same_iff hq hp).mpr ((same_iff hp hq).mp h).symm

theorem Same.trans (hp : ∀ x ∈ p, x.IsPlain) (hq : ∀ x ∈ q, x.IsPlain) (hr : ∀ x ∈ r, x.IsPlain)
    (hpq : Same p q) (hqr : Same q r) : Same p r :=
  (same_iff hp hr).mpr (((same_iff hp hq).mp hpq).trans ((same_iff hq hr).mp hqr))

end Same

end Probe

/-! ## Containers -/

namespace Container

/-- What is compared of a container is data without doubles. -/
structure IsPlain (c : Container) : Prop where
  env : Gate.ArePlain c.env
  startupProbe : ∀ p ∈ c.startupProbe, p.IsPlain
  livenessProbe : ∀ p ∈ c.livenessProbe, p.IsPlain
  readinessProbe : ∀ p ∈ c.readinessProbe, p.IsPlain

/-- Two containers with the same name and image, the same variables, and the same probes. -/
structure Same (desired actual : Container) : Prop where
  name : desired.name = actual.name
  image : desired.image = actual.image
  env : Gate.SameEnv desired.env actual.env
  startupProbe : Probe.Same desired.startupProbe actual.startupProbe
  livenessProbe : Probe.Same desired.livenessProbe actual.livenessProbe
  readinessProbe : Probe.Same desired.readinessProbe actual.readinessProbe

variable {d a b : Container}

theorem Same.refl (hd : d.IsPlain) : d.Same d where
  name := rfl
  image := rfl
  env := .refl hd.env
  startupProbe := .refl hd.startupProbe
  livenessProbe := .refl hd.livenessProbe
  readinessProbe := .refl hd.readinessProbe

theorem Same.symm (hd : d.IsPlain) (ha : a.IsPlain) (h : d.Same a) : a.Same d where
  name := h.name.symm
  image := h.image.symm
  env := h.env.symm hd.env ha.env
  startupProbe := h.startupProbe.symm hd.startupProbe ha.startupProbe
  livenessProbe := h.livenessProbe.symm hd.livenessProbe ha.livenessProbe
  readinessProbe := h.readinessProbe.symm hd.readinessProbe ha.readinessProbe

theorem Same.trans (hd : d.IsPlain) (ha : a.IsPlain) (hb : b.IsPlain) (hda : d.Same a)
    (hab : a.Same b) : d.Same b where
  name := hda.name.trans hab.name
  image := hda.image.trans hab.image
  env := hda.env.trans hd.env ha.env hb.env hab.env
  startupProbe :=
    hda.startupProbe.trans hd.startupProbe ha.startupProbe hb.startupProbe hab.startupProbe
  livenessProbe :=
    hda.livenessProbe.trans hd.livenessProbe ha.livenessProbe hb.livenessProbe hab.livenessProbe
  readinessProbe :=
    hda.readinessProbe.trans hd.readinessProbe ha.readinessProbe hb.readinessProbe
      hab.readinessProbe

/-- A container with some probes as they are or with their defaults filled in, and with the same
variables in any order and number. -/
structure IsVariant (c c' : Container) : Prop where
  name : c'.name = c.name
  image : c'.image = c.image
  env : ∀ v, v ∈ c'.env ↔ v ∈ c.env
  startupProbe : c'.startupProbe = c.startupProbe ∨
    c'.startupProbe = c.startupProbe.map Probe.withDefaults
  livenessProbe : c'.livenessProbe = c.livenessProbe ∨
    c'.livenessProbe = c.livenessProbe.map Probe.withDefaults
  readinessProbe : c'.readinessProbe = c.readinessProbe ∨
    c'.readinessProbe = c.readinessProbe.map Probe.withDefaults

end Container

namespace Gate

/-! ## Checks in a row -/

structure Aspect where
  field : String
  /-- Whether the objects do not differ in it. -/
  holds : Prop
  /-- What the reason says if they do. -/
  reads : String → Prop

/-- A field and a reason belong to the first of some aspects in which objects differ. -/
inductive FirstFailing : List Aspect → String → String → Prop
  | here {x : Aspect} {rest : List Aspect} {reason : String} (hfails : ¬ x.holds)
    (hreads : x.reads reason) : FirstFailing (x :: rest) x.field reason
  | later {x : Aspect} {rest : List Aspect} {field reason : String} (hholds : x.holds)
    (h : FirstFailing rest field reason) : FirstFailing (x :: rest) field reason

namespace FirstFailing

variable {xs ys : List Aspect} {field reason : String}

theorem append_left (h : FirstFailing xs field reason) (ys : List Aspect) :
    FirstFailing (xs ++ ys) field reason := by
  induction h with
  | here hfails hreads => exact .here hfails hreads
  | later hholds _ ih => exact .later hholds ih

theorem append_right (hxs : ∀ x ∈ xs, x.holds) (h : FirstFailing ys field reason) :
    FirstFailing (xs ++ ys) field reason := by
  induction xs with
  | nil => exact h
  | cons x xs ih =>
    obtain ⟨hx, hxs⟩ := List.forall_mem_cons.mp hxs
    exact .later hx (ih hxs)

theorem not_all (h : FirstFailing xs field reason) : ¬ ∀ x ∈ xs, x.holds := by
  induction h with
  | here hfails _ =>
    intro hall
    exact hfails (hall _ List.mem_cons_self)
  | later _ _ ih =>
    intro hall
    exact ih fun x hx => hall x (List.mem_cons_of_mem _ hx)

theorem tail {x : Aspect} (hx : x.holds) (h : FirstFailing (x :: xs) field reason) :
    FirstFailing xs field reason := by
  cases h with
  | here hfails _ => exact absurd hx hfails
  | later _ hrest => exact hrest

theorem field_mem (h : FirstFailing xs field reason) : field ∈ xs.map Aspect.field := by
  induction h with
  | here _ _ => exact List.mem_cons_self
  | later _ _ ih => exact List.mem_cons_of_mem _ ih

end FirstFailing

/-- A verdict tells whether objects differ in some respects, and which is the first. -/
def Verdict.Decides (xs : List Aspect) : Verdict → Prop
  | .satisfied => ∀ x ∈ xs, x.holds
  | .differs field reason => FirstFailing xs field reason

/-- A check whose verdict tells about some respects, if it returns. -/
def Decides (xs : List Aspect) : Except Error Checked → Prop :=
  Meets (fun c => c.verdict.Decides xs) fun _ => True

section Decides

variable {xs ys : List Aspect} {c : Checked} {x y : Except Error Checked}

/-- One check after another tells about the respects of both. -/
theorem Decides.andThen (hc : c.verdict.Decides xs) (hy : Decides ys y) :
    Decides (xs ++ ys) (c.andThen y) := by
  unfold Checked.andThen
  cases hverdict : c.verdict with
  | satisfied =>
    rw [hverdict] at hc
    refine Meets.map hy fun d hd => ?_
    cases hnext : d.verdict with
    | satisfied =>
      rw [hnext] at hd
      intro z hz
      exact (List.mem_append.mp hz).elim (hc z) (hd z)
    | differs field reason =>
      rw [hnext] at hd
      exact FirstFailing.append_right hc hd
  | differs field reason =>
    rw [hverdict] at hc
    refine .ok ?_
    rw [hverdict]
    exact hc.append_left ys

theorem Decides.both (hx : Decides xs x) (hy : Decides ys y) :
    Decides (xs ++ ys) (x >>= fun c => c.andThen y) :=
  Meets.bind hx fun _ hc => Decides.andThen hc hy

theorem decides_one {name : String} {P : Prop} {reads : String → Prop}
    (h : c = .satisfied ∧ P ∨ ∃ reason, c = .mismatch name reason ∧ ¬ P ∧ reads reason) :
    c.verdict.Decides [⟨name, P, reads⟩] := by
  rcases h with ⟨rfl, hP⟩ | ⟨reason, rfl, hP, hreads⟩
  · intro x hx
    rw [List.mem_singleton.mp hx]
    exact hP
  · exact FirstFailing.here hP hreads

theorem decides_checkText (name reason desired actual : String) :
    (checkText name reason desired actual).verdict.Decides
      [⟨name, desired = actual, (· = reason)⟩] := by
  apply decides_one
  rw [checkText]
  by_cases h : desired = actual
  · rw [if_pos h]
    exact Or.inl ⟨rfl, h⟩
  · rw [if_neg h]
    exact Or.inr ⟨_, rfl, h, rfl⟩

theorem decides_checkProbe (name reason : String) (desired actual : Option Probe) :
    (checkProbe name reason desired actual).verdict.Decides
      [⟨name, Probe.Same desired actual, (· = reason)⟩] := by
  apply decides_one
  rw [checkProbe]
  by_cases h : Probe.agrees? desired actual = true
  · rw [if_pos h]
    exact Or.inl ⟨rfl, Probe.agrees?_iff.mp h⟩
  · rw [if_neg h]
    exact Or.inr ⟨_, rfl, fun hsame => h (Probe.agrees?_iff.mpr hsame), rfl⟩

theorem decides_checkEnv {desired actual : List EnvVar} (hd : ArePlain desired)
    (ha : ArePlain actual) :
    Decides [⟨"env", SameEnv desired actual, EnvDifference desired actual⟩]
      (checkEnv desired actual) := by
  cases hcheck : checkEnv desired actual with
  | error e => exact .error trivial
  | ok c =>
    refine .ok (decides_one ?_)
    rcases checkEnv_spec hd ha hcheck with hsatisfied | ⟨reason, hdiffers, hdifference⟩
    · exact Or.inl hsatisfied
    · exact Or.inr ⟨reason, hdiffers, hdifference.not_sameEnv, hdifference⟩

end Decides

/-! ## Containers -/

section Containers

variable {d a d' a' : Container} {c : Checked}

def aspects (desired actual : Container) : List Aspect :=
  [⟨"name", desired.name = actual.name, (· = "container name not equal")⟩,
    ⟨"image", desired.image = actual.image, (· = "container image not equal")⟩,
    ⟨"env", SameEnv desired.env actual.env, EnvDifference desired.env actual.env⟩,
    ⟨"startup_probe", Probe.Same desired.startupProbe actual.startupProbe,
      (· = "container startup probe not equal")⟩,
    ⟨"liveness_probe", Probe.Same desired.livenessProbe actual.livenessProbe,
      (· = "container liveness probe not equal")⟩,
    ⟨"readiness_probe", Probe.Same desired.readinessProbe actual.readinessProbe,
      (· = "container readiness probe not equal")⟩]

theorem same_iff_aspects : d.Same a ↔ ∀ x ∈ aspects d a, x.holds := by
  simp only [aspects, List.forall_mem_cons, List.not_mem_nil, false_implies, implies_true, and_true]
  constructor
  · rintro ⟨hname, himage, henv, hstartup, hliveness, hreadiness⟩
    exact ⟨hname, himage, henv, hstartup, hliveness, hreadiness⟩
  · rintro ⟨hname, himage, henv, hstartup, hliveness, hreadiness⟩
    exact ⟨hname, himage, henv, hstartup, hliveness, hreadiness⟩

/-- **What a check of containers finds.** -/
theorem decides_checkContainer (hd : d.IsPlain) (ha : a.IsPlain) :
    Decides (aspects d a) (checkContainer d a) := by
  have hprobes : Decides ((aspects d a).drop 3) (checkProbes d a) :=
    Decides.andThen (decides_checkProbe _ _ _ _) <|
      Decides.andThen (decides_checkProbe _ _ _ _) (.ok (decides_checkProbe _ _ _ _))
  exact Decides.andThen (decides_checkText _ _ _ _) <|
    Decides.andThen (decides_checkText _ _ _ _) <|
      Decides.both (decides_checkEnv hd.env ha.env) hprobes

/-! ### Whether there is a verdict -/

theorem exists_andThen_iff {x : Except Error Checked} :
    (∃ e, c.andThen x = .ok e) ↔ (c.verdict = .satisfied → ∃ e, x = .ok e) := by
  unfold Checked.andThen
  cases hverdict : c.verdict with
  | satisfied =>
    constructor
    · rintro ⟨e, he⟩ -
      obtain ⟨y, hy, -⟩ := map_eq_ok_iff.mp he
      exact ⟨y, hy⟩
    · intro h
      obtain ⟨y, rfl⟩ := h rfl
      exact ⟨_, rfl⟩
  | differs field reason => exact iff_of_true ⟨c, rfl⟩ nofun

theorem verdict_checkText_iff {name reason desired actual : String} :
    (checkText name reason desired actual).verdict = .satisfied ↔ desired = actual := by
  rw [checkText]
  by_cases h : desired = actual
  · rw [if_pos h]
    exact iff_of_true rfl h
  · rw [if_neg h]
    exact iff_of_false nofun h

/-- Sources that cannot be written matter only where they are compared. -/
theorem exists_checkContainer_iff (hd : d.IsPlain) (ha : a.IsPlain) :
    (∃ c, checkContainer d a = .ok c) ↔
      (d.name = a.name → d.image = a.image → AreWritable d.env ∧ AreWritable a.env) := by
  have henv : (∃ e, (checkEnv d.env a.env >>= fun c => c.andThen (checkProbes d a)) = .ok e) ↔
      AreWritable d.env ∧ AreWritable a.env := by
    rw [← exists_checkEnv_iff hd.env ha.env]
    constructor
    · rintro ⟨e, he⟩
      obtain ⟨c, hc, -⟩ := bind_eq_ok_iff.mp he
      exact ⟨c, hc⟩
    · intro hc
      exact exists_both hc (exists_andThen (exists_andThen ⟨_, rfl⟩))
  rw [checkContainer, exists_andThen_iff, exists_andThen_iff, verdict_checkText_iff,
    verdict_checkText_iff]
  exact imp_congr_right fun _ => imp_congr_right fun _ => henv

/-- A container satisfies the wanted one if it does not differ from it. -/
theorem verdict_eq_satisfied_iff (hd : d.IsPlain) (ha : a.IsPlain)
    (hc : checkContainer d a = .ok c) : c.verdict = .satisfied ↔ d.Same a := by
  have hdecides := (decides_checkContainer hd ha).of_ok hc
  rw [same_iff_aspects]
  cases hverdict : c.verdict with
  | satisfied =>
    rw [hverdict] at hdecides
    exact iff_of_true rfl hdecides
  | differs field reason =>
    rw [hverdict] at hdecides
    exact iff_of_false nofun (FirstFailing.not_all hdecides)

theorem satisfied_checkContainer_iff (hd : d.IsPlain) (ha : a.IsPlain) :
    Satisfied (checkContainer d a) ↔ (AreWritable d.env ∧ AreWritable a.env) ∧ d.Same a := by
  constructor
  · rintro ⟨c, hc, hverdict⟩
    have hsame := (verdict_eq_satisfied_iff hd ha hc).mp hverdict
    exact ⟨(exists_checkContainer_iff hd ha).mp ⟨c, hc⟩ hsame.name hsame.image, hsame⟩
  · rintro ⟨hwritable, hsame⟩
    obtain ⟨c, hc⟩ := (exists_checkContainer_iff hd ha).mpr fun _ _ => hwritable
    exact ⟨c, hc, (verdict_eq_satisfied_iff hd ha hc).mpr hsame⟩

/-! ### Variants -/

theorem andThen_congr {x y : Except Error Checked} (h : ∀ e, x = .ok e ↔ y = .ok e)
    (e : Checked) : c.andThen x = .ok e ↔ c.andThen y = .ok e := by
  unfold Checked.andThen
  cases c.verdict with
  | satisfied => simp only [map_eq_ok_iff, h]
  | differs field reason => rfl

theorem map_withDefaults_of_variant {p p' : Option Probe}
    (h : p' = p ∨ p' = p.map Probe.withDefaults) :
    p'.map Probe.withDefaults = p.map Probe.withDefaults := by
  rcases h with rfl | rfl
  · rfl
  · rw [Option.map_map]
    exact congrArg (p.map ·) (funext Probe.withDefaults_withDefaults)

theorem checkProbe_variant {p p' q q' : Option Probe} (name reason : String)
    (hp : p' = p ∨ p' = p.map Probe.withDefaults) (hq : q' = q ∨ q' = q.map Probe.withDefaults) :
    checkProbe name reason p' q' = checkProbe name reason p q := by
  rw [checkProbe, checkProbe, ← Probe.agrees?_withDefaults p', map_withDefaults_of_variant hp,
    map_withDefaults_of_variant hq, Probe.agrees?_withDefaults]

/-- A variant of a container is checked as the container is. -/
theorem checkContainer_variant (hd : d.IsVariant d') (ha : a.IsVariant a') (c : Checked) :
    checkContainer d' a' = .ok c ↔ checkContainer d a = .ok c := by
  have henv : ∀ e, checkEnv d'.env a'.env = .ok e ↔ checkEnv d.env a.env = .ok e := by
    intro e
    constructor
    · exact checkEnv_extends (fun v => (hd.env v).symm) (fun v => (ha.env v).symm) e
    · exact checkEnv_extends hd.env ha.env e
  have hprobes : checkProbes d' a' = checkProbes d a := by
    rw [checkProbes, checkProbes, checkProbe_variant _ _ hd.startupProbe ha.startupProbe,
      checkProbe_variant _ _ hd.livenessProbe ha.livenessProbe,
      checkProbe_variant _ _ hd.readinessProbe ha.readinessProbe]
  rw [checkContainer, checkContainer, hd.name, hd.image, ha.name, ha.image, hprobes]
  refine andThen_congr (andThen_congr fun e => ?_) c
  simp only [bind_eq_ok_iff, henv]

/-- **The gate of containers.**  Let what is compared of two containers be data without doubles.
There is a verdict, unless an integer with too many digits is met among the sources of variables.
It is that nothing differs exactly if names, images, sets of variables and probes are the same;
otherwise it names the first field that is not, with what the reason has to say.  Satisfying is an
equivalence.  And whatever comes out stays the same for every variant of either container. -/
theorem checkContainer_spec (hd : d.IsPlain) (ha : a.IsPlain) :
    ((∃ c, checkContainer d a = .ok c) ↔
      (d.name = a.name → d.image = a.image → AreWritable d.env ∧ AreWritable a.env)) ∧
    (∀ c, checkContainer d a = .ok c →
      (c.verdict = .satisfied ↔ d.Same a) ∧
      ∀ field reason, c.verdict = .differs field reason →
        FirstFailing (aspects d a) field reason) ∧
    ((AreWritable d.env → Satisfied (checkContainer d d)) ∧
      (Satisfied (checkContainer d a) → Satisfied (checkContainer a d)) ∧
      ∀ b : Container, b.IsPlain → Satisfied (checkContainer d a) →
        Satisfied (checkContainer a b) → Satisfied (checkContainer d b)) ∧
    ∀ d' a', d.IsVariant d' → a.IsVariant a' →
      ∀ c, checkContainer d' a' = .ok c ↔ checkContainer d a = .ok c := by
  refine ⟨exists_checkContainer_iff hd ha, ?_, ⟨?_, ?_, ?_⟩, ?_⟩
  · intro c hc
    refine ⟨verdict_eq_satisfied_iff hd ha hc, fun field reason hdiffers => ?_⟩
    have hdecides := (decides_checkContainer hd ha).of_ok hc
    rw [hdiffers] at hdecides
    exact hdecides
  · intro hwritable
    exact (satisfied_checkContainer_iff hd hd).mpr ⟨⟨hwritable, hwritable⟩, .refl hd⟩
  · intro h
    obtain ⟨⟨hwritable, hwritable'⟩, hsame⟩ := (satisfied_checkContainer_iff hd ha).mp h
    exact (satisfied_checkContainer_iff ha hd).mpr ⟨⟨hwritable', hwritable⟩, hsame.symm hd ha⟩
  · intro b hb h h'
    obtain ⟨⟨hwritable, -⟩, hsame⟩ := (satisfied_checkContainer_iff hd ha).mp h
    obtain ⟨⟨-, hwritable'⟩, hsame'⟩ := (satisfied_checkContainer_iff ha hb).mp h'
    exact (satisfied_checkContainer_iff hd hb).mpr
      ⟨⟨hwritable, hwritable'⟩, hsame.trans hd ha hb hsame'⟩
  · intro d' a' hvariant hvariant'
    exact checkContainer_variant hvariant hvariant'

end Containers

/-! ### A container with its defaults filled in -/

/-- A probe that leaves its timings to the defaults. -/
def unsetProbe : Probe where
  exec := .null
  httpGet := .object [field "path" (.text "/"), field "port" (.int 80)]
  tcpSocket := .null
  grpc := .null
  initialDelaySeconds := .int 0
  timeoutSeconds := .int 0
  periodSeconds := .null
  successThreshold := .bool false
  failureThreshold := .int 5
  terminationGracePeriodSeconds := .null

def probedContainer (env : List EnvVar) (probe : Probe) : Container where
  name := "main"
  image := "image"
  command := []
  args := []
  env := env
  ports := []
  resources := []
  volumeMounts := []
  imagePullPolicy := ""
  startupProbe := none
  livenessProbe := some probe
  readinessProbe := none
  extra := []

def givenVariable : EnvVar := ⟨"A", "1", .null⟩

def referredVariable : EnvVar := ⟨"B", "", .object [field "fieldRef" (.text "name")]⟩

theorem checkContainer_spec_probed :
    Satisfied (checkContainer (probedContainer [givenVariable, referredVariable] unsetProbe)
        (probedContainer [referredVariable, givenVariable, referredVariable]
          unsetProbe.withDefaults)) ∧
      ∃ c, checkContainer (probedContainer [givenVariable, referredVariable] unsetProbe)
          (probedContainer [referredVariable] unsetProbe) = .ok c ∧
        c.verdict = .differs "env" "env not equal: missing ['A'], unexpected []" ∧
        FirstFailing (aspects (probedContainer [givenVariable, referredVariable] unsetProbe)
          (probedContainer [referredVariable] unsetProbe)) "env"
          "env not equal: missing ['A'], unexpected []" := by
  have hplain : ∀ env, ArePlain env → (probedContainer env unsetProbe).IsPlain := by
    intro env henv
    refine ⟨henv, nofun, ?_, nofun⟩
    rintro p ⟨⟩
    exact (by decide : ∀ nv ∈ unsetProbe.values, nv.2.isPlain = true)
  have hboth : ArePlain [givenVariable, referredVariable] :=
    (by decide : ∀ v ∈ [givenVariable, referredVariable], v.valueFrom.isPlain = true)
  have hone : ArePlain [referredVariable] :=
    (by decide : ∀ v ∈ [referredVariable], v.valueFrom.isPlain = true)
  constructor
  · obtain ⟨-, -, ⟨hrefl, -, -⟩, hvariants⟩ := checkContainer_spec (hplain _ hboth) (hplain _ hboth)
    obtain ⟨c, hc, hverdict⟩ :=
      hrefl (by decide : ∀ v ∈ [givenVariable, referredVariable],
        v.valueFrom.WithinLimits v.valueFrom.depth)
    have hvariant : (probedContainer [givenVariable, referredVariable] unsetProbe).IsVariant
        (probedContainer [referredVariable, givenVariable, referredVariable]
          unsetProbe.withDefaults) := by
      refine ⟨rfl, rfl, fun v => ?_, Or.inl rfl, Or.inr rfl, Or.inl rfl⟩
      show v ∈ [referredVariable, givenVariable, referredVariable] ↔
        v ∈ [givenVariable, referredVariable]
      simp only [List.mem_cons, List.not_mem_nil, or_false]
      tauto
    exact ⟨c, (hvariants _ _ ⟨rfl, rfl, fun _ => Iff.rfl, Or.inl rfl, Or.inl rfl, Or.inl rfl⟩
      hvariant c).mpr hc, hverdict⟩
  · obtain ⟨-, hverdicts, -, -⟩ := checkContainer_spec (hplain _ hboth) (hplain _ hone)
    have hdiffers : ∃ c, checkContainer
        (probedContainer [givenVariable, referredVariable] unsetProbe)
        (probedContainer [referredVariable] unsetProbe) = .ok c ∧
          c.verdict = .differs "env" "env not equal: missing ['A'], unexpected []" :=
      ⟨_, rfl, by decide +kernel⟩
    obtain ⟨c, hc, hverdict⟩ := hdiffers
    exact ⟨c, hc, hverdict, (hverdicts c hc).2 _ _ hverdict⟩

end Gate

end RolloutLedger
