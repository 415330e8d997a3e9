import RolloutLedger.Proofs.Document.Closure
import RolloutLedger.Proofs.Gate.Container
/-! # A container that was written and read again

A document leaves out the values of a probe that count as unset, and reading puts defaults in their
place.  The gate fills in defaults of its own before it compares, but for four timings only.  So a
container that was written and read again satisfies the one it came from exactly if no other value
of its probes is replaced by a default that is not equal to it.
-/

namespace RolloutLedger

open Entries (field)

/-! ## Plain containers -/

theorem EnvVar.isPlain_of_ofDocument {doc : Value} {v : EnvVar} (h : doc.isPlain = true)
    (hv : ofDocument doc = .ok v) : v.valueFrom.isPlain = true := by
  obtain ⟨_, hname, -⟩ := bind_eq_ok_iff.mp hv
  obtain ⟨es, rfl, -⟩ := Value.exists_object_of_memberOr hname
  rw [ofDocument_object] at hv
  cases hv
  exact Value.isPlain_valueOr h "valueFrom" rfl

theorem Probe.isPlain_of_ofDocument {doc : Value} {p : Probe} (h : doc.isPlain = true)
    (hp : ofDocument doc = .ok p) : p.IsPlain := by
  intro nv hnv
  rcases eq_default_or_mem hp nv hnv with hv | hv | ⟨es, rfl, hv⟩
  · rw [hv]
    rfl
  · rw [hv]
    rfl
  · exact Value.isPlain_of_mem_object h hv

theorem Container.isPlain_of_ofDocument {doc : Value} {c : Container} (h : doc.isPlain = true)
    (hc : ofDocument doc = .ok c) : c.IsPlain := by
  obtain ⟨es, rfl, hreads⟩ := exists_reads_of_ofDocument hc
  have hprobe : ∀ {n o}, (Entries.valueOr es n .null).optional Probe.ofDocument = .ok o →
      ∀ p ∈ o, p.IsPlain := by
    intro n o ho p hp
    cases hp
    exact Probe.isPlain_of_ofDocument (Value.isPlain_valueOr h n rfl) (Value.ok_of_optional ho)
  obtain ⟨docs, hdocs, henv⟩ := hreads.env
  refine ⟨?_, hprobe hreads.startupProbe, hprobe hreads.livenessProbe, hprobe hreads.readinessProbe⟩
  intro v hv
  obtain ⟨d, hd, hread⟩ := exists_of_mapM_eq_ok henv v hv
  exact EnvVar.isPlain_of_ofDocument
    (Value.isPlain_of_itemsOrNone (Value.isPlain_valueOr h "env" rfl) hdocs d hd) hread

/-! ## Written and read again -/

namespace Probe

variable {p : Probe}

def again (p : Probe) : Probe := p.recast .unchanged

/-- No value of a probe is lost that the gate looks at: handlers and grace period are no zeros,
which stand for none in a document, and the initial delay is not null, which stands for zero. -/
structure IsKept (p : Probe) : Prop where
  exec : isUnset p.exec = true → p.exec = .null
  httpGet : isUnset p.httpGet = true → p.httpGet = .null
  tcpSocket : isUnset p.tcpSocket = true → p.tcpSocket = .null
  grpc : isUnset p.grpc = true → p.grpc = .null
  initialDelaySeconds : p.initialDelaySeconds ≠ .null
  terminationGracePeriodSeconds : isUnset p.terminationGracePeriodSeconds = true →
    p.terminationGracePeriodSeconds = .null

section Values

variable {v : Value}

theorem isBlank_of_isUnset (hv : v.isPlain = true) (h : isUnset v = true) : v.isBlank = true := by
  cases v <;>
    simp_all [isUnset, Value.same, Value.alike, Value.scalar?, Value.isBlank, Value.isPlain,
      Value.alikeScalars, Scalar.same]

/-- A value with null as its default is kept unless it is a zero. -/
theorem same_reread_null_iff (hv : v.isPlain = true) :
    Value.same v (Recasting.unchanged.reread .null v) = true ↔
      (isUnset v = true → v = .null) := by
  rw [Recasting.reread]
  by_cases h : isUnset v = true
  · rw [if_pos h, Value.same_null_iff]
    exact ⟨fun hnull _ => hnull, fun hnull => hnull h⟩
  · rw [if_neg h]
    exact iff_of_true (Value.same_refl hv) fun hunset => absurd hunset h

/-- A value with zero as its default is kept unless it is null. -/
theorem same_reread_zero_iff (hv : v.isPlain = true) :
    Value.same v (Recasting.unchanged.reread (.int 0) v) = true ↔ v ≠ .null := by
  rw [Recasting.reread]
  by_cases hnull : v = .null
  · rw [hnull]
    exact iff_of_false Bool.false_ne_true fun h => h rfl
  · by_cases h : isUnset v = true
    · rw [if_pos h]
      rw [isUnset, Bool.or_eq_true, Value.same_null_iff] at h
      exact iff_of_true (h.resolve_left hnull) hnull
    · rw [if_neg h]
      exact iff_of_true (Value.same_refl hv) hnull

/-- A timing that the gate fills in is kept. -/
theorem same_reread_orElse {i : Int} (hv : v.isPlain = true) :
    Value.same (v.orElse (.int i))
      ((Recasting.unchanged.reread (.int 0) v).orElse (.int i)) = true := by
  have hrefl : Value.same (v.orElse (.int i)) (v.orElse (.int i)) = true := by
    rw [Value.orElse]
    split
    · exact Value.same_refl rfl
    · exact Value.same_refl hv
  rw [Recasting.reread]
  by_cases h : isUnset v = true
  · rw [if_pos h, Value.orElse, if_pos (isBlank_of_isUnset hv h)]
    exact Value.same_refl rfl
  · rw [if_neg h]
    exact hrefl

end Values

/-- **What is kept of a probe.** -/
theorem same_again_iff (hp : p.IsPlain) : Same (some p) (some p.again) ↔ p.IsKept := by
  obtain ⟨h1, h2, h3, h4, h5, h6, h7, h8, h9, h10⟩ := isPlain_iff.mp hp
  simp only [Same, again, recast, withDefaults, values, List.forall₂_cons, List.Forall₂.nil,
    same_reread_null_iff h1, same_reread_null_iff h2, same_reread_null_iff h3,
    same_reread_null_iff h4, same_reread_zero_iff h5, same_reread_orElse h6,
    same_reread_orElse h7, same_reread_orElse h8, same_reread_orElse h9,
    same_reread_null_iff h10, true_and, and_true]
  constructor
  · rintro ⟨hexec, hhttpGet, htcpSocket, hgrpc, hdelay, hgrace⟩
    exact ⟨hexec, hhttpGet, htcpSocket, hgrpc, hdelay, hgrace⟩
  · rintro ⟨hexec, hhttpGet, htcpSocket, hgrpc, hdelay, hgrace⟩
    exact ⟨hexec, hhttpGet, htcpSocket, hgrpc, hdelay, hgrace⟩

theorem isPlain_again (hp : p.IsPlain) : p.again.IsPlain := by
  have hreread : ∀ {d v : Value}, d.isPlain = true → v.isPlain = true →
      (Recasting.unchanged.reread d v).isPlain = true := by
    intro d v hd hv
    rw [Recasting.reread]
    split
    · exact hd
    · exact hv
  rw [isPlain_iff] at hp ⊢
  obtain ⟨h1, h2, h3, h4, h5, h6, h7, h8, h9, h10⟩ := hp
  exact ⟨hreread rfl h1, hreread rfl h2, hreread rfl h3, hreread rfl h4, hreread rfl h5,
    hreread rfl h6, hreread rfl h7, hreread rfl h8, hreread rfl h9, hreread rfl h10⟩

theorem same_map_again_iff {p : Option Probe} (hp : ∀ x ∈ p, x.IsPlain) :
    Same p (p.map again) ↔ ∀ x ∈ p, x.IsKept := by
  cases p with
  | none => exact iff_of_true trivial nofun
  | some p =>
    rw [Option.map_some, same_again_iff (hp p rfl)]
    constructor
    · rintro h x ⟨⟩
      exact h
    · intro h
      exact h p rfl

theorem isPlain_of_mem_map_again {p : Option Probe} (hp : ∀ x ∈ p, x.IsPlain) :
    ∀ x ∈ p.map again, x.IsPlain := by
  intro x hx
  obtain ⟨y, hy, rfl⟩ := Option.mem_map.mp hx
  exact isPlain_again (hp y hy)

end Probe

namespace Container

variable {c : Container}

def again (c : Container) : Container := c.recast .unchanged

theorem ofDocument_document (h : c.Keyed) : ofDocument c.document = .ok c.again :=
  ofDocument_recast .unchanged h

/-- No value of a probe is lost that the gate looks at. -/
structure KeepsProbes (c : Container) : Prop where
  startupProbe : ∀ p ∈ c.startupProbe, p.IsKept
  livenessProbe : ∀ p ∈ c.livenessProbe, p.IsKept
  readinessProbe : ∀ p ∈ c.readinessProbe, p.IsKept

theorem env_again (c : Container) : c.again.env = c.env := List.map_id' c.env

theorem isPlain_again (h : c.IsPlain) : c.again.IsPlain where
  env := by
    rw [env_again]
    exact h.env
  startupProbe := Probe.isPlain_of_mem_map_again h.startupProbe
  livenessProbe := Probe.isPlain_of_mem_map_again h.livenessProbe
  readinessProbe := Probe.isPlain_of_mem_map_again h.readinessProbe

theorem same_again_iff (h : c.IsPlain) : c.Same c.again ↔ c.KeepsProbes := by
  constructor
  · intro hsame
    exact ⟨(Probe.same_map_again_iff h.startupProbe).mp hsame.startupProbe,
      (Probe.same_map_again_iff h.livenessProbe).mp hsame.livenessProbe,
      (Probe.same_map_again_iff h.readinessProbe).mp hsame.readinessProbe⟩
  · intro hkept
    refine ⟨rfl, rfl, ?_, (Probe.same_map_again_iff h.startupProbe).mpr hkept.startupProbe,
      (Probe.same_map_again_iff h.livenessProbe).mpr hkept.livenessProbe,
      (Probe.same_map_again_iff h.readinessProbe).mpr hkept.readinessProbe⟩
    rw [env_again]
    exact .refl h.env

end Container

/-! ## The gate after writing and reading -/

namespace Gate

variable {c d a : Container}

/-- Where name, image and variables are the same, it is a probe that is found to differ. -/
theorem probe_of_differs (hd : d.IsPlain) (ha : a.IsPlain) (hname : d.name = a.name)
    (himage : d.image = a.image) (henv : SameEnv d.env a.env) {e : Checked} {field reason : String}
    (he : checkContainer d a = .ok e) (hdiffers : e.verdict = .differs field reason) :
    field ∈ ["startup_probe", "liveness_probe", "readiness_probe"] := by
  have hfails := (decides_checkContainer hd ha).of_ok he
  rw [hdiffers] at hfails
  have hprobes := ((FirstFailing.tail hname hfails).tail himage).tail henv
  exact hprobes.field_mem

/-- **Written and read again.**  A container that was read from a plain document is read from its
own document as well.  What is read then satisfies the container, and the container satisfies it,
exactly if the sources of its variables can be written and no value of a probe is lost that the gate
looks at.  Nothing but a probe can be found to differ. -/
theorem satisfied_again_iff {doc : Value} (hdoc : doc.isPlain = true)
    (hc : Container.ofDocument doc = .ok c) :
    ∃ again, Container.ofDocument c.document = .ok again ∧
      (Satisfied (checkContainer c again) ↔ AreWritable c.env ∧ c.KeepsProbes) ∧
      (Satisfied (checkContainer again c) ↔ AreWritable c.env ∧ c.KeepsProbes) ∧
      ∀ e field reason, checkContainer c again = .ok e ∨ checkContainer again c = .ok e →
        e.verdict = .differs field reason →
        field ∈ ["startup_probe", "liveness_probe", "readiness_probe"] := by
  have hplain := Container.isPlain_of_ofDocument hdoc hc
  have hagain := Container.isPlain_again hplain
  have hwithin := (Value.Within.of_isPlain hdoc).mono (Nat.le_add_right _ 1)
  have henv : SameEnv c.env c.again.env := by
    rw [Container.env_again]
    exact .refl hplain.env
  refine ⟨c.again, Container.ofDocument_document (Container.keyed_of_ofDocument trivial hwithin hc),
    ?_, ?_, ?_⟩
  · rw [satisfied_checkContainer_iff hplain hagain, Container.env_again, and_self,
      Container.same_again_iff hplain]
  · have hsame : c.again.Same c ↔ c.Same c.again := ⟨.symm hagain hplain, .symm hplain hagain⟩
    rw [satisfied_checkContainer_iff hagain hplain, Container.env_again, and_self, hsame,
      Container.same_again_iff hplain]
  · rintro e field reason (he | he) hdiffers
    · exact probe_of_differs hplain hagain rfl rfl henv he hdiffers
    · exact probe_of_differs hagain hplain rfl rfl (henv.symm hplain.env hagain.env) he hdiffers

def probeDocument (members : Entries) : Value :=
  .object [field "name" (.text "a"), field "livenessProbe" (.object members)]

theorem satisfied_again_iff_timings :
    ∃ c again, Container.ofDocument (probeDocument
        [field "httpGet" (.object [field "port" (.int 80)]), field "periodSeconds" .null,
          field "timeoutSeconds" (.bool false)]) = .ok c ∧
      Container.ofDocument c.document = .ok again ∧ Satisfied (checkContainer c again) ∧
      Satisfied (checkContainer again c) := by
  have hread : ∃ c p, Container.ofDocument (probeDocument
        [field "httpGet" (.object [field "port" (.int 80)]), field "periodSeconds" .null,
          field "timeoutSeconds" (.bool false)]) = .ok c ∧ c.env = [] ∧ c.startupProbe = none ∧
      c.livenessProbe = some p ∧ c.readinessProbe = none ∧ p.IsKept :=
    ⟨_, _, rfl, rfl, rfl, rfl, rfl,
      ⟨fun _ => rfl, nofun, fun _ => rfl, fun _ => rfl, nofun, fun _ => rfl⟩⟩
  obtain ⟨c, p, hc, henv, hstartup, hliveness, hreadiness, hkept⟩ := hread
  have hwritable : AreWritable c.env := by
    rw [henv]
    exact nofun
  have hkeeps : c.KeepsProbes := by
    constructor
    · rw [hstartup]
      exact nofun
    · rw [hliveness]
      rintro q ⟨⟩
      exact hkept
    · rw [hreadiness]
      exact nofun
  obtain ⟨again, hagain, hthere, hback, -⟩ := satisfied_again_iff rfl hc
  exact ⟨c, again, hc, hagain, hthere.mpr ⟨hwritable, hkeeps⟩, hback.mpr ⟨hwritable, hkeeps⟩⟩

/-- A grace period of zero is not written, so it is none when it is read again. -/
theorem grace_period_lost :
    (probeDocument [field "terminationGracePeriodSeconds" (.int 0)]).isPlain = true ∧
      ∃ c again, Container.ofDocument
          (probeDocument [field "terminationGracePeriodSeconds" (.int 0)]) = .ok c ∧
        c.document = probeDocument [] ∧ Container.ofDocument c.document = .ok again ∧
        ¬ Satisfied (checkContainer c again) ∧ ¬ Satisfied (checkContainer again c) := by
  refine ⟨rfl, _, _, rfl, rfl, rfl, ?_, ?_⟩
  · decide +kernel
  · decide +kernel

end Gate

end RolloutLedger
