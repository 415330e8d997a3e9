import RolloutLedger.Proofs.Document.Group
import RolloutLedger.Proofs.Document.Within
/-! # What is read stays within its terms

What is read from a document within some terms is written as a document within the same terms, and
no deeper than the one that was read.  Terms that ask for keys apart ask it of labels, annotations
and resources as well, since these may be given by pairs.
-/

namespace RolloutLedger

open Entries (field fieldIf optionalField valueOr keysApart)
open Value (Within)

variable {t : Terms} {room : Nat}

theorem Value.Within.documents {α : Type} {document : α → Value} {xs : List α}
    (h : ∀ x ∈ xs, (document x).Within t room) :
    (Value.list (xs.map document)).Within t (room + 1) := by
  refine .list fun d hd => ?_
  obtain ⟨x, hx, rfl⟩ := List.mem_map.mp hd
  exact h x hx

/-! ## Containers -/

theorem EnvVar.within_document {doc : Value} {v : EnvVar} (h : doc.Within t (room + 1))
    (hv : ofDocument doc = .ok v) : v.document.Within t (room + 1) := by
  obtain ⟨_, hname, -⟩ := bind_eq_ok_iff.mp hv
  obtain ⟨es, rfl, -⟩ := Value.exists_object_of_memberOr hname
  rw [ofDocument_object] at hv
  cases hv
  refine .object (.of_keysApart (keysApart_members _)) ?_
  simp only [List.forall_mem_append, List.forall_mem_singleton]
  exact ⟨⟨.text _, Entries.forall_mem_fieldIf (.text _)⟩,
    Entries.forall_mem_fieldIf (h.valueOr "valueFrom" .null)⟩

theorem Probe.within_document {doc : Value} {p : Probe} (h : doc.Within t (room + 1))
    (hp : ofDocument doc = .ok p) : p.document.Within t (room + 1) := by
  rw [document_eq]
  refine .object (.of_keysApart (keysApart_members _)) fun q hq => ?_
  obtain ⟨nv, hnv, hq⟩ := List.mem_flatMap.mp hq
  refine Entries.forall_mem_fieldIf ?_ q hq
  rcases eq_default_or_mem hp nv hnv with hv | hv | ⟨es, rfl, hv⟩
  · rw [hv]
    exact .null
  · rw [hv]
    exact .zero
  · exact (Within.object_iff.mp h).2 _ hv

theorem Container.within_document {doc : Value} {c : Container} (h : doc.Within t (room + 3))
    (hc : ofDocument doc = .ok c) (hkeys : t.apart → c.hasTextKeys = true) :
    c.document.Within t (room + 3) := by
  obtain ⟨es, rfl, hreads⟩ := exists_reads_of_ofDocument hc
  have hvalue : ∀ n, (valueOr es n .null).Within t (room + 2) := fun n => h.valueOr n .null
  have hitems : ∀ {b : Bool} {n : String} {items : List Value},
      (valueOr es n .null).itemsOrNone = .ok items →
        ∀ q ∈ fieldIf b n (.list items), q.2.Within t (room + 2) := fun hread =>
    Entries.forall_mem_fieldIf (.list ((hvalue _).of_itemsOrNone hread))
  have hprobe : ∀ {n : String} {o : Option Probe},
      (valueOr es n .null).optional Probe.ofDocument = .ok o →
        ∀ q ∈ optionalField n (o.map Probe.document), q.2.Within t (room + 2) := by
    intro n o ho
    refine Entries.forall_mem_optionalField fun v hv => ?_
    obtain ⟨p, rfl, rfl⟩ := Option.map_eq_some_iff.mp hv
    exact Probe.within_document (hvalue n) (Value.ok_of_optional ho)
  have henv : (Value.list (c.env.map (·.document))).Within t (room + 2) := by
    obtain ⟨docs, hdocs, henv⟩ := hreads.env
    refine Within.documents fun v hv => ?_
    obtain ⟨d, hd, hread⟩ := exists_of_mapM_eq_ok henv v hv
    exact EnvVar.within_document ((hvalue "env").of_itemsOrNone hdocs d hd) hread
  have hextra : (Value.object c.extra).Within t (room + 3) := by
    rw [← hreads.extra]
    exact h.without memberNames
  obtain ⟨hextraKeys, hextraValues⟩ := Within.object_iff.mp hextra
  rw [document_eq]
  refine .object (hextraKeys.append c.hasNames_known (by decide)
    (Entries.apart_of_without hreads.extra)) ?_
  simp only [known, List.forall_mem_append, List.forall_mem_singleton]
  refine ⟨hextraValues, ⟨⟨⟨⟨⟨⟨⟨⟨⟨⟨⟨?_, ?_⟩, hitems hreads.command⟩, hitems hreads.args⟩, ?_⟩,
    hitems hreads.ports⟩, ?_⟩, hitems hreads.volumeMounts⟩, ?_⟩, hprobe hreads.startupProbe⟩,
    hprobe hreads.livenessProbe⟩, hprobe hreads.readinessProbe⟩⟩
  · exact .text _
  · exact Entries.forall_mem_fieldIf (.text _)
  · exact Entries.forall_mem_fieldIf henv
  · exact Entries.forall_mem_fieldIf ((hvalue "resources").of_entriesOrNone hreads.resources hkeys)
  · exact Entries.forall_mem_fieldIf (.text _)

/-! ## Pods and templates -/

theorem PodSpec.within_document {doc : Value} {s : PodSpec} (h : doc.Within t (room + 5))
    (hs : ofDocument doc = .ok s) (hkeys : t.apart → s.hasTextKeys = true) :
    s.document.Within t (room + 5) := by
  obtain ⟨es, hdoc, hreads⟩ := exists_reads_of_ofDocument hs
  have hes := h.orEmpty
  rw [hdoc] at hes
  have hvalue : ∀ n, (valueOr es n .null).Within t (room + 4) := fun n => hes.valueOr n .null
  have hcontainers : ∀ {n : String} {docs : List Value} {cs : List Container},
      (valueOr es n .null).itemsOrNone = .ok docs → docs.mapM Container.ofDocument = .ok cs →
        (t.apart → cs.all Container.hasTextKeys = true) →
          (Value.list (cs.map (·.document))).Within t (room + 4) := by
    intro n docs cs hdocs hcs hall
    refine Within.documents fun c hc => ?_
    obtain ⟨d, hd, hread⟩ := exists_of_mapM_eq_ok hcs c hc
    exact Container.within_document ((hvalue n).of_itemsOrNone hdocs d hd) hread
      fun hapart => List.all_eq_true.mp (hall hapart) c hc
  obtain ⟨docs, hdocs, hread⟩ := hreads.containers
  obtain ⟨docs', hdocs', hread'⟩ := hreads.initContainers
  have hextra : (Value.object s.extra).Within t (room + 5) := by
    rw [← hreads.extra]
    exact hes.without memberNames
  obtain ⟨hextraKeys, hextraValues⟩ := Within.object_iff.mp hextra
  rw [document_eq]
  refine .object (hextraKeys.append s.hasNames_known (by decide)
    (Entries.apart_of_without hreads.extra)) ?_
  simp only [known, List.forall_mem_append, List.forall_mem_singleton]
  refine ⟨hextraValues, ⟨?_, ?_⟩, ?_⟩
  · exact hcontainers hdocs hread fun hapart => ((Bool.and_eq_true _ _).mp (hkeys hapart)).1
  · exact Entries.forall_mem_fieldIf
      (hcontainers hdocs' hread' fun hapart => ((Bool.and_eq_true _ _).mp (hkeys hapart)).2)
  · exact Entries.forall_mem_fieldIf
      (.list ((hvalue "volumes").of_itemsOrNone hreads.volumes))

theorem PodTemplate.within_document {doc : Value} {x : PodTemplate}
    (h : doc.Within t (room + 6)) (hx : ofDocument doc = .ok x)
    (hkeys : t.apart → x.hasTextKeys = true) : x.document.Within t (room + 6) := by
  obtain ⟨es, ms, hdoc, hmetadata, hlabels, hannotations, hspec⟩ := exists_of_ofDocument hx
  have hes := h.orEmpty
  rw [hdoc] at hes
  have hms : (Value.object ms).Within t (room + 5) := by
    rw [← hmetadata]
    exact (hes.valueOr "metadata" .null).orEmpty
  simp only [hasTextKeys, Bool.and_eq_true] at hkeys
  have hmetadata : (Value.object x.metadataMembers).Within t (room + 5) := by
    refine .object (.of_keysApart x.keysApart_metadataMembers) ?_
    simp only [metadataMembers, List.forall_mem_append]
    exact ⟨Entries.forall_mem_fieldIf
        ((hms.valueOr "labels" .null).of_entriesOrNone hlabels fun hapart => (hkeys hapart).1.1),
      Entries.forall_mem_fieldIf ((hms.valueOr "annotations" .null).of_entriesOrNone hannotations
        fun hapart => (hkeys hapart).1.2)⟩
  refine .object (.of_keysApart x.keysApart_members) ?_
  simp only [List.forall_mem_cons, List.not_mem_nil, false_implies, implies_true, and_true]
  exact ⟨hmetadata, PodSpec.within_document (hes.valueOr "spec" .null) hspec
    fun hapart => (hkeys hapart).2⟩

/-! ## Roles and policies -/

theorem Workload.within_document (w : Workload) : w.document.Within t (room + 1) :=
  .of_fits w.fits_document

theorem Role.within_document {doc : Value} {r : Role} (h : doc.Within t (room + 7))
    (hr : ofDocument doc = .ok r) (hkeys : t.apart → r.hasTextKeys = true) :
    r.document.Within t (room + 7) := by
  obtain ⟨es, rfl, hreads⟩ := exists_reads_of_ofDocument hr
  have hvalue : ∀ n, (valueOr es n .null).Within t (room + 6) := fun n => h.valueOr n .null
  have hreplicas : t.integer r.replicas := by
    obtain ⟨o, ho, hreplicas⟩ := hreads.replicas
    rw [← hreplicas]
    cases o with
    | none => exact t.short (by decide +kernel)
    | some i => exact (hvalue "replicas").of_toInteger (Value.ok_of_optional ho)
  refine .object (.of_keysApart r.keysApart_members) ?_
  simp only [List.forall_mem_append, List.forall_mem_cons, List.not_mem_nil, false_implies,
    implies_true, and_true]
  refine ⟨⟨⟨⟨.text _, .int hreplicas, r.workload.within_document, ?_⟩, ?_⟩, ?_⟩, ?_⟩
  · exact PodTemplate.within_document (hvalue "template") hreads.template hkeys
  · exact Entries.forall_mem_fieldIf
      (.list ((hvalue "dependencies").of_itemsOrNone hreads.dependencies))
  · exact Entries.forall_mem_fieldIf (.text _)
  · rw [← hreads.leaderWorkerSet]
    exact Entries.forall_mem_fieldIf (hvalue "leaderWorkerSet")

theorem GangPolicy.within_document {doc : Value} {p : GangPolicy} (h : doc.Within t (room + 2))
    (hp : ofDocument doc = .ok p) : p.document.Within t (room + 2) := by
  obtain ⟨es, rfl, hread⟩ := exists_object_of_ofDocument hp
  have hkube : ∀ timeout, p.kubeTimeout = some timeout → timeout.Within t room := by
    intro timeout htimeout
    rw [htimeout] at hread
    have hread := Value.ok_of_optional hread
    obtain ⟨fs, hfs, hvalue⟩ := Value.exists_object_of_memberOr hread
    have hdoc := h.valueOr "kubeScheduling" .null
    rw [hfs] at hdoc
    rw [← hvalue]
    exact hdoc.valueOr "scheduleTimeoutSeconds" .null
  rw [document_eq]
  refine .object (.of_keysApart p.keysApart_members) ?_
  simp only [members, List.forall_mem_append]
  constructor
  · refine Entries.forall_mem_optionalField fun d hd => ?_
    obtain ⟨timeout, htimeout, rfl⟩ := Option.map_eq_some_iff.mp hd
    exact .object (.of_keysApart (keysApart_timeout timeout))
      (Entries.forall_mem_fieldIf (hkube timeout htimeout))
  · refine Entries.forall_mem_optionalField fun d hd => ?_
    obtain ⟨v, -, rfl⟩ := Option.map_eq_some_iff.mp hd
    refine .object (.of_keysApart v.keysApart_members) ?_
    simp only [List.forall_mem_append]
    exact ⟨Entries.forall_mem_fieldIf (.text _), Entries.forall_mem_fieldIf (.text _)⟩

/-! ## Declarations -/

namespace GroupSpec

variable {doc : Value} {s : GroupSpec}

/-- The documents of the roles, of the policy, and the history limit. -/
theorem within_parts (h : doc.Within t (room + 9)) (hs : ofDocument doc = .ok s)
    (hkeys : t.apart → s.hasTextKeys = true) :
    (Value.list s.roleDocuments).Within t (room + 8) ∧
      (GangPolicy.documentOrNull s.policy).Within t (room + 8) ∧
        ∀ n, s.historyLimit = some n → t.integer n := by
  obtain ⟨es, hdoc, hreads⟩ := exists_reads_of_ofDocument hs
  have hes := h.orEmpty
  rw [hdoc] at hes
  have hvalue : ∀ n, (valueOr es n .null).Within t (room + 8) := fun n => hes.valueOr n .null
  refine ⟨?_, ?_, ?_⟩
  · obtain ⟨docs, hdocs, hroles⟩ := hreads.roles
    refine Within.documents fun r hr => ?_
    obtain ⟨d, hd, hread⟩ := exists_of_mapM_eq_ok hroles r hr
    exact Role.within_document ((hvalue "roles").of_itemsOrNone hdocs d hd) hread
      fun hapart => List.all_eq_true.mp (hkeys hapart) r hr
  · have hpolicy := hreads.policy
    cases hp : s.policy with
    | none => exact .null
    | some p =>
      rw [hp] at hpolicy
      exact GangPolicy.within_document (hvalue "podGroupPolicy") (Value.ok_of_optional hpolicy)
  · intro n hn
    have hlimit := hreads.historyLimit
    rw [hn] at hlimit
    exact (hvalue "revisionHistoryLimit").of_toInteger (Value.ok_of_optional hlimit)

theorem within_document_of_parts (hroles : (Value.list s.roleDocuments).Within t (room + 8))
    (hpolicy : (GangPolicy.documentOrNull s.policy).Within t (room + 8))
    (hlimit : ∀ n, s.historyLimit = some n → t.integer n) : s.document.Within t (room + 9) := by
  rw [document_eq]
  refine .object (.of_keysApart s.keysApart_members) ?_
  simp only [members, List.forall_mem_append, List.forall_mem_singleton]
  refine ⟨⟨hroles, ?_⟩, ?_⟩
  · refine Entries.forall_mem_optionalField fun d hd => ?_
    obtain ⟨p, hp, rfl⟩ := Option.map_eq_some_iff.mp hd
    rw [hp] at hpolicy
    exact hpolicy
  · refine Entries.forall_mem_optionalField fun d hd => ?_
    obtain ⟨n, hn, rfl⟩ := Option.map_eq_some_iff.mp hd
    exact .int (hlimit n hn)

end GroupSpec

/-! ## Extra members -/

theorem Container.keyed_of_ofDocument {doc : Value} {c : Container} (hapart : t.apart)
    (h : doc.Within t (room + 1)) (hc : ofDocument doc = .ok c) : c.Keyed := by
  obtain ⟨es, rfl, hreads⟩ := exists_reads_of_ofDocument hc
  constructor
  · rw [← hreads.extra]
    exact (Within.object_iff.mp (h.without memberNames)).1.apart hapart
  · exact Entries.apart_of_without hreads.extra

theorem PodSpec.keyed_of_ofDocument {doc : Value} {s : PodSpec} (hapart : t.apart)
    (h : doc.Within t (room + 3)) (hs : ofDocument doc = .ok s) : s.Keyed := by
  obtain ⟨es, hdoc, hreads⟩ := exists_reads_of_ofDocument hs
  have hes := h.orEmpty
  rw [hdoc] at hes
  have hcontainers : ∀ {n : String} {docs : List Value} {cs : List Container},
      (valueOr es n .null).itemsOrNone = .ok docs → docs.mapM Container.ofDocument = .ok cs →
        ∀ c ∈ cs, c.Keyed := by
    intro n docs cs hdocs hcs c hc
    obtain ⟨d, hd, hread⟩ := exists_of_mapM_eq_ok hcs c hc
    exact Container.keyed_of_ofDocument hapart
      ((hes.valueOr n .null).of_itemsOrNone hdocs d hd) hread
  obtain ⟨docs, hdocs, hread⟩ := hreads.containers
  obtain ⟨docs', hdocs', hread'⟩ := hreads.initContainers
  constructor
  · exact hcontainers hdocs hread
  · exact hcontainers hdocs' hread'
  · rw [← hreads.extra]
    exact (Within.object_iff.mp (hes.without memberNames)).1.apart hapart
  · exact Entries.apart_of_without hreads.extra

theorem Role.keyed_of_ofDocument {doc : Value} {r : Role} (hapart : t.apart)
    (h : doc.Within t (room + 5)) (hr : ofDocument doc = .ok r) : r.Keyed := by
  obtain ⟨es, rfl, hreads⟩ := exists_reads_of_ofDocument hr
  obtain ⟨fs, -, hfs, -, -, -, hspec⟩ := PodTemplate.exists_of_ofDocument hreads.template
  have hdoc := (h.valueOr "template" .null).orEmpty
  rw [hfs] at hdoc
  exact PodSpec.keyed_of_ofDocument hapart (hdoc.valueOr "spec" .null) hspec

theorem GroupSpec.keyed_of_ofDocument {doc : Value} {s : GroupSpec} (hapart : t.apart)
    (h : doc.Within t (room + 7)) (hs : ofDocument doc = .ok s) : s.Keyed := by
  obtain ⟨es, hdoc, hreads⟩ := exists_reads_of_ofDocument hs
  have hes := h.orEmpty
  rw [hdoc] at hes
  obtain ⟨docs, hdocs, hroles⟩ := hreads.roles
  intro r hr
  obtain ⟨d, hd, hread⟩ := exists_of_mapM_eq_ok hroles r hr
  exact Role.keyed_of_ofDocument hapart
    ((hes.valueOr "roles" .null).of_itemsOrNone hdocs d hd) hread

/-! ## Groups -/

namespace Group

variable {g : Group}

theorem keyed_of_ofDocument {doc : Value} (hapart : t.apart) (h : doc.Within t (room + 8))
    (hg : ofDocument doc = .ok g) : g.spec.Keyed := by
  obtain ⟨es, rfl, -, hspec⟩ := exists_object_of_ofDocument hg
  exact GroupSpec.keyed_of_ofDocument hapart (h.valueOr "spec" .null) hspec

theorem within_documentWith {metadata : Value} (hmetadata : metadata.Within t (room + 9))
    (hspec : g.spec.document.Within t (room + 9)) :
    (g.documentWith metadata).Within t (room + 10) := by
  refine .object (.of_keysApart (keysApart_membersWith g metadata)) ?_
  simp only [List.forall_mem_cons, List.not_mem_nil, false_implies, implies_true, and_true]
  exact ⟨.text _, .text _, hmetadata, hspec⟩

end Group

end RolloutLedger
