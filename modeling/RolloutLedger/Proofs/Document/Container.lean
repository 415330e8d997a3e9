import RolloutLedger.Proofs.Document.Probe
/-! # Containers are read back

A container is written with its extra members and with those of its own members that are set.  What
is read back from a recast document has its values recast.
-/

namespace RolloutLedger

open Entries (field fieldIf optionalField valueOr keysApart mapValues HasNames)

/-! ## Environment variables -/

namespace EnvVar

variable {room : Nat} {v : EnvVar}

def ordered (v : EnvVar) : EnvVar := { v with valueFrom := v.valueFrom.ordered }

theorem ofDocument_object (es : Entries) :
    ofDocument (.object es) = .ok ⟨(valueOr es "name" (.text "")).asText,
      (valueOr es "value" (.text "")).textOrEmpty, valueOr es "valueFrom" .null⟩ := rfl

theorem fits_of_ofDocument {doc : Value} (h : doc.Fits (room + 1)) (hv : ofDocument doc = .ok v) :
    v.valueFrom.Fits room := by
  obtain ⟨_, hname, -⟩ := bind_eq_ok_iff.mp hv
  obtain ⟨es, rfl, -⟩ := Value.exists_object_of_memberOr hname
  rw [ofDocument_object] at hv
  cases hv
  exact h.valueOr "valueFrom" .null

def members (v : EnvVar) : Entries :=
  [field "name" (.text v.name)] ++ fieldIf (v.value != "") "value" (.text v.value) ++
    fieldIf v.valueFrom.present?.isSome "valueFrom" v.valueFrom

theorem keysApart_members (v : EnvVar) : keysApart v.members = true :=
  (((HasNames.field "name" _).append (.fieldIf _ "value" _)).append
    (.fieldIf _ "valueFrom" _)).keysApart (by decide)

theorem fits_document (h : v.valueFrom.Fits room) : v.document.Fits (room + 1) := by
  refine Value.Fits.object_iff.mpr ⟨v.keysApart_members, ?_⟩
  simp only [List.forall_mem_append, List.forall_mem_singleton]
  exact ⟨⟨.text _, Entries.forall_mem_fieldIf (.text _)⟩, Entries.forall_mem_fieldIf h⟩

def recast (f : Recasting) (v : EnvVar) : EnvVar := { v with valueFrom := f.value v.valueFrom }

theorem ofDocument_recast (f : Recasting) (v : EnvVar) :
    ofDocument (f.value v.document) = .ok (v.recast f) := by
  rw [show v.document = .object v.members from rfl, f.value_object, ofDocument_object,
    f.valueOr_text v.keysApart_members "name" "" (by decide),
    f.valueOr_text v.keysApart_members "value" "" (by decide),
    f.valueOr_null v.keysApart_members "valueFrom" (by decide)]
  simp [valueOr, members, recast]

theorem document_ordered (h : v.valueFrom.isPlain = true) :
    v.ordered.document.ordered = v.document.ordered := by
  rw [show v.ordered.document = .object v.ordered.members from rfl,
    show v.document = .object v.members from rfl, Value.ordered_object_eq, Value.ordered_object_eq]
  refine congrArg _ (Entries.ordered_eq_of_perm (keysApart_members _) (List.Perm.of_eq ?_))
  simp [members, ordered, Value.ordered_ordered h]

end EnvVar

/-! ## Containers -/

namespace Container

variable {room : Nat} {c : Container}

structure Reads (es : Entries) (c : Container) : Prop where
  name : (valueOr es "name" (.text "")).asText = c.name
  image : (valueOr es "image" (.text "")).textOrEmpty = c.image
  command : (valueOr es "command" .null).itemsOrNone = .ok c.command
  args : (valueOr es "args" .null).itemsOrNone = .ok c.args
  env : ∃ docs, (valueOr es "env" .null).itemsOrNone = .ok docs ∧
    docs.mapM EnvVar.ofDocument = .ok c.env
  ports : (valueOr es "ports" .null).itemsOrNone = .ok c.ports
  resources : (valueOr es "resources" .null).entriesOrNone = .ok c.resources
  volumeMounts : (valueOr es "volumeMounts" .null).itemsOrNone = .ok c.volumeMounts
  imagePullPolicy : (valueOr es "imagePullPolicy" (.text "")).textOrEmpty = c.imagePullPolicy
  startupProbe : (valueOr es "startupProbe" .null).optional Probe.ofDocument = .ok c.startupProbe
  livenessProbe : (valueOr es "livenessProbe" .null).optional Probe.ofDocument =
    .ok c.livenessProbe
  readinessProbe : (valueOr es "readinessProbe" .null).optional Probe.ofDocument =
    .ok c.readinessProbe
  extra : es.without memberNames = c.extra

theorem ofDocument_object_iff {es : Entries} : ofDocument (.object es) = .ok c ↔ Reads es c := by
  rw [ofDocument]
  simp only [Value.member, Value.memberOr_object, Value.members, ok_bind]
  constructor
  · intro h
    obtain ⟨command, hcommand, h⟩ := bind_eq_ok_iff.mp h
    obtain ⟨args, hargs, h⟩ := bind_eq_ok_iff.mp h
    obtain ⟨docs, hdocs, h⟩ := bind_eq_ok_iff.mp h
    obtain ⟨env, henv, h⟩ := bind_eq_ok_iff.mp h
    obtain ⟨ports, hports, h⟩ := bind_eq_ok_iff.mp h
    obtain ⟨resources, hresources, h⟩ := bind_eq_ok_iff.mp h
    obtain ⟨volumeMounts, hvolumeMounts, h⟩ := bind_eq_ok_iff.mp h
    obtain ⟨startup, hstartup, h⟩ := bind_eq_ok_iff.mp h
    obtain ⟨liveness, hliveness, h⟩ := bind_eq_ok_iff.mp h
    obtain ⟨readiness, hreadiness, h⟩ := bind_eq_ok_iff.mp h
    cases h
    exact ⟨rfl, rfl, hcommand, hargs, ⟨docs, hdocs, henv⟩, hports, hresources, hvolumeMounts, rfl,
      hstartup, hliveness, hreadiness, rfl⟩
  · rintro ⟨hname, himage, hcommand, hargs, ⟨docs, hdocs, henv⟩, hports, hresources,
      hvolumeMounts, hpolicy, hstartup, hliveness, hreadiness, hextra⟩
    simp only [hname, himage, hcommand, hargs, hdocs, henv, hports, hresources, hvolumeMounts,
      hpolicy, hstartup, hliveness, hreadiness, hextra, ok_bind]
    rfl

theorem exists_reads_of_ofDocument {doc : Value} (h : ofDocument doc = .ok c) :
    ∃ es, doc = .object es ∧ Reads es c := by
  obtain ⟨_, hname, -⟩ := bind_eq_ok_iff.mp h
  obtain ⟨es, rfl, -⟩ := Value.exists_object_of_memberOr hname
  exact ⟨es, rfl, ofDocument_object_iff.mp h⟩

/-- Whether the keys of the extra members are texts, no two of them equal, and none has a field of
its own. -/
structure Keyed (c : Container) : Prop where
  extra : keysApart c.extra = true
  apart : ∀ p ∈ c.extra, ∀ n ∈ memberNames, p.1 ≠ .text n

/-- Whether the parts of a container fit, and its extra members have no field of their own. -/
structure Fits (room : Nat) (c : Container) : Prop where
  command : ∀ v ∈ c.command, v.Fits (room + 1)
  args : ∀ v ∈ c.args, v.Fits (room + 1)
  env : ∀ v ∈ c.env, v.valueFrom.Fits room
  ports : ∀ v ∈ c.ports, v.Fits (room + 1)
  resources : (Value.object c.resources).Fits (room + 2)
  volumeMounts : ∀ v ∈ c.volumeMounts, v.Fits (room + 1)
  startupProbe : ∀ p, c.startupProbe = some p → p.Fits (room + 1)
  livenessProbe : ∀ p, c.livenessProbe = some p → p.Fits (room + 1)
  readinessProbe : ∀ p, c.readinessProbe = some p → p.Fits (room + 1)
  extra : (Value.object c.extra).Fits (room + 3)
  apart : ∀ p ∈ c.extra, ∀ n ∈ memberNames, p.1 ≠ .text n

theorem fits_of_ofDocument {doc : Value} (h : doc.Fits (room + 3)) (hc : ofDocument doc = .ok c)
    (hkeys : keysApart c.resources = true) : c.Fits room := by
  obtain ⟨es, rfl, hreads⟩ := exists_reads_of_ofDocument hc
  have hvalue : ∀ n, (valueOr es n .null).Fits (room + 2) := fun n => h.valueOr n .null
  have hprobe : ∀ n o, (valueOr es n .null).optional Probe.ofDocument = .ok o →
      ∀ p, o = some p → p.Fits (room + 1) := by
    intro n o ho p hp
    obtain ⟨w, hw, hread⟩ := (hvalue n).of_optional ho hp
    exact Probe.fits_of_ofDocument hw hread
  obtain ⟨docs, hdocs, henv⟩ := hreads.env
  constructor
  · exact (hvalue "command").of_itemsOrNone hreads.command
  · exact (hvalue "args").of_itemsOrNone hreads.args
  · intro v hv
    obtain ⟨d, hd, hread⟩ := exists_of_mapM_eq_ok henv v hv
    exact EnvVar.fits_of_ofDocument ((hvalue "env").of_itemsOrNone hdocs d hd) hread
  · exact (hvalue "ports").of_itemsOrNone hreads.ports
  · exact (hvalue "resources").of_entriesOrNone hreads.resources hkeys
  · exact (hvalue "volumeMounts").of_itemsOrNone hreads.volumeMounts
  · exact hprobe "startupProbe" _ hreads.startupProbe
  · exact hprobe "livenessProbe" _ hreads.livenessProbe
  · exact hprobe "readinessProbe" _ hreads.readinessProbe
  · rw [← hreads.extra]
    exact h.without memberNames
  · exact Entries.apart_of_without hreads.extra

/-! ### Writing -/

theorem probeField_eq (n : String) (p : Option Probe) :
    probeField n p = optionalField n (p.map Probe.document) := by
  cases p <;> rfl

/-- The members of a container's document that have fields of their own. -/
def known (c : Container) : Entries :=
  [field "name" (.text c.name)] ++ fieldIf (c.image != "") "image" (.text c.image) ++
    fieldIf (!c.command.isEmpty) "command" (.list c.command) ++
    fieldIf (!c.args.isEmpty) "args" (.list c.args) ++
    fieldIf (!c.env.isEmpty) "env" (.list (c.env.map (·.document))) ++
    fieldIf (!c.ports.isEmpty) "ports" (.list c.ports) ++
    fieldIf (!c.resources.isEmpty) "resources" (.object c.resources) ++
    fieldIf (!c.volumeMounts.isEmpty) "volumeMounts" (.list c.volumeMounts) ++
    fieldIf (c.imagePullPolicy != "") "imagePullPolicy" (.text c.imagePullPolicy) ++
    optionalField "startupProbe" (c.startupProbe.map Probe.document) ++
    optionalField "livenessProbe" (c.livenessProbe.map Probe.document) ++
    optionalField "readinessProbe" (c.readinessProbe.map Probe.document)

theorem document_eq (c : Container) : c.document = .object (c.extra ++ c.known) := by
  simp only [document, known, probeField_eq, List.append_assoc]

theorem hasNames_known (c : Container) : HasNames memberNames c.known :=
  (((((((((((HasNames.field "name" _).append (.fieldIf _ "image" _)).append
    (.fieldIf _ "command" _)).append (.fieldIf _ "args" _)).append (.fieldIf _ "env" _)).append
    (.fieldIf _ "ports" _)).append (.fieldIf _ "resources" _)).append
    (.fieldIf _ "volumeMounts" _)).append (.fieldIf _ "imagePullPolicy" _)).append
    (.optionalField "startupProbe" _)).append (.optionalField "livenessProbe" _)).append
    (.optionalField "readinessProbe" _)

theorem Fits.keyed (h : c.Fits room) : c.Keyed :=
  ⟨(Value.Fits.object_iff.mp h.extra).1, h.apart⟩

theorem Keyed.keysApart (h : c.Keyed) : keysApart (c.extra ++ c.known) = true :=
  c.hasNames_known.keysApart_append (by decide) h.extra h.apart

theorem fits_document (h : c.Fits room) : c.document.Fits (room + 3) := by
  have hprobe : ∀ n (o : Option Probe), (∀ p, o = some p → p.Fits (room + 1)) →
      ∀ q ∈ optionalField n (o.map Probe.document), q.2.Fits (room + 2) := by
    intro n o ho
    refine Entries.forall_mem_optionalField fun v hv => ?_
    obtain ⟨p, hp, rfl⟩ := Option.map_eq_some_iff.mp hv
    exact Probe.fits_document (ho p hp)
  have henv : (Value.list (c.env.map (·.document))).Fits (room + 2) := by
    refine Value.Fits.list_iff.mpr fun d hd => ?_
    obtain ⟨v, hv, rfl⟩ := List.mem_map.mp hd
    exact EnvVar.fits_document (h.env v hv)
  rw [document_eq]
  refine Value.Fits.object_iff.mpr ⟨h.keyed.keysApart, ?_⟩
  simp only [known, List.forall_mem_append, List.forall_mem_singleton]
  refine ⟨(Value.Fits.object_iff.mp h.extra).2,
    ⟨⟨⟨⟨⟨⟨⟨⟨⟨⟨⟨?_, ?_⟩, ?_⟩, ?_⟩, ?_⟩, ?_⟩, ?_⟩, ?_⟩, ?_⟩,
    hprobe _ _ h.startupProbe⟩, hprobe _ _ h.livenessProbe⟩, hprobe _ _ h.readinessProbe⟩⟩
  · exact .text _
  · exact Entries.forall_mem_fieldIf (.text _)
  · exact Entries.forall_mem_fieldIf (Value.Fits.list_iff.mpr h.command)
  · exact Entries.forall_mem_fieldIf (Value.Fits.list_iff.mpr h.args)
  · exact Entries.forall_mem_fieldIf henv
  · exact Entries.forall_mem_fieldIf (Value.Fits.list_iff.mpr h.ports)
  · exact Entries.forall_mem_fieldIf h.resources
  · exact Entries.forall_mem_fieldIf (Value.Fits.list_iff.mpr h.volumeMounts)
  · exact Entries.forall_mem_fieldIf (.text _)

/-! ### Reading back -/

def ordered (c : Container) : Container :=
  { c with
    command := c.command.map Value.ordered
    args := c.args.map Value.ordered
    env := c.env.map EnvVar.ordered
    ports := c.ports.map Value.ordered
    resources := Entries.ordered c.resources
    volumeMounts := c.volumeMounts.map Value.ordered
    startupProbe := c.startupProbe.map Probe.ordered
    livenessProbe := c.livenessProbe.map Probe.ordered
    readinessProbe := c.readinessProbe.map Probe.ordered
    extra := Entries.ordered c.extra }

def recast (f : Recasting) (c : Container) : Container :=
  { c with
    command := c.command.map f.value
    args := c.args.map f.value
    env := c.env.map (EnvVar.recast f)
    ports := c.ports.map f.value
    resources := f.members c.resources
    volumeMounts := c.volumeMounts.map f.value
    startupProbe := c.startupProbe.map (Probe.recast f)
    livenessProbe := c.livenessProbe.map (Probe.recast f)
    readinessProbe := c.readinessProbe.map (Probe.recast f)
    extra := f.members c.extra }

theorem optional_probe (f : Recasting) (o : Option Probe) :
    (f.value ((o.map Probe.document).getD .null)).optional Probe.ofDocument =
      .ok (o.map (Probe.recast f)) :=
  f.optional (fun p => ⟨p.members, p.document_eq⟩) fun p _ => p.ofDocument_recast f

/-- **A container is read back.** -/
theorem ofDocument_recast (f : Recasting) (h : c.Keyed) :
    ofDocument (f.value c.document) = .ok (c.recast f) := by
  -- no extra member has one of the names that are looked up
  have hknown : ∀ n ∈ memberNames, ∀ d : Value, f.value d = d →
      valueOr (f.members (c.extra ++ c.known)) n d = f.value (valueOr c.known n d) :=
    fun n hn d hd => f.valueOr_of_extra h.keysApart h.apart hn (by decide) hd
  rw [document_eq, f.value_object, ofDocument_object_iff]
  constructor
  · rw [hknown _ (by decide) _ (f.value_text "")]
    simp [valueOr, known, recast]
  · rw [hknown _ (by decide) _ (f.value_text "")]
    simp [valueOr, known, recast]
  · rw [hknown _ (by decide) _ f.value_null]
    simp [valueOr, known, recast]
  · rw [hknown _ (by decide) _ f.value_null]
    simp [valueOr, known, recast]
  · rw [hknown _ (by decide) _ f.value_null]
    exact ⟨c.env.map fun v => f.value v.document, by simp [valueOr, known],
      mapM_values fun v _ => v.ofDocument_recast f⟩
  · rw [hknown _ (by decide) _ f.value_null]
    simp [valueOr, known, recast]
  · rw [hknown _ (by decide) _ f.value_null]
    simp [valueOr, known, recast]
  · rw [hknown _ (by decide) _ f.value_null]
    simp [valueOr, known, recast]
  · rw [hknown _ (by decide) _ (f.value_text "")]
    simp [valueOr, known, recast]
  · rw [hknown _ (by decide) _ f.value_null, recast, ← optional_probe]
    simp [valueOr, known]
  · rw [hknown _ (by decide) _ f.value_null, recast, ← optional_probe]
    simp [valueOr, known]
  · rw [hknown _ (by decide) _ f.value_null, recast, ← optional_probe]
    simp [valueOr, known]
  · exact f.without_of_extra h.keysApart h.apart c.hasNames_known.exists_name

theorem document_ordered (h : c.Fits room) : c.ordered.document.ordered = c.document.ordered := by
  have hitems : ∀ {items : List Value}, (∀ v ∈ items, v.Fits (room + 1)) →
      (items.map Value.ordered).map Value.ordered = items.map Value.ordered :=
    fun hfits => Value.map_ordered_ordered fun v hv => (hfits v hv).plain
  have henv : ((c.env.map EnvVar.ordered).map (·.document)).map Value.ordered =
      (c.env.map (·.document)).map Value.ordered :=
    Value.map_documents_ordered fun v hv => EnvVar.document_ordered (h.env v hv).plain
  have hprobe : ∀ o : Option Probe, (∀ p, o = some p → p.Fits (room + 1)) →
      ((o.map Probe.ordered).map Probe.document).map Value.ordered =
        (o.map Probe.document).map Value.ordered := by
    intro o ho
    cases o with
    | none => rfl
    | some p => exact congrArg some (Probe.document_ordered (ho p rfl))
  have hresources : (Value.object (Entries.ordered c.resources)).ordered =
      (Value.object c.resources).ordered := by
    rw [← Value.ordered_object_eq, Value.ordered_ordered h.resources.plain]
  have hknown : mapValues Value.ordered c.ordered.known = mapValues Value.ordered c.known := by
    simp only [known, ordered, Entries.mapValues_append, Entries.mapValues_cons_field,
      Entries.mapValues_nil, Entries.mapValues_fieldIf, Value.ordered_text, Value.ordered_list,
      List.isEmpty_map, Entries.isEmpty_ordered, hitems h.command, hitems h.args, hitems h.ports,
      hitems h.volumeMounts, henv, hresources, Entries.mapValues_optionalField,
      hprobe _ h.startupProbe, hprobe _ h.livenessProbe, hprobe _ h.readinessProbe]
  rw [document_eq, document_eq, Value.ordered_object_eq, Value.ordered_object_eq]
  exact congrArg _ (Entries.ordered_append_of_extra h.keyed.keysApart h.extra.plain hknown)

end Container

end RolloutLedger
