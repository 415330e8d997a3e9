import RolloutLedger.Proofs.Value.Entries
/-! # Plain values

A plain value is data of JSON without doubles: null, truth values, integers, texts, and lists and
objects of such, where the keys of every object are texts and no two of them are equal.  Plain
values are what documents without doubles are read as.

Two limits on them are the runtime's: integers with too many digits are neither written nor read,
and what is nested deeper than the stack allows is not read.  Statements that rest on them say so by
`Value.WithinLimits`, or by `Value.isExchangeable` where digits alone matter.
-/

namespace RolloutLedger

namespace Value

/-! ## Plain data -/

mutual

/-- Whether a value is data of JSON without doubles. -/
def isPlain : Value → Bool
  | null | bool _ | int _ | text _ => true
  | list items => isPlainItems items
  | object es => Entries.keysApart es && isPlainMembers es
  | _ => false
termination_by structural v => v

def isPlainItems : List Value → Bool
  | [] => true
  | v :: rest => isPlain v && isPlainItems rest
termination_by structural vs => vs

def isPlainMembers : List (Key × Value) → Bool
  | [] => true
  | (_, v) :: rest => isPlain v && isPlainMembers rest
termination_by structural es => es

end

theorem isPlainItems_iff {items : List Value} :
    isPlainItems items = true ↔ ∀ v ∈ items, v.isPlain = true := by
  induction items with
  | nil => simp [isPlainItems]
  | cons v rest ih => simp [isPlainItems, ih]

theorem isPlainMembers_iff {es : Entries} :
    isPlainMembers es = true ↔ ∀ p ∈ es, p.2.isPlain = true := by
  induction es with
  | nil => simp [isPlainMembers]
  | cons p rest ih =>
    obtain ⟨k, v⟩ := p
    rw [isPlainMembers, Bool.and_eq_true, ih]
    simp

@[simp] theorem isPlain_list_iff {items : List Value} :
    (list items).isPlain = true ↔ ∀ v ∈ items, v.isPlain = true := isPlainItems_iff

@[simp] theorem isPlain_object_iff {es : Entries} :
    (object es).isPlain = true ↔
      Entries.keysApart es = true ∧ ∀ p ∈ es, p.2.isPlain = true := by
  rw [isPlain, Bool.and_eq_true, isPlainMembers_iff]

theorem keysApart_of_isPlain {es : Entries} (h : (object es).isPlain = true) :
    Entries.keysApart es = true := (isPlain_object_iff.mp h).1

theorem isPlain_of_mem_list {items : List Value} (h : (list items).isPlain = true) {v : Value}
    (hv : v ∈ items) : v.isPlain = true := isPlain_list_iff.mp h v hv

theorem isPlain_of_mem_object {es : Entries} (h : (object es).isPlain = true)
    {p : Key × Value} (hp : p ∈ es) : p.2.isPlain = true := (isPlain_object_iff.mp h).2 p hp

/-- Induction over values: what holds of lists and of objects if it holds of what they hold, and of
every other value. -/
theorem induction {motive : Value → Prop}
    (list : ∀ items, (∀ v ∈ items, motive v) → motive (list items))
    (object : ∀ es : Entries, (∀ p ∈ es, motive p.2) → motive (object es))
    (other : ∀ v, (∀ items, v ≠ .list items) → (∀ es, v ≠ .object es) → motive v) (v : Value) :
    motive v := by
  cases v with
  | list items => exact list items fun v hv => induction list object other v
  | object es => exact object es fun p hp => induction list object other p.2
  | _ => exact other _ (fun _ => Value.noConfusion) (fun _ => Value.noConfusion)
termination_by sizeOf v
decreasing_by
  · have := List.sizeOf_lt_of_mem hv
    simp only [Value.list.sizeOf_spec]
    omega
  · have := List.sizeOf_lt_of_mem hp
    obtain ⟨k, v⟩ := p
    simp only [Value.object.sizeOf_spec, Prod.mk.sizeOf_spec] at this ⊢
    omega

/-- Induction over plain values: what holds of scalars, and of lists and objects if it holds of
what they hold. -/
theorem isPlain_induction {motive : ∀ v : Value, v.isPlain = true → Prop}
    (null : motive null rfl) (bool : ∀ b, motive (bool b) rfl) (int : ∀ i, motive (int i) rfl)
    (text : ∀ s, motive (text s) rfl)
    (list : ∀ items (h : (list items).isPlain = true),
      (∀ v (hv : v ∈ items), motive v (isPlain_of_mem_list h hv)) → motive (list items) h)
    (object : ∀ es (h : (object es).isPlain = true),
      (∀ p (hp : p ∈ es), motive p.2 (isPlain_of_mem_object h hp)) → motive (object es) h)
    (v : Value) (h : v.isPlain = true) : motive v h := by
  induction v using Value.induction with
  | list items ih => exact list items h fun v hv => ih v hv _
  | object es ih => exact object es h fun p hp => ih p hp _
  | other v hlist hobject =>
    cases v with
    | null => exact null
    | bool b => exact bool b
    | int i => exact int i
    | text s => exact text s
    | list items => exact absurd rfl (hlist items)
    | object es => exact absurd rfl (hobject es)
    | _ => exact Bool.noConfusion h

/-! ## How large and how deep -/

mutual

/-- Whether no integer inside a value has more digits than the runtime writes and reads. -/
def isExchangeable : Value → Bool
  | int i => Decimal.isExchangeable i
  | list items => areExchangeableItems items
  | object es => areExchangeableMembers es
  | _ => true
termination_by structural v => v

def areExchangeableItems : List Value → Bool
  | [] => true
  | v :: rest => isExchangeable v && areExchangeableItems rest
termination_by structural vs => vs

def areExchangeableMembers : List (Key × Value) → Bool
  | [] => true
  | (_, v) :: rest => isExchangeable v && areExchangeableMembers rest
termination_by structural es => es

end

theorem isExchangeable_list (items : List Value) :
    (list items).isExchangeable = items.all isExchangeable := by
  rw [isExchangeable]
  induction items with
  | nil => rfl
  | cons v rest ih => rw [areExchangeableItems, ih, List.all_cons]

theorem isExchangeable_object (es : Entries) :
    (object es).isExchangeable = es.all fun p => p.2.isExchangeable := by
  rw [isExchangeable]
  induction es with
  | nil => rfl
  | cons p rest ih =>
    obtain ⟨k, v⟩ := p
    rw [areExchangeableMembers, ih, List.all_cons]

@[simp] theorem isExchangeable_list_iff {items : List Value} :
    (list items).isExchangeable = true ↔ ∀ v ∈ items, v.isExchangeable = true := by
  rw [isExchangeable_list, List.all_eq_true]

@[simp] theorem isExchangeable_object_iff {es : Entries} :
    (object es).isExchangeable = true ↔ ∀ p ∈ es, p.2.isExchangeable = true := by
  rw [isExchangeable_object, List.all_eq_true]

mutual

def depth : Value → Nat
  | list items => depthOfItems items + 1
  | object es => depthOfMembers es + 1
  | _ => 0
termination_by structural v => v

def depthOfItems : List Value → Nat
  | [] => 0
  | v :: rest => max (depth v) (depthOfItems rest)
termination_by structural vs => vs

def depthOfMembers : List (Key × Value) → Nat
  | [] => 0
  | (_, v) :: rest => max (depth v) (depthOfMembers rest)
termination_by structural es => es

end

theorem depth_list_le_iff {items : List Value} {room : Nat} :
    (list items).depth ≤ room + 1 ↔ ∀ v ∈ items, v.depth ≤ room := by
  rw [depth, Nat.add_le_add_iff_right]
  induction items with
  | nil => simp [depthOfItems]
  | cons v rest ih =>
    rw [depthOfItems, Nat.max_le, ih]
    simp

theorem depth_object_le_iff {es : Entries} {room : Nat} :
    (object es).depth ≤ room + 1 ↔ ∀ p ∈ es, p.2.depth ≤ room := by
  rw [depth, Nat.add_le_add_iff_right]
  induction es with
  | nil => simp [depthOfMembers]
  | cons p rest ih =>
    obtain ⟨k, v⟩ := p
    rw [depthOfMembers, Nat.max_le, ih]
    simp

/-! ## The limits of the runtime -/

/-- The limits of the runtime: no integer has more digits than it writes and reads, and there is
room on its stack for all levels of nesting. -/
structure WithinLimits (room : Nat) (v : Value) : Prop where
  exchangeable : v.isExchangeable = true
  shallow : v.depth ≤ room

instance (room : Nat) (v : Value) : Decidable (v.WithinLimits room) :=
  decidable_of_iff (v.isExchangeable = true ∧ v.depth ≤ room)
    ⟨fun h => ⟨h.1, h.2⟩, fun h => ⟨h.exchangeable, h.shallow⟩⟩

/-- With room for its nesting only the digits of a value matter. -/
theorem withinLimits_depth_iff {v : Value} :
    v.WithinLimits v.depth ↔ v.isExchangeable = true :=
  ⟨fun h => h.exchangeable, fun h => ⟨h, Nat.le_refl _⟩⟩

/-- Plain data that can be written, and read again with room for so many levels of nesting. -/
structure Fits (room : Nat) (v : Value) : Prop where
  plain : v.isPlain = true
  limits : v.WithinLimits room

namespace Fits

variable {room : Nat} {v : Value}

theorem exchangeable (h : Fits room v) : v.isExchangeable = true := h.limits.exchangeable

theorem shallow (h : Fits room v) : v.depth ≤ room := h.limits.shallow

theorem mono {room' : Nat} (h : Fits room v) (hroom : room ≤ room') : Fits room' v :=
  ⟨h.plain, h.exchangeable, Nat.le_trans h.shallow hroom⟩

theorem null : Fits room null := ⟨rfl, rfl, Nat.zero_le _⟩

theorem bool (b : Bool) : Fits room (bool b) := ⟨rfl, rfl, Nat.zero_le _⟩

theorem text (s : String) : Fits room (text s) := ⟨rfl, rfl, Nat.zero_le _⟩

theorem int_iff {i : Int} : Fits room (int i) ↔ Decimal.isExchangeable i = true :=
  ⟨fun h => h.exchangeable, fun h => ⟨rfl, h, Nat.zero_le _⟩⟩

theorem list_iff {items : List Value} :
    Fits (room + 1) (list items) ↔ ∀ v ∈ items, Fits room v := by
  constructor
  · intro h v hv
    exact ⟨isPlain_list_iff.mp h.plain v hv, isExchangeable_list_iff.mp h.exchangeable v hv,
      depth_list_le_iff.mp h.shallow v hv⟩
  · intro h
    exact ⟨isPlain_list_iff.mpr fun v hv => (h v hv).plain,
      isExchangeable_list_iff.mpr fun v hv => (h v hv).exchangeable,
      depth_list_le_iff.mpr fun v hv => (h v hv).shallow⟩

theorem object_iff {es : Entries} :
    Fits (room + 1) (object es) ↔
      Entries.keysApart es = true ∧ ∀ p ∈ es, Fits room p.2 := by
  constructor
  · intro h
    obtain ⟨hkeys, hplain⟩ := isPlain_object_iff.mp h.plain
    exact ⟨hkeys, fun p hp => ⟨hplain p hp, isExchangeable_object_iff.mp h.exchangeable p hp,
      depth_object_le_iff.mp h.shallow p hp⟩⟩
  · rintro ⟨hkeys, h⟩
    exact ⟨isPlain_object_iff.mpr ⟨hkeys, fun p hp => (h p hp).plain⟩,
      isExchangeable_object_iff.mpr fun p hp => (h p hp).exchangeable,
      depth_object_le_iff.mpr fun p hp => (h p hp).shallow⟩

/-- Induction over values that fit: what a list or an object holds fits one level less. -/
theorem induction {motive : ∀ (room : Nat) (v : Value), Fits room v → Prop}
    (null : ∀ room, motive room .null .null) (bool : ∀ room b, motive room (.bool b) (.bool b))
    (int : ∀ room i h, motive room (.int i) (int_iff.mpr h))
    (text : ∀ room s, motive room (.text s) (.text s))
    (list : ∀ room items (h : Fits (room + 1) (.list items)),
      (∀ v (hv : v ∈ items), motive room v (list_iff.mp h v hv)) →
        motive (room + 1) (.list items) h)
    (object : ∀ room es (h : Fits (room + 1) (.object es)),
      (∀ p (hp : p ∈ es), motive room p.2 ((object_iff.mp h).2 p hp)) →
        motive (room + 1) (.object es) h)
    (room : Nat) (v : Value) (h : Fits room v) : motive room v h := by
  have hplain := h.plain
  induction v, hplain using isPlain_induction generalizing room with
  | null => exact null room
  | bool b => exact bool room b
  | int i => exact int room i (int_iff.mp h)
  | text s => exact text room s
  | list items _ ih =>
    cases room with
    | zero => exact absurd h.shallow (Nat.not_succ_le_zero _)
    | succ room => exact list room items h fun v hv => ih v hv room (list_iff.mp h v hv)
  | object es _ ih =>
    cases room with
    | zero => exact absurd h.shallow (Nat.not_succ_le_zero _)
    | succ room => exact object room es h fun p hp => ih p hp room ((object_iff.mp h).2 p hp)

end Fits

end Value

end RolloutLedger
