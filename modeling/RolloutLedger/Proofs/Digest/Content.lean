import Mathlib.Data.List.Basic
import RolloutLedger.Proofs.Digest.Canonical
/-! # Digests of content

What a digest keeps apart, first of byte strings and then of raw data and an object together.
-/

namespace RolloutLedger.Digest

/-! ## What digests keep apart

The prime of a step is odd, so a step can be undone: different digests stay different when the same
byte is taken in, and so do different bytes in one digest.  Byte strings that differ in one place
therefore have different digests, whatever follows that place.

A digest is shown by its numeral, each digit by a letter of its own, so what is shown is the digest.
-/

variable {d d' : UInt32} {b b' : UInt8} {raw raw' : Bytes}

/-! ### Steps -/

/-- The inverse of the prime modulo 2³². -/
def primeInverse : UInt32 := 0x359c449b

theorem mul_prime_inj {x y : UInt32} : x * prime = y * prime ↔ x = y := by
  constructor
  · intro h
    have hundo : ∀ z : UInt32, z * prime * primeInverse = z := by
      intro z
      rw [UInt32.mul_assoc, show prime * primeInverse = 1 from rfl, UInt32.mul_one]
    rw [← hundo x, h, hundo y]
  · exact congrArg (· * prime)

theorem step_left_inj : step d b = step d' b ↔ d = d' := by
  rw [step, step, mul_prime_inj, UInt32.xor_left_inj]

/-- A digest tells two bytes apart. -/
theorem step_right_inj : step d b = step d b' ↔ b = b' := by
  rw [step, step, mul_prime_inj, UInt32.xor_right_inj, UInt8.toUInt32_inj]

theorem update_left_inj (back : Bytes) : update d back = update d' back ↔ d = d' := by
  induction back generalizing d d' with
  | nil => exact Iff.rfl
  | cons b back ih =>
    show update (step d b) back = update (step d' b) back ↔ d = d'
    rw [ih, step_left_inj]

/-! ### Byte strings that differ in one place -/

/-- Byte strings of one length that differ in exactly one place. -/
structure DifferOnce (raw raw' : Bytes) : Prop where
  length_eq : raw.length = raw'.length
  place : ∃! i : Nat, raw[i]? ≠ raw'[i]?

/-- Such byte strings have the same bytes in front of the place and after it. -/
theorem DifferOnce.exists_split (h : DifferOnce raw raw') :
    ∃ front b b' back, raw = front ++ b :: back ∧ raw' = front ++ b' :: back ∧ b ≠ b' := by
  obtain ⟨hlength, i, hi, hunique⟩ := h
  have hsame : ∀ j, j ≠ i → raw[j]? = raw'[j]? := by
    intro j hj
    by_contra hdiffer
    exact hj (hunique j hdiffer)
  have hlt : i < raw.length := by
    by_contra hge
    rw [List.getElem?_eq_none (by omega), List.getElem?_eq_none (by omega)] at hi
    exact hi rfl
  have hlt' : i < raw'.length := hlength ▸ hlt
  have hfront : raw.take i = raw'.take i := by
    apply List.ext_getElem?
    intro j
    rw [List.getElem?_take, List.getElem?_take]
    by_cases hj : j < i
    · rw [if_pos hj, if_pos hj, hsame j (by omega)]
    · rw [if_neg hj, if_neg hj]
  have hback : raw.drop (i + 1) = raw'.drop (i + 1) := by
    apply List.ext_getElem?
    intro j
    rw [List.getElem?_drop, List.getElem?_drop, hsame _ (by omega)]
  refine ⟨raw.take i, raw[i], raw'[i], raw.drop (i + 1), ?_, ?_, ?_⟩
  · rw [← List.drop_eq_getElem_cons hlt, List.take_append_drop]
  · rw [hfront, hback, ← List.drop_eq_getElem_cons hlt', List.take_append_drop]
  · intro hbyte
    rw [List.getElem?_eq_getElem hlt, List.getElem?_eq_getElem hlt', hbyte] at hi
    exact hi rfl

/-- One byte changes the digest, with whatever comes after it. -/
theorem DifferOnce.ofBytes_ne (h : DifferOnce raw raw') (back : Bytes) :
    ofBytes (raw ++ back) ≠ ofBytes (raw' ++ back) := by
  obtain ⟨front, b, b', rest, rfl, rfl, hbytes⟩ := h.exists_split
  intro heq
  simp only [ofBytes, update_append, update_left_inj] at heq
  have hstep : step (update initial front) b = step (update initial front) b' :=
    (update_left_inj rest).mp heq
  exact hbytes (step_right_inj.mp hstep)

/-! ### Digests in plain arithmetic -/

/-- A step on numbers: of the product the low 32 bits are kept. -/
def stepNumber (n : Nat) (b : UInt8) : Nat := ((n ^^^ b.toNat) * 0x01000193) &&& 0xffffffff

def numberOf (bs : Bytes) : Nat := bs.foldl stepNumber 0x811c9dc5

theorem toNat_step (d : UInt32) (b : UInt8) : (step d b).toNat = stepNumber d.toNat b := by
  rw [step, UInt32.toNat_mul, UInt32.toNat_xor, UInt8.toNat_toUInt32, stepNumber,
    show 0xffffffff = 2 ^ 32 - 1 from rfl, Nat.and_two_pow_sub_one_eq_mod]
  rfl

theorem toNat_ofBytes (bs : Bytes) : (ofBytes bs).toNat = numberOf bs := by
  unfold ofBytes update numberOf
  rw [show 0x811c9dc5 = initial.toNat from rfl]
  exact (List.foldl_hom UInt32.toNat fun d b => (toNat_step d b).symm).symm

theorem foldl_update (d : UInt32) (chunks : List Bytes) :
    chunks.foldl update d = update d chunks.flatten :=
  List.foldl_flatten.symm

/-! ### Shown digests -/

def digitOf (letter : Char) : Char :=
  Decimal.digitChar ((safeAlphabet.idxOf letter + 6) % safeAlphabet.length)

theorem digitOf_safeChar {c : Char} (h : Decimal.isDigit c = true) : digitOf (safeChar c) = c := by
  have hletters : ∀ i < 10, digitOf (safeChar (Decimal.digitChar i)) = Decimal.digitChar i := by
    decide
  rw [← Decimal.digitChar_digitValue h]
  exact hletters _ (Decimal.digitValue_lt h)

theorem toList_shown (d : UInt32) : (shown d).toList = (Decimal.digits d.toNat).map safeChar := by
  rw [shown, safeText, String.toList_ofList, String.toList_ofList]

theorem map_digitOf_shown (d : UInt32) :
    (shown d).toList.map digitOf = Decimal.digits d.toNat := by
  rw [toList_shown, List.map_map]
  refine (List.map_congr_left fun c hc => ?_).trans (List.map_id _)
  exact digitOf_safeChar (Decimal.isDigit_of_mem_digits hc)

theorem shown_inj : shown d = shown d' ↔ d = d' := by
  constructor
  · intro h
    have hvalue : Decimal.value (Decimal.digits d.toNat) =
        Decimal.value (Decimal.digits d'.toNat) := by
      rw [← map_digitOf_shown, ← map_digitOf_shown, h]
    rw [Decimal.value_digits, Decimal.value_digits] at hvalue
    exact UInt32.toNat_inj.mp hvalue
  · exact congrArg shown

theorem length_shown_le (d : UInt32) : (shown d).length ≤ 10 := by
  rw [← String.length_toList, toList_shown, List.length_map,
    Decimal.length_digits_le_iff (by decide)]
  exact Nat.lt_trans d.toNat_lt (by decide)

end RolloutLedger.Digest

namespace RolloutLedger

/-! ## What the digest of data and an object tells

Raw data and the canonical form of an object are digested as one byte string.  Whether there is a
digest depends on the object only: there is one without an object, and with every object that was
decoded.  What is shown then tells the digest of the byte string, no more and no less, and one
changed byte of the data always shows.
-/

/-! ### What is digested -/

namespace Digest

variable {o : HashOptions} {raw bytes : Bytes} {object : Value} {hash : String}

/-- The bytes of an object that are digested: its canonical form, or none without an object. -/
def objectBytes (o : HashOptions) (object : Value) : Except Error Bytes :=
  match object.present? with
  | none => .ok []
  | some v => canonical o v

theorem ofContent_eq (o : HashOptions) (raw : Bytes) (object : Value) :
    ofContent o raw object = (objectBytes o object).map fun bs => ofBytes (raw ++ bs) := by
  unfold ofContent objectBytes
  cases object.present? with
  | none => simp [Except.map]
  | some v =>
    have hupdate : update (ofBytes raw) = fun bs => ofBytes (raw ++ bs) := by
      funext bs
      rw [ofBytes, ofBytes, update_append]
    rw [hupdate]

theorem contentHash_eq_ok_iff : contentHash o raw object = .ok hash ↔
    ∃ bs, objectBytes o object = .ok bs ∧ shown (ofBytes (raw ++ bs)) = hash := by
  rw [contentHash, ofContent_eq, map_eq_ok_iff]
  constructor
  · rintro ⟨digest, hdigest, rfl⟩
    obtain ⟨bs, hbs, rfl⟩ := map_eq_ok_iff.mp hdigest
    exact ⟨bs, hbs, rfl⟩
  · rintro ⟨bs, hbs, rfl⟩
    exact ⟨_, map_eq_ok_iff.mpr ⟨bs, hbs, rfl⟩, rfl⟩

/-- What is shown for data and an object, under some options. -/
def IsHash (hash : String) : Prop :=
  ∃ o raw object, contentHash o raw object = .ok hash

theorem IsHash.exists_shown (h : IsHash hash) : ∃ d, hash = shown d := by
  obtain ⟨o, raw, object, hhash⟩ := h
  obtain ⟨bs, -, rfl⟩ := contentHash_eq_ok_iff.mp hhash
  exact ⟨_, rfl⟩

/-- The object a digest is taken with: none, or one that was decoded. -/
inductive IsDecoded : Value → Prop
  | none : IsDecoded .null
  | some {data : Bytes} {object : Value} (h : Json.decode data = .ok object) : IsDecoded object

theorem IsDecoded.exists_objectBytes (o : HashOptions) (h : IsDecoded object) :
    ∃ bs, objectBytes o object = .ok bs := by
  cases h with
  | none => exact ⟨[], rfl⟩
  | some hdata =>
    unfold objectBytes
    cases hobject : object.present? with
    | none => exact ⟨[], rfl⟩
    | some v =>
      obtain rfl : object = v := by
        cases object <;> cases hobject <;> rfl
      exact exists_canonical_of_within o (Json.within_of_decode hdata)

/-! ### What is told -/

/-- One byte of the data always shows, with whatever object. -/
theorem DifferOnce.hash_ne {raw' : Bytes} {hash' : String} (h : DifferOnce raw raw')
    (hhash : contentHash o raw object = .ok hash) (hhash' : contentHash o raw' object = .ok hash') :
    hash ≠ hash' := by
  obtain ⟨bs, hbs, rfl⟩ := contentHash_eq_ok_iff.mp hhash
  obtain ⟨bs', hbs', rfl⟩ := contentHash_eq_ok_iff.mp hhash'
  obtain rfl : bs = bs' := Except.ok.inj (hbs.symm.trans hbs')
  intro heq
  exact h.ofBytes_ne bs (shown_inj.mp heq)

/-- **What the digest of data and an object tells.**  With a decoded object or none, data that
differ in one byte are always shown differently; so they are with any other object that is shown
at all.  Two inputs are shown alike exactly if the digests of what they consist of are the same
number.  That number does not depend on the chunks in which bytes are taken, and it has 32 bits. -/
theorem contentHash_tells (o : HashOptions) :
    (∀ raw raw' object, DifferOnce raw raw' → IsDecoded object → ∃ hash hash',
      contentHash o raw object = .ok hash ∧ contentHash o raw' object = .ok hash' ∧
        hash ≠ hash') ∧
    (∀ raw raw' object hash hash', DifferOnce raw raw' → contentHash o raw object = .ok hash →
      contentHash o raw' object = .ok hash' → hash ≠ hash') ∧
    (∀ o' raw raw' object object' hash hash', contentHash o raw object = .ok hash →
      contentHash o' raw' object' = .ok hash' → ∃ bs bs', objectBytes o object = .ok bs ∧
        objectBytes o' object' = .ok bs' ∧
        (hash = hash' ↔ numberOf (raw ++ bs) = numberOf (raw' ++ bs'))) ∧
    ∀ chunks : List Bytes, (chunks.foldl update initial).toNat = numberOf chunks.flatten ∧
      numberOf chunks.flatten < 2 ^ 32 := by
  refine ⟨?_, ?_, ?_, ?_⟩
  · intro raw raw' object hdiffer hobject
    obtain ⟨bs, hbs⟩ := hobject.exists_objectBytes o
    have hhash := contentHash_eq_ok_iff.mpr ⟨bs, hbs, Eq.refl (shown (ofBytes (raw ++ bs)))⟩
    have hhash' := contentHash_eq_ok_iff.mpr ⟨bs, hbs, Eq.refl (shown (ofBytes (raw' ++ bs)))⟩
    exact ⟨_, _, hhash, hhash', hdiffer.hash_ne hhash hhash'⟩
  · intro raw raw' object hash hash' hdiffer hhash hhash'
    exact hdiffer.hash_ne hhash hhash'
  · intro o' raw raw' object object' hash hash' hhash hhash'
    obtain ⟨bs, hbs, rfl⟩ := contentHash_eq_ok_iff.mp hhash
    obtain ⟨bs', hbs', rfl⟩ := contentHash_eq_ok_iff.mp hhash'
    refine ⟨bs, bs', hbs, hbs', ?_⟩
    rw [shown_inj, ← UInt32.toNat_inj, toNat_ofBytes, toNat_ofBytes]
  · intro chunks
    rw [foldl_update]
    have hnumber := toNat_ofBytes chunks.flatten
    refine ⟨hnumber, ?_⟩
    rw [← hnumber]
    exact UInt32.toNat_lt _

/-- The last of two bytes differs, and the object was decoded from `[1]`. -/
theorem contentHash_tells_last_byte :
    DifferOnce [97, 49] [97, 50] ∧ Json.decode [91, 49, 93] = .ok (.list [.int 1]) ∧
      ∃ hash hash', contentHash .standard [97, 49] (.list [.int 1]) = .ok hash ∧
        contentHash .standard [97, 50] (.list [.int 1]) = .ok hash' ∧ hash ≠ hash' := by
  have hdiffer : DifferOnce [97, 49] [97, 50] := by
    refine ⟨rfl, 1, by decide, ?_⟩
    rintro (_ | _ | i) hi
    · exact absurd rfl hi
    · rfl
    · exact absurd rfl hi
  have hdecode : Json.decode [91, 49, 93] = .ok (.list [.int 1]) := rfl
  obtain ⟨hbyte, -⟩ := contentHash_tells .standard
  exact ⟨hdiffer, hdecode, hbyte _ _ _ hdiffer (.some hdecode)⟩

end Digest

end RolloutLedger
