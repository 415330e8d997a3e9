import Mathlib.Data.List.GetD
import RolloutLedger.Proofs.Digest.Content
import RolloutLedger.Proofs.Revision.Build
/-! # What the name of a revision tells

A name is a stem, a digest and a number with hyphens between them.  Neither a digest nor a number
has a hyphen in it, so the last two hyphens of a name are those between its parts, whatever the
stem holds: a name tells the stem as far as it was taken, the digest and the number.

The stem is cut so that a name is short enough for the cluster: a digest has at most ten letters,
which leaves room for a number of twenty-one digits.
-/

namespace RolloutLedger

/-! ## Parts without hyphens -/

theorem Digest.safeChar_mem (c : Char) : safeChar c ∈ safeAlphabet := by
  have hlength : safeAlphabet.length = 27 := by decide
  have hlt : c.toNat % 27 < safeAlphabet.length := by
    rw [hlength]
    exact Nat.mod_lt _ (by decide)
  unfold safeChar
  rw [List.getD_eq_getElem _ _ hlt]
  exact List.getElem_mem hlt

theorem Digest.hyphen_not_mem_shown (digest : UInt32) : '-' ∉ (shown digest).toList := by
  unfold shown safeText
  rw [String.toList_ofList]
  intro h
  obtain ⟨c, -, hc⟩ := List.mem_map.mp h
  have hmem := Digest.safeChar_mem c
  rw [hc] at hmem
  exact absurd hmem (by decide)

theorem Decimal.hyphen_not_mem_text {n : Int} (h : 0 ≤ n) : '-' ∉ (text n).toList := by
  unfold text
  rw [String.toList_ofList]
  intro hmem
  cases n with
  | ofNat n => exact absurd (isDigit_of_mem_digits hmem) (by decide)
  | negSucc n => exact absurd h (by omega)

theorem Decimal.text_inj {n k : Int} (hn : 0 ≤ n) (hk : 0 ≤ k) (h : text n = text k) : n = k := by
  have hchars := congrArg String.toList h
  unfold text at hchars
  rw [String.toList_ofList, String.toList_ofList] at hchars
  cases n with
  | negSucc n => exact absurd hn (by omega)
  | ofNat n =>
    cases k with
    | negSucc k => exact absurd hk (by omega)
    | ofNat k =>
      have hvalue := congrArg value hchars
      unfold integer at hvalue
      rw [value_digits, value_digits] at hvalue
      rw [hvalue]

theorem Decimal.length_text_le {n : Int} {k : Nat} (hk : 0 < k) (hn : 0 ≤ n)
    (h : n < Decimal.tenTo k) : (text n).length ≤ k := by
  cases n with
  | negSucc n => exact absurd hn (by omega)
  | ofNat n =>
    rw [text, String.length_ofList, integer, length_digits_le_iff hk]
    exact Int.ofNat_lt.mp h

/-- Texts are split in one way only in front of a last part without the separator. -/
theorem append_cons_inj {c : Char} {as as' bs bs' : List Char} (hbs : c ∉ bs) (hbs' : c ∉ bs')
    (h : as ++ c :: bs = as' ++ c :: bs') : as = as' ∧ bs = bs' := by
  rcases List.append_eq_append_iff.mp h with ⟨front, rfl, hfront⟩ | ⟨front, rfl, hfront⟩
  · cases front with
    | nil => exact ⟨(List.append_nil _).symm, (List.cons.inj hfront).2⟩
    | cons d rest =>
      rw [(List.cons.inj hfront).2] at hbs
      exact absurd (List.mem_append_right _ List.mem_cons_self) hbs
  · cases front with
    | nil => exact ⟨List.append_nil _, (List.cons.inj hfront).2.symm⟩
    | cons d rest =>
      rw [(List.cons.inj hfront).2] at hbs'
      exact absurd (List.mem_append_right _ List.mem_cons_self) hbs'

/-! ## Names -/

namespace Revision

theorem toList_nameFor (stem hash : String) (n : Int) :
    (nameFor stem hash n).toList = (stem.toList.take stemLength ++ '-' :: hash.toList) ++
      '-' :: (Decimal.text n).toList := by
  unfold nameFor
  simp only [String.toList_append, String.toList_ofList, List.append_assoc]
  rfl

/-- **What a name tells.**  Names with digests in them are equal only if all their parts are. -/
theorem nameFor_inj {stem stem' : String} {digest digest' : UInt32} {n n' : Int}
    (hstem : stem.length ≤ stemLength) (hstem' : stem'.length ≤ stemLength)
    (hn : 0 ≤ n) (hn' : 0 ≤ n')
    (h : nameFor stem (Digest.shown digest) n = nameFor stem' (Digest.shown digest') n') :
    stem = stem' ∧ Digest.shown digest = Digest.shown digest' ∧ n = n' := by
  have hchars := congrArg String.toList h
  rw [toList_nameFor, toList_nameFor] at hchars
  obtain ⟨hfront, hnumber⟩ := append_cons_inj (Decimal.hyphen_not_mem_text hn)
    (Decimal.hyphen_not_mem_text hn') hchars
  obtain ⟨hstems, hdigests⟩ := append_cons_inj (Digest.hyphen_not_mem_shown digest)
    (Digest.hyphen_not_mem_shown digest') hfront
  rw [List.take_of_length_le (by rwa [String.length_toList]),
    List.take_of_length_le (by rwa [String.length_toList])] at hstems
  exact ⟨String.toList_injective hstems, String.toList_injective hdigests,
    Decimal.text_inj hn hn' (String.toList_injective hnumber)⟩

theorem length_nameFor_le (stem hash : String) (n : Int) :
    (nameFor stem hash n).length ≤
      stemLength + 1 + hash.length + 1 + (Decimal.text n).length := by
  have hstem := List.length_take_le stemLength stem.toList
  rw [← String.length_toList, toList_nameFor]
  simp only [List.length_append, List.length_cons, String.length_toList]
  omega

/-- **Names are unambiguous and within the limit.**  Stems may hold anything, what looks like a
digest and a number too: where they are not cut, names of non-negative numbers are equal only if
stems, digests and numbers are.  However long a stem is, with a number of up to twenty-one digits
the name has no more than 253 characters. -/
theorem nameFor_tells_parts :
    (∀ stem stem' hash hash' n n', stem.length ≤ 220 → stem'.length ≤ 220 → Digest.IsHash hash →
      Digest.IsHash hash' → 0 ≤ n → 0 ≤ n' → nameFor stem hash n = nameFor stem' hash' n' →
        stem = stem' ∧ hash = hash' ∧ n = n') ∧
    ∀ stem hash n, Digest.IsHash hash → 0 ≤ n → n < 10 ^ 21 →
      (nameFor stem hash n).length ≤ 253 := by
  constructor
  · intro stem stem' hash hash' n n' hstem hstem' hhash hhash' hn hn' hname
    obtain ⟨digest, rfl⟩ := hhash.exists_shown
    obtain ⟨digest', rfl⟩ := hhash'.exists_shown
    exact nameFor_inj hstem hstem' hn hn' hname
  · intro stem hash n hhash hn hlt
    obtain ⟨digest, rfl⟩ := hhash.exists_shown
    have hname := length_nameFor_le stem (Digest.shown digest) n
    have hdigest := Digest.length_shown_le digest
    have hnumber : (Decimal.text n).length ≤ 21 := Decimal.length_text_le (by decide) hn hlt
    have hstem : stemLength = 220 := rfl
    omega

/-- A stem that is a name itself, and one that has to be cut; the digest is that of no bytes. -/
theorem nameFor_tells_parts_nested :
    nameFor "web-65bb57b6b5-1" "65bb57b6b5" 2 =
        nameFor (nameFor "web" (Digest.shown Digest.initial) 1) (Digest.shown Digest.initial) 2 ∧
      "web-65bb57b6b5-1" = nameFor "web" (Digest.shown Digest.initial) 1 ∧
      nameFor "web-65bb57b6b5-1" "65bb57b6b5" 2 ≠ nameFor "web" "65bb57b6b5" 2 ∧
      (nameFor (String.ofList (List.replicate 300 'w')) "65bb57b6b5" (10 ^ 21 - 1)).length ≤
        253 := by
  have hshown : Digest.shown Digest.initial = "65bb57b6b5" := by decide +kernel
  have hhash : Digest.IsHash "65bb57b6b5" := ⟨.standard, [], .null, by rw [← hshown]; rfl⟩
  have hname : nameFor "web-65bb57b6b5-1" "65bb57b6b5" 2 =
      nameFor (nameFor "web" (Digest.shown Digest.initial) 1)
        (Digest.shown Digest.initial) 2 := by decide +kernel
  obtain ⟨htells, hlength⟩ := nameFor_tells_parts
  have hparts := htells _ _ _ _ _ _ (by decide) (by decide +kernel) hhash (hshown ▸ hhash)
    (by decide) (by decide) hname
  refine ⟨hname, hparts.1, ?_, hlength _ _ _ hhash (by decide) (by decide)⟩
  intro h
  have hstem := (htells _ _ _ _ _ _ (by decide) (by decide) hhash hhash (by decide) (by decide) h).1
  exact absurd hstem (by decide)

end Revision

end RolloutLedger
