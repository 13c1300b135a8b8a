import Scriptlet.Proofs.Text.Cut
import Scriptlet.Text.Pattern

namespace Scriptlet

namespace Text

def isName : Text → Bool
  | [] => false
  | c :: t => isNameStart c && t.all isNamePart

theorem isNamePart_of_isNameStart {c : Char} (h : isNameStart c = true) : isNamePart c = true := by
  simp only [isNameStart, Bool.or_eq_true, beq_iff_eq] at h
  rcases h with (halpha | rfl) | rfl
  · have hword : isWord c = true := isWord_of_isAlphanum (by simp [Char.isAlphanum, halpha])
    simp [isNamePart, hword]
  · decide
  · decide

theorem isNamePart_of_isName {t : Text} (h : isName t = true) : ∀ c ∈ t, isNamePart c = true := by
  cases t with
  | nil => cases h
  | cons c t =>
    simp only [isName, Bool.and_eq_true, List.all_eq_true] at h
    intro x hx
    rcases List.mem_cons.mp hx with rfl | hx
    · exact isNamePart_of_isNameStart h.1
    · exact h.2 x hx

theorem le_of_isAlphanum {c : Char} (h : c.isAlphanum = true) : 48 ≤ c.toNat := by
  delta Char.isAlphanum Char.isAlpha Char.isUpper Char.isLower Char.isDigit at h
  simp only [Bool.or_eq_true, Bool.and_eq_true, decide_eq_true_eq, UInt32.le_iff_toNat_le,
    ge_iff_le] at h
  have htoNat : c.toNat = c.val.toNat := rfl
  have hfirst : ('0' : Char).val.toNat = 48 ∧ ('A' : Char).val.toNat = 65 ∧
      ('a' : Char).val.toNat = 97 := by decide
  omega

/-- Blank space is no part of an identifier: in ASCII it comes before all letters and digits, and
beyond the two tables have nothing in common. -/
theorem isNamePart_of_isBlank {c : Char} (h : isBlank c = true) : isNamePart c = false := by
  have hlow : ∀ r ∈ blanks, r.2 ≤ 0x20 ∨ 0x80 ≤ r.1 := by decide
  have hapart : ∀ r ∈ blanks, ∀ s ∈ wideWordRanges, r.2 < s.1 ∨ s.2 < r.1 := by decide +kernel
  obtain ⟨r, hr, hfirst, hlast⟩ := Ranges.has_iff.mp h
  have hdollar : c ≠ '$' := by
    rintro rfl
    exact absurd h (by decide)
  have hword : isWord c = false := by
    unfold isWord
    split
    · rename_i hascii
      have hspace : c.toNat ≤ 0x20 := by
        rcases hlow r hr with hle | hge <;> omega
      have hscore : c ≠ '_' := by
        rintro rfl
        exact absurd h (by decide)
      have halphanum : c.isAlphanum = false := by
        rw [Bool.eq_false_iff]
        intro halphanum
        have := le_of_isAlphanum halphanum
        omega
      simp [halphanum, hscore]
    · rw [Bool.eq_false_iff]
      intro hwide
      obtain ⟨s, hs, hfirst', hlast'⟩ := Ranges.has_iff.mp hwide
      rcases hapart r hr s hs with hlt | hlt <;> omega
  simp [isNamePart, hword, hdollar]

theorem isBlank_of_isNamePart {c : Char} (h : isNamePart c = true) : isBlank c = false := by
  rw [Bool.eq_false_iff]
  intro hblank
  rw [isNamePart_of_isBlank hblank] at h
  cases h

theorem isBlank_of_isDigit {c : Char} (h : c.isDigit = true) : isBlank c = false := by
  apply isBlank_of_isNamePart
  have hword : isWord c = true := isWord_of_isAlphanum (by simp [Char.isAlphanum, h])
  simp [isNamePart, hword]

end Text

namespace Decimal

theorem digit_or_minus_of_mem_ofInt {n : Int} {c : Char} (hc : c ∈ ofInt n) :
    c.isDigit = true ∨ c = '-' := by
  have hdigits := (Text.isAll_iff.mp (isDigits_ofNat n.natAbs)).2
  unfold ofInt at hc
  split at hc
  · rcases List.mem_cons.mp hc with rfl | hc
    · exact .inr rfl
    · exact .inl (hdigits c hc)
  · exact .inl (hdigits c hc)

theorem not_mem_ofInt {n : Int} {c : Char} (hdigit : c.isDigit = false) (hminus : c ≠ '-') :
    c ∉ ofInt n := by
  intro hc
  rcases digit_or_minus_of_mem_ofInt hc with h | h
  · rw [hdigit] at h
    cases h
  · exact hminus h

theorem signed?_of_isDigits {t : Text} (hdigits : isDigits t = true)
    (hrange : InRange (value t)) : signed? t = some (value t : Int) := by
  cases t with
  | nil => cases hdigits
  | cons c t =>
    have hc := (Text.isAll_iff.mp hdigits).2 c List.mem_cons_self
    have hplus : c ≠ '+' := by
      rintro rfl
      cases hc
    have hminus : c ≠ '-' := by
      rintro rfl
      cases hc
    simp [signed?, hplus, hminus, hdigits, hrange]

theorem signed?_of_minus {digits : Text} (hdigits : isDigits digits = true)
    (hrange : InRange (-(value digits : Int))) :
    signed? ('-' :: digits) = some (-(value digits : Int)) := by
  simp [signed?, hdigits, hrange]

theorem signed?_of_plus {digits : Text} (hdigits : isDigits digits = true)
    (hrange : InRange (value digits)) : signed? ('+' :: digits) = some (value digits : Int) := by
  simp [signed?, hdigits, hrange]

/-- That a text is a number in range: one or more digits, after a minus sign or not. -/
inductive Denotes : Text → Int → Prop where
  | digits {t : Text} : isDigits t = true → InRange (value t) → Denotes t (value t)
  | minus {t : Text} : isDigits t = true → InRange (-(value t : Int)) →
    Denotes ('-' :: t) (-(value t : Int))

def HasPlus (t : Text) (n : Int) : Prop :=
  ∃ digits, t = '+' :: digits ∧ isDigits digits = true ∧ n = value digits ∧ InRange n

theorem not_hasPlus_of_denotes {t : Text} {m n : Int} (h : Denotes t m) : ¬ HasPlus t n := by
  rintro ⟨digits, ht, -⟩
  cases h with
  | digits hdigits =>
    have hplus := (Text.isAll_iff.mp hdigits).2 '+' (ht ▸ List.mem_cons_self)
    cases hplus
  | minus => cases ht

/-- What is read after the sign, if there is one, has to be digits that stand for a number in range. -/
theorem denotes_or_hasPlus {t : Text} {n : Int} (h : signed? t = some n) :
    Denotes t n ∨ HasPlus t n := by
  unfold signed? at h
  split at h
  rename_i negative digits hsign
  simp only [Option.ite_none_right_eq_some, Option.some.injEq] at h
  obtain ⟨⟨hdigits, hrange⟩, rfl⟩ := h
  split at hsign <;> cases hsign
  · exact .inl (.minus hdigits hrange)
  · exact .inr ⟨digits, rfl, hdigits, rfl, hrange⟩
  · exact .inl (.digits hdigits hrange)

theorem signed?_eq_some_iff {t : Text} {n : Int} :
    signed? t = some n ↔ Denotes t n ∨ HasPlus t n := by
  constructor
  · exact denotes_or_hasPlus
  · rintro (h | ⟨digits, rfl, hdigits, rfl, hrange⟩)
    · cases h with
      | digits hdigits hrange => exact signed?_of_isDigits hdigits hrange
      | minus hdigits hrange => exact signed?_of_minus hdigits hrange
    · exact signed?_of_plus hdigits hrange

theorem signed?_ofInt {n : Int} (hrange : InRange n) : signed? (ofInt n) = some n := by
  have hdigits := isDigits_ofNat n.natAbs
  unfold ofInt
  split
  · have hvalue : -(value (ofNat n.natAbs) : Int) = n := by
      rw [value_ofNat]
      omega
    rw [signed?_of_minus hdigits (by rwa [hvalue]), hvalue]
  · have hvalue : (value (ofNat n.natAbs) : Int) = n := by
      rw [value_ofNat]
      omega
    rw [signed?_of_isDigits hdigits (by rwa [hvalue]), hvalue]

end Decimal

end Scriptlet
