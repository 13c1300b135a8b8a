import Mathlib.Data.List.Forall2
import Scriptlet.Console.Literal
import Scriptlet.Proofs.Console.ReadBack

/-!
Which value a typed text is. What stands between square brackets is an array, digits with or without a
minus sign are an integer if that is in range, and everything else is a text, without its quotes if it
has any; so it is documented. The reader departs from this in one place: it takes a plus sign before
the digits, too. Where no such number is typed at any level of nesting, the value is the documented
one (`typed_values_classified`).
-/

namespace Scriptlet.Console.Literal

def Bracketed (t inside : Text) : Prop :=
  t = '[' :: inside ++ [']']

/-- That a text is another one between quotes of one kind, or the other one itself if there are no
such quotes around it. -/
inductive Unquoted (t : Text) : Text → Prop where
  | quoted {quote : Char} {inside : Text} : quote = '"' ∨ quote = '\'' →
    t = quote :: inside ++ [quote] → Unquoted t inside
  | bare : (∀ quote inside, quote = '"' ∨ quote = '\'' → t ≠ quote :: inside ++ [quote]) →
    Unquoted t t

inductive Documented : Text → Literal → Prop where
  | emptyArray {t inside : Text} : Bracketed (Text.trim t) inside →
    Text.isBlankText inside = true → Documented t (.array [])
  | array {t inside : Text} {items : List Literal} : Bracketed (Text.trim t) inside →
    Text.isBlankText inside = false → List.Forall₂ Documented (topLevelPieces inside) items →
    Documented t (.array items)
  | integer {t : Text} {n : Int} : (∀ inside, ¬ Bracketed (Text.trim t) inside) →
    Decimal.Denotes (Text.trim t) n → Documented t (.integer n)
  | text {t s : Text} : (∀ inside, ¬ Bracketed (Text.trim t) inside) →
    (∀ n, ¬ Decimal.Denotes (Text.trim t) n) → Unquoted (Text.trim t) s → Documented t (.text s)

/-- The texts that are read when a text is: the text itself, and the pieces of what is between
brackets. -/
inductive ReadWithin : Text → Text → Prop where
  | self {t : Text} : ReadWithin t t
  | piece {t inside p q : Text} : Bracketed (Text.trim t) inside →
    Text.isBlankText inside = false → p ∈ topLevelPieces inside → ReadWithin p q → ReadWithin t q

variable {t inside : Text}

/-! ### One level -/

theorem bracketed_iff : Bracketed t inside ↔ between? '[' ']' t = some inside :=
  between?_eq_some_iff.symm

theorem ofText_of_bracketed (h : Bracketed (Text.trim t) inside) :
    ofText t = .array (listOfText inside) :=
  ofText_of_brackets (bracketed_iff.mp h)

theorem ofText_of_not_bracketed (h : ∀ inside, ¬ Bracketed (Text.trim t) inside) :
    ofText t = ofWord (Text.trim t) := by
  apply ofText_of_no_brackets
  rw [Option.eq_none_iff_forall_ne_some]
  exact fun inside hinside => h inside (bracketed_iff.mpr hinside)

theorem unquoted_unquoted (t : Text) : Unquoted t (unquoted t) := by
  unfold unquoted
  split
  · rename_i inside h
    simp only [Option.orElse_eq_orElse, Option.orElse_eq_or, Option.or_eq_some_iff,
      between?_eq_some_iff] at h
    rcases h with h | ⟨-, h⟩
    · exact .quoted (.inl rfl) h
    · exact .quoted (.inr rfl) h
  · rename_i h
    rw [Option.orElse_eq_orElse, Option.orElse_eq_or, Option.or_eq_none_iff] at h
    simp only [Option.eq_none_iff_forall_ne_some, ne_eq, between?_eq_some_iff] at h
    refine .bare ?_
    rintro quote inside (rfl | rfl)
    · exact h.1 inside
    · exact h.2 inside

/-- There is one way only to take the quotes off. -/
theorem Unquoted.unique {s s' : Text} (h : Unquoted t s) (h' : Unquoted t s') : s = s' := by
  cases h with
  | quoted hquote ht =>
    cases h' with
    | quoted _ ht' =>
      have hsame := ht.symm.trans ht'
      simp only [List.cons_append, List.cons.injEq] at hsame
      exact (List.append_inj' hsame.2 rfl).1
    | bare hnone => exact absurd ht (hnone _ _ hquote)
  | bare hnone =>
    cases h' with
    | quoted hquote ht => exact absurd ht (hnone _ _ hquote)
    | bare _ => rfl

theorem unquoted_eq_iff {s : Text} : unquoted t = s ↔ Unquoted t s :=
  ⟨fun h => h ▸ unquoted_unquoted t, fun h => (unquoted_unquoted t).unique h⟩

theorem ofWord_eq_integer_iff {n : Int} :
    ofWord t = .integer n ↔ Decimal.Denotes t n ∨ Decimal.HasPlus t n := by
  rw [← Decimal.signed?_eq_some_iff, ofWord]
  cases Decimal.signed? t <;> simp

theorem ofWord_eq_text_iff {s : Text} :
    ofWord t = .text s ↔ (∀ n, ¬ Decimal.Denotes t n ∧ ¬ Decimal.HasPlus t n) ∧ Unquoted t s := by
  simp only [← not_or, ← Decimal.signed?_eq_some_iff, ← Option.eq_none_iff_forall_ne_some, ofWord,
    ← unquoted_eq_iff]
  cases Decimal.signed? t <;> simp

theorem ofWord_ne_array {items : List Literal} : ofWord t ≠ .array items := by
  unfold ofWord
  split <;> simp

theorem Bracketed.unique {inside' : Text} (h : Bracketed t inside) (h' : Bracketed t inside') :
    inside = inside' :=
  Option.some.inj ((bracketed_iff.mp h).symm.trans (bracketed_iff.mp h'))

/-- A text that begins with a plus sign does not begin with a bracket. -/
theorem not_bracketed_of_hasPlus {n : Int} (h : Decimal.HasPlus t n) (inside : Text) :
    ¬ Bracketed t inside := by
  obtain ⟨digits, rfl, -⟩ := h
  intro hbracketed
  cases hbracketed

/-! ### All levels -/

theorem documented_iff_of_bracketed (h : Bracketed (Text.trim t) inside) {v : Literal} :
    Documented t v ↔ ∃ items, v = .array items ∧
      if Text.isBlankText inside then items = []
      else List.Forall₂ Documented (topLevelPieces inside) items := by
  constructor
  · intro hv
    cases hv with
    | emptyArray h' hblank =>
      obtain rfl := h.unique h'
      exact ⟨[], rfl, by rw [if_pos hblank]⟩
    | @array _ _ items h' hblank hitems =>
      obtain rfl := h.unique h'
      exact ⟨items, rfl, by rwa [if_neg (by simp [hblank])]⟩
    | integer hnone | text hnone => exact absurd h (hnone inside)
  · rintro ⟨items, rfl, hitems⟩
    split at hitems
    · rename_i hblank
      subst hitems
      exact .emptyArray h hblank
    · rename_i hblank
      exact .array h (Bool.eq_false_iff.mpr hblank) hitems

theorem documented_iff_of_not_bracketed (h : ∀ inside, ¬ Bracketed (Text.trim t) inside)
    {v : Literal} :
    Documented t v ↔ (∃ n, v = .integer n ∧ Decimal.Denotes (Text.trim t) n) ∨
      ∃ s, v = .text s ∧ (∀ n, ¬ Decimal.Denotes (Text.trim t) n) ∧ Unquoted (Text.trim t) s := by
  constructor
  · intro hv
    cases hv with
    | emptyArray h' | array h' => exact absurd h' (h _)
    | @integer _ n _ hn => exact .inl ⟨n, rfl, hn⟩
    | @text _ s _ hnone hs => exact .inr ⟨s, rfl, hnone, hs⟩
  · rintro (⟨n, rfl, hn⟩ | ⟨s, rfl, hnone, hs⟩)
    · exact .integer h hn
    · exact .text h hnone hs

theorem forall₂_iff_map_eq {R : Text → Literal → Prop} {f : Text → Literal} {ts : List Text}
    (hR : ∀ t ∈ ts, ∀ v, R t v ↔ f t = v) {vs : List Literal} :
    List.Forall₂ R ts vs ↔ ts.map f = vs := by
  rw [forall₂_congr_of_mem fun t ht v _ => hR t ht v, ← List.forall₂_eq_eq_eq,
    List.forall₂_map_left_iff]

theorem length_lt_of_piece {p : Text} (h : Bracketed (Text.trim t) inside)
    (hp : p ∈ topLevelPieces inside) : p.length < t.length :=
  calc p.length ≤ inside.length := length_le_of_mem_topLevelPieces hp
    _ < (Text.trim t).length := length_of_between? (bracketed_iff.mp h)
    _ ≤ t.length := length_trim_le t

/-- Plus signs are the only departure from what is documented. The recursion is on the length of the
text, since the pieces of what is between brackets are shorter. -/
theorem documented_iff_of_no_plus {t : Text}
    (hplus : ∀ p, ReadWithin t p → ∀ n, ¬ Decimal.HasPlus (Text.trim p) n) (v : Literal) :
    Documented t v ↔ ofText t = v := by
  by_cases hbracketed : ∃ inside, Bracketed (Text.trim t) inside
  · obtain ⟨inside, hinside⟩ := hbracketed
    rw [documented_iff_of_bracketed hinside, ofText_of_bracketed hinside, listOfText]
    split
    · simp [eq_comm]
    · rename_i hblank
      have hpieces : ∀ p ∈ topLevelPieces inside, ∀ w, Documented p w ↔ ofText p = w := by
        intro p hp w
        have hshorter : p.length < t.length := length_lt_of_piece hinside hp
        apply documented_iff_of_no_plus
        intro q hq
        exact hplus q (.piece hinside (Bool.eq_false_iff.mpr hblank) hp hq)
      simp only [forall₂_iff_map_eq hpieces]
      constructor
      · rintro ⟨items, rfl, rfl⟩
        rfl
      · rintro rfl
        exact ⟨_, rfl, rfl⟩
  · have hnone : ∀ inside, ¬ Bracketed (Text.trim t) inside := not_exists.mp hbracketed
    have hself : ∀ n, ¬ Decimal.HasPlus (Text.trim t) n := hplus t .self
    rw [documented_iff_of_not_bracketed hnone, ofText_of_not_bracketed hnone]
    cases v with
    | integer n => simp [ofWord_eq_integer_iff, hself]
    | text s => simp [ofWord_eq_text_iff, hself]
    | array items => simp [ofWord_ne_array]
termination_by t.length

/-- Where the value is the documented one, no number with a plus sign has been read at any level. -/
theorem no_plus_of_documented {p : Text} (hp : ReadWithin t p) (h : Documented t (ofText t)) (n : Int) :
    ¬ Decimal.HasPlus (Text.trim p) n := by
  induction hp with
  | @self t =>
    intro hplus
    have hnone := not_bracketed_of_hasPlus hplus
    have hinteger : ofText t = .integer n := by
      rw [ofText_of_not_bracketed hnone, ofWord_eq_integer_iff]
      exact .inr hplus
    rw [hinteger, documented_iff_of_not_bracketed hnone] at h
    rcases h with ⟨m, -, hdenotes⟩ | ⟨s, hs, -⟩
    · exact Decimal.not_hasPlus_of_denotes hdenotes hplus
    · cases hs
  | @piece t inside q _ hbracketed hblank hpiece _ ih =>
    apply ih
    rw [documented_iff_of_bracketed hbracketed, ofText_of_bracketed hbracketed, listOfText,
      if_neg (by simp [hblank])] at h
    obtain ⟨items, hitems, heach⟩ := h
    obtain rfl := array.inj hitems
    rw [if_neg (by simp [hblank]), List.forall₂_map_right_iff, List.forall₂_same] at heach
    exact heach q hpiece

/-- Every typed text is classified. With blank space taken off it is an array exactly if it stands
between square brackets, of no values if there is nothing else than blank space between them and
otherwise of the values of the pieces between the commas outside brackets; else an integer exactly if
it is a number in range, with no sign, a minus sign or a plus sign; else a text. This is the documented
value exactly if none of the texts that are read, at any level, is a number with a plus sign. -/
theorem typed_values_classified (t : Text) :
    (∀ items, ofText t = .array items ↔ ∃ inside, Bracketed (Text.trim t) inside ∧
      items = if Text.isBlankText inside then [] else (topLevelPieces inside).map ofText) ∧
    (∀ n, ofText t = .integer n ↔ (∀ inside, ¬ Bracketed (Text.trim t) inside) ∧
      (Decimal.Denotes (Text.trim t) n ∨ Decimal.HasPlus (Text.trim t) n)) ∧
    (∀ s, ofText t = .text s ↔ (∀ inside, ¬ Bracketed (Text.trim t) inside) ∧
      (∀ n, ¬ Decimal.Denotes (Text.trim t) n ∧ ¬ Decimal.HasPlus (Text.trim t) n) ∧
      Unquoted (Text.trim t) s) ∧
    ((∀ v, Documented t v ↔ ofText t = v) ↔
      ∀ p, ReadWithin t p → ∀ n, ¬ Decimal.HasPlus (Text.trim p) n) := by
  have hdocumented : (∀ v, Documented t v ↔ ofText t = v) ↔
      ∀ p, ReadWithin t p → ∀ n, ¬ Decimal.HasPlus (Text.trim p) n :=
    ⟨fun h p hp => no_plus_of_documented hp ((h _).mpr rfl), documented_iff_of_no_plus⟩
  by_cases hbracketed : ∃ inside, Bracketed (Text.trim t) inside
  · obtain ⟨inside, hinside⟩ := hbracketed
    have hsome : ¬ ∀ inside, ¬ Bracketed (Text.trim t) inside := fun h => h inside hinside
    refine ⟨fun items => ?_, fun n => ?_, fun s => ?_, hdocumented⟩
    · rw [ofText_of_bracketed hinside, array.injEq]
      constructor
      · rintro rfl
        exact ⟨inside, hinside, rfl⟩
      · rintro ⟨inside', hinside', rfl⟩
        obtain rfl := hinside.unique hinside'
        rfl
    · simp [ofText_of_bracketed hinside, hsome]
    · simp [ofText_of_bracketed hinside, hsome]
  · have hnone : ∀ inside, ¬ Bracketed (Text.trim t) inside := not_exists.mp hbracketed
    refine ⟨fun items => ?_, fun n => ?_, fun s => ?_, hdocumented⟩
    · simp [ofText_of_not_bracketed hnone, ofWord_ne_array, hnone]
    · rw [ofText_of_not_bracketed hnone, ofWord_eq_integer_iff]
      exact (and_iff_right hnone).symm
    · rw [ofText_of_not_bracketed hnone, ofWord_eq_text_iff]
      exact (and_iff_right hnone).symm

/-- Digits after a plus sign are read as an integer, and are documented as a text. -/
theorem plus_sign_taken_for_number :
    ofText "+5".toList = .integer 5 ∧ Documented "+5".toList (.text "+5".toList) := by
  have hplus : Decimal.HasPlus (Text.trim "+5".toList) 5 :=
    ⟨['5'], by decide, by decide, by decide, by decide⟩
  have hnone := not_bracketed_of_hasPlus hplus
  refine ⟨?_, .text hnone (fun n hn => ?_) (.bare ?_)⟩
  · rw [ofText_of_not_bracketed hnone, ofWord_eq_integer_iff]
    exact .inr hplus
  · exact Decimal.not_hasPlus_of_denotes hn hplus
  · rintro quote inside (rfl | rfl) h <;> cases h

end Scriptlet.Console.Literal
