import Mathlib.Algebra.Group.Nat.Defs
import Mathlib.Data.List.Forall2
import Mathlib.Order.WellFounded
import Scriptlet.Proofs.Each
import Scriptlet.Proofs.Expr.Form
import Scriptlet.Proofs.Text.Cut

/-!
The grammar of expressions. The forms of a text take turns, and the text is read in the form whose
turn comes first; a text that is written in no form is an error. What a form is read as is said by
relations, which leave open how a text is taken apart.
-/

namespace Scriptlet.Expr.Form

inductive PieceReads (call : Text) : Text → Except ReadError Argument → Prop where
  | empty : PieceReads call [] (.error (.emptyArgument call))
  | integer {piece : Text} : Decimal.isDigits piece = true → Decimal.value piece < 2 ^ 63 →
    PieceReads call piece (.ok (.integer (Decimal.value piece)))
  | outOfRange {piece : Text} : Decimal.isDigits piece = true →
    2 ^ 63 ≤ Decimal.value piece → PieceReads call piece (.error (.integerOutOfRange piece))
  | name {piece : Text} : piece ≠ [] → Decimal.isDigits piece = false →
    PieceReads call piece (.ok (.name piece))

/-- What a form is read as. Of several bad pieces in a call the leftmost one is complained about. -/
inductive Reads : Form → Except ReadError Shape → Prop where
  | integer {row : Text} : Decimal.value row < 2 ^ 63 →
    Reads (digits row) (.ok (.integer (Decimal.value row)))
  | outOfRange {row : Text} : 2 ^ 63 ≤ Decimal.value row →
    Reads (digits row) (.error (.integerOutOfRange row))
  | name {word : Text} : Reads (letters word) (.ok (.name word))
  | member {receiver : Text} {m : Member} : Reads (member receiver m) (.ok (m.shape receiver))
  | index {receiver inside : Text} : Reads (index receiver inside) (.ok (.index receiver inside))
  | remainder {left right : Text} : Reads (remainder left right) (.ok (.remainder left right))
  | call {function inside : Text} {pieces : List Text} {arguments : List Argument} :
    Text.CutInto ',' inside pieces →
    List.Forall₂ (fun p a => PieceReads (call function inside).text p (.ok a)) pieces arguments →
    Reads (call function inside) (.ok (.call function arguments))
  | badPiece {function inside bad : Text} {before after : List Text} {arguments : List Argument}
    {reason : ReadError} :
    Text.CutInto ',' inside (before ++ bad :: after) →
    List.Forall₂ (fun p a => PieceReads (call function inside).text p (.ok a)) before arguments →
    PieceReads (call function inside).text bad (.error reason) →
    Reads (call function inside) (.error reason)

variable {t : Text}

theorem readDigits_eq (row : Text) :
    readDigits row = if Decimal.value row < 2 ^ 63 then .ok (Decimal.value row)
      else .error (.integerOutOfRange row) := by
  unfold readDigits
  by_cases h : Decimal.value row < 2 ^ 63
  · rw [if_pos h, if_pos (by omega)]
  · rw [if_neg h, if_neg (by omega)]

theorem pieceReads_iff {call piece : Text} {r : Except ReadError Argument} :
    PieceReads call piece r ↔ Argument.ofText call piece = r := by
  constructor
  · intro h
    cases h with
    | empty => rfl
    | integer hdigits hvalue =>
      have hne : piece ≠ [] := (Text.isAll_iff.mp hdigits).1
      rw [Argument.ofText, if_neg hne, if_pos hdigits, readDigits_eq, if_pos hvalue]
      rfl
    | outOfRange hdigits hvalue =>
      have hne : piece ≠ [] := (Text.isAll_iff.mp hdigits).1
      rw [Argument.ofText, if_neg hne, if_pos hdigits, readDigits_eq, if_neg (by omega)]
      rfl
    | name hne hdigits =>
      rw [Argument.ofText, if_neg hne, hdigits]
      rfl
  · rintro rfl
    unfold Argument.ofText
    split
    · rename_i hempty
      subst hempty
      exact .empty
    split
    · rename_i hdigits
      rw [readDigits_eq]
      split
      · rename_i hvalue
        exact .integer hdigits hvalue
      · rename_i hvalue
        exact .outOfRange hdigits (by omega)
    · rename_i hne hdigits
      exact .name hne (Bool.eq_false_iff.mpr hdigits)

theorem reads_digits_iff {row : Text} {r : Except ReadError Shape} :
    (digits row).Reads r ↔ (readDigits row).map .integer = r := by
  rw [readDigits_eq]
  constructor
  · intro h
    cases h with
    | integer hvalue =>
      rw [if_pos hvalue]
      rfl
    | outOfRange hvalue =>
      rw [if_neg (by omega)]
      rfl
  · rintro rfl
    split
    · rename_i hvalue
      exact .integer hvalue
    · rename_i hvalue
      exact .outOfRange (by omega)

theorem reads_call_iff {function inside : Text} {r : Except ReadError Shape} :
    (call function inside).Reads r ↔
      ((Text.pieces ',' inside).mapM (Argument.ofText (call function inside).text)).map
        (.call function) = r := by
  constructor
  · intro h
    cases h with
    | call hpieces harguments =>
      simp only [pieceReads_iff] at harguments
      rw [Text.pieces_eq_iff.mpr hpieces, mapM_eq_ok_iff.mpr harguments]
      rfl
    | badPiece hpieces hbefore hbad =>
      simp only [pieceReads_iff] at hbefore hbad
      rw [Text.pieces_eq_iff.mpr hpieces, mapM_eq_error_iff.mpr ⟨_, _, _, _, rfl, hbefore, hbad⟩]
      rfl
  · rintro rfl
    have hpieces := Text.cutInto_pieces ',' inside
    cases hread : (Text.pieces ',' inside).mapM (Argument.ofText (call function inside).text) with
    | ok arguments =>
      have harguments := mapM_eq_ok_iff.mp hread
      simp only [← pieceReads_iff] at harguments
      exact .call hpieces harguments
    | error reason =>
      obtain ⟨before, bad, after, arguments, hsplit, hbefore, hbad⟩ := mapM_eq_error_iff.mp hread
      simp only [← pieceReads_iff] at hbefore hbad
      rw [hsplit] at hpieces
      exact .badPiece hpieces hbefore hbad

/-! ### The first form -/

/-- A form in which a text is written, and no other whose turn is earlier. -/
structure First (form : Form) (t : Text) : Prop where
  writes : form.Writes t
  le : ∀ other : Form, other.Writes t → form.turn ≤ other.turn

theorem exists_first {form : Form} (h : form.Writes t) : ∃ first : Form, first.First t := by
  obtain ⟨first, hfirst, hleast⟩ :=
    (InvImage.wf turn Nat.lt_wfRel.wf).has_min {form : Form | form.Writes t} ⟨form, h⟩
  exact ⟨first, hfirst, fun other hother => Nat.le_of_not_lt (hleast other hother)⟩

namespace First

variable {form : Form} {r : Except ReadError Shape}

theorem not_writes {other : Form} (h : form.First t) (hother : other.Writes t) :
    ¬ other.turn < form.turn :=
  Nat.not_lt.mpr (h.le other hother)

/-- A text is read in its first form. -/
theorem reads_iff (h : form.First t) : form.Reads r ↔ Shape.ofText t = r := by
  cases form with
  | digits row =>
    obtain rfl : row = t := h.writes.text_eq
    have hdigits : Decimal.isDigits row = true := h.writes.proper
    rw [reads_digits_iff, Shape.ofText, if_pos hdigits]
  | letters word =>
    obtain rfl : word = t := h.writes.text_eq
    have hdigits : Decimal.isDigits word ≠ true := by
      intro hall
      have hwrites : (digits word).Writes word := ⟨hall, rfl⟩
      exact h.not_writes hwrites (by simp [turn])
    have hletters : Text.isAll Char.isAlpha word = true := h.writes.proper
    rw [Shape.ofText, if_neg hdigits, if_pos hletters]
    constructor
    · rintro ⟨⟩
      rfl
    · rintro rfl
      exact .name
  | member receiver m =>
    rw [Shape.ofText_of_member (member?_iff.mpr ⟨receiver, m, h.writes, rfl⟩)]
    constructor
    · rintro ⟨⟩
      rfl
    · rintro rfl
      exact .member
  | index receiver inside =>
    rw [Shape.ofText_of_index (index?_iff.mpr ⟨receiver, inside, h.writes, rfl⟩)]
    constructor
    · rintro ⟨⟩
      rfl
    · rintro rfl
      exact .index
  | remainder left right =>
    have hmember : Shape.member? t = none :=
      member?_eq_none_iff.mpr fun _ _ hwrites => h.not_writes hwrites (by simp [turn])
    have hindex : Shape.index? t = none :=
      index?_eq_none_iff.mpr fun _ _ hwrites => h.not_writes hwrites (by simp [turn])
    rw [Shape.ofText_of_remainder hmember hindex
      (remainder?_iff.mpr ⟨left, right, h.writes, rfl⟩)]
    constructor
    · rintro ⟨⟩
      rfl
    · rintro rfl
      exact .remainder
  | call function inside =>
    have hmember : Shape.member? t = none :=
      member?_eq_none_iff.mpr fun _ _ hwrites => h.not_writes hwrites (by simp [turn])
    have hindex : Shape.index? t = none :=
      index?_eq_none_iff.mpr fun _ _ hwrites => h.not_writes hwrites (by simp [turn])
    have hremainder : Shape.remainder? t = none :=
      remainder?_eq_none_iff.mpr fun _ _ hwrites => h.not_writes hwrites (by simp [turn])
    rw [reads_call_iff, h.writes.text_eq,
      Shape.ofText_of_call hmember hindex hremainder (callParts?_iff.mpr h.writes)]

end First

theorem ofText_of_no_form (h : ∀ form : Form, ¬ form.Writes t) :
    Shape.ofText t = .error (.unsupportedExpression t) := by
  have hdigits : Decimal.isDigits t ≠ true := fun hall => h (digits t) ⟨hall, rfl⟩
  have hletters : Text.isAll Char.isAlpha t ≠ true := fun hall => h (letters t) ⟨hall, rfl⟩
  rw [Shape.ofText, if_neg hdigits, if_neg hletters, member?_eq_none_iff.mpr fun _ _ => h _,
    index?_eq_none_iff.mpr fun _ _ => h _, remainder?_eq_none_iff.mpr fun _ _ => h _,
    callParts?_eq_none_iff.mpr fun _ _ => h _]
  rfl

/-- The shape of a text is what the first of its forms is read as, and a text that is written in no
form is an error. The forms take turns in the order rows of digits, rows of letters, member accesses,
indexes, remainders, calls; a text is put together in one way at most from the parts of each. -/
theorem shape_of_first_form (t : Text) :
    (∀ outcome, Shape.ofText t = outcome ↔
      (∃ form : Form, form.First t ∧ form.Reads outcome) ∨
      ((∀ form : Form, ¬ form.Writes t) ∧ outcome = .error (.unsupportedExpression t))) ∧
    ∀ form other : Form, form.Writes t → other.Writes t → form.turn = other.turn → form = other := by
  refine ⟨fun outcome => ⟨?_, ?_⟩, fun _ _ => eq_of_writes⟩
  · rintro rfl
    by_cases hnone : ∀ form : Form, ¬ form.Writes t
    · exact .inr ⟨hnone, ofText_of_no_form hnone⟩
    · simp only [not_forall, not_not] at hnone
      obtain ⟨form, hwrites⟩ := hnone
      obtain ⟨first, hfirst⟩ := exists_first hwrites
      exact .inl ⟨first, hfirst, hfirst.reads_iff.mpr rfl⟩
  · rintro (⟨form, hfirst, hreads⟩ | ⟨hnone, rfl⟩)
    · exact hfirst.reads_iff.mp hreads
    · exact ofText_of_no_form hnone

/-- A text in two forms: the index has the earlier turn, and there is one way only to read the text
as a remainder. -/
theorem shape_of_first_form_overlap :
    let t := "a[0]%b[1]".toList
    (index ['a'] "0]%b[1".toList).Writes t ∧ Shape.ofText t = .ok (.index ['a'] "0]%b[1".toList) ∧
      (remainder "a[0]".toList "b[1]".toList).Writes t ∧
      ∀ left right, (remainder left right).Writes t →
        left = "a[0]".toList ∧ right = "b[1]".toList := by
  intro t
  have hindex : (index ['a'] "0]%b[1".toList).Writes t :=
    ⟨⟨by decide, by decide, by decide⟩, by decide⟩
  have hremainder : (remainder "a[0]".toList "b[1]".toList).Writes t :=
    ⟨⟨by decide, by decide, by decide, by decide⟩, by decide⟩
  refine ⟨hindex, by decide +kernel, hremainder, fun left right hwrites => ?_⟩
  have hsame := (shape_of_first_form t).2 _ _ hwrites hremainder rfl
  cases hsame
  exact ⟨rfl, rfl⟩

end Scriptlet.Expr.Form
