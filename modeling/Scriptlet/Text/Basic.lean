/-!
Texts are lists of characters, so that cutting a text apart and putting it together again are list
operations with list laws; strings appear only where something is printed. Each cut below comes
with the one equation that says how the text was put together.
-/

namespace Scriptlet

/-- Script text, names and text values. A character is a Unicode scalar value. -/
abbrev Text := List Char

namespace Text

def after? : (start t : Text) → Option Text
  | [], t => some t
  | _ :: _, [] => none
  | c :: start, d :: t => if c = d then after? start t else none

def before? (ending t : Text) : Option Text :=
  (after? ending.reverse t.reverse).map List.reverse

def cut? (sep : Char) : Text → Option (Text × Text)
  | [] => none
  | c :: rest =>
    if c = sep then some ([], rest)
    else (cut? sep rest).map fun (left, right) => (c :: left, right)

/-- The pieces between separators: one more than there are separators, so `""` has one piece. -/
def pieces (sep : Char) (t : Text) : List Text :=
  t.splitOn sep

/-- The longest beginning whose characters are all in a class, and the rest. -/
def run (isIn : Char → Bool) (t : Text) : Text × Text :=
  (t.takeWhile isIn, t.dropWhile isIn)

/-- Whether a text has a character and all its characters are in a class. -/
def isAll (isIn : Char → Bool) (t : Text) : Bool :=
  !t.isEmpty && t.all isIn

theorem after?_eq_some_iff {start t rest : Text} : after? start t = some rest ↔ t = start ++ rest := by
  induction start generalizing t with
  | nil => simp [after?]
  | cons c start ih =>
    cases t with
    | nil => simp [after?]
    | cons d t => by_cases h : c = d <;> simp [after?, h, ih, eq_comm]

theorem before?_eq_some_iff {ending t rest : Text} :
    before? ending t = some rest ↔ t = rest ++ ending := by
  have h := @after?_eq_some_iff ending.reverse t.reverse rest.reverse
  rw [← List.reverse_append, List.reverse_inj] at h
  rw [← h, before?, Option.map_eq_some_iff]
  constructor
  · rintro ⟨r, hr, rfl⟩
    simpa using hr
  · exact fun hr => ⟨rest.reverse, hr, List.reverse_reverse rest⟩

theorem cut?_eq_some_iff {sep : Char} {t left right : Text} :
    cut? sep t = some (left, right) ↔ t = left ++ sep :: right ∧ sep ∉ left := by
  induction t generalizing left with
  | nil => simp [cut?]
  | cons c t ih =>
    by_cases h : c = sep
    · cases left <;> simp [cut?, h]
      grind
    · cases left with
      | nil => simp [cut?, h]
      | cons d left => simp [cut?, h, ih]; grind

theorem cut?_eq_none_iff {sep : Char} {t : Text} : cut? sep t = none ↔ sep ∉ t := by
  induction t with
  | nil => simp [cut?]
  | cons c t ih =>
    by_cases h : c = sep
    · simp [cut?, h]
    · simp [cut?, h, ih, Ne.symm h]

@[simp] theorem run_append (isIn : Char → Bool) (t : Text) :
    (run isIn t).1 ++ (run isIn t).2 = t :=
  List.takeWhile_append_dropWhile

theorem eq_of_run {isIn : Char → Bool} {t left right : Text} (h : run isIn t = (left, right)) :
    t = left ++ right := by
  have := run_append isIn t
  rw [h] at this
  exact this.symm

theorem length_of_run {isIn : Char → Bool} {t left right : Text}
    (h : run isIn t = (left, right)) : t.length = left.length + right.length := by
  rw [eq_of_run h, List.length_append]

theorem isAll_iff {isIn : Char → Bool} {t : Text} :
    isAll isIn t = true ↔ t ≠ [] ∧ ∀ c ∈ t, isIn c = true := by
  simp [isAll]

end Text

/-- A text between the marks that messages put around script text. -/
def marked (t : Text) : String :=
  "`" ++ String.ofList t ++ "`"

/-! ### Decimal numbers -/

abbrev InRange (n : Int) : Prop :=
  -9223372036854775808 ≤ n ∧ n ≤ 9223372036854775807

namespace Decimal

def isDigits (t : Text) : Bool :=
  Text.isAll Char.isDigit t

def value (digits : Text) : Nat :=
  Nat.ofDigitChars 10 digits 0

def ofNat (n : Nat) : Text :=
  Nat.toDigits 10 n

def ofInt (n : Int) : Text :=
  if n < 0 then '-' :: ofNat n.natAbs else ofNat n.natAbs

/-- The number in range that a text of digits stands for, with at most one sign before them. -/
def signed? (t : Text) : Option Int :=
  let (negative, digits) :=
    match t with
    | '-' :: rest => (true, rest)
    | '+' :: rest => (false, rest)
    | t => (false, t)
  let n : Int := if negative then -(value digits : Int) else value digits
  if isDigits digits ∧ InRange n then some n else none

@[simp] theorem value_ofNat (n : Nat) : value (ofNat n) = n :=
  Nat.ofDigitChars_ten_toDigits

theorem isDigits_ofNat (n : Nat) : isDigits (ofNat n) = true :=
  Text.isAll_iff.2 ⟨Nat.toDigits_ne_nil, fun _ h => Nat.isDigit_of_mem_toDigits (by omega) (by omega) h⟩

end Decimal

end Scriptlet
