import Scriptlet.Proofs.Expr.Recognition

namespace Scriptlet

namespace Expr

inductive Member where
  | split
  | join
  | length
  | reverse
  | slice (start : Text)
  deriving DecidableEq, Repr

namespace Member

def text : Member → Text
  | split => "split(\"\")".toList
  | join => "join(\"\")".toList
  | length => "length".toList
  | reverse => "reverse()".toList
  | slice start => "slice(".toList ++ start ++ [')']

def shape (receiver : Text) : Member → Shape
  | split => .split receiver
  | join => .join receiver
  | length => .length receiver
  | reverse => .reverse receiver
  | slice start => .slice receiver start

theorem ofMember?_eq_some_iff {receiver member : Text} {s : Shape} :
    Shape.ofMember? receiver member = some s ↔
      ∃ m : Member, member = m.text ∧ s = m.shape receiver := by
  rw [Shape.ofMember?_eq_some_iff]
  constructor
  · rintro (h | h | h | h | ⟨start, h⟩)
    · exact ⟨split, h⟩
    · exact ⟨join, h⟩
    · exact ⟨length, h⟩
    · exact ⟨reverse, h⟩
    · exact ⟨slice start, h⟩
  · rintro ⟨m, h⟩
    cases m with
    | split => exact .inl h
    | join => exact .inr (.inl h)
    | length => exact .inr (.inr (.inl h))
    | reverse => exact .inr (.inr (.inr (.inl h)))
    | slice start => exact .inr (.inr (.inr (.inr ⟨start, h⟩)))

theorem shape_injective (receiver : Text) : Function.Injective (shape receiver) := by
  intro m n h
  cases m <;> cases n <;> cases h <;> rfl

/-- A member is known by its text. -/
theorem text_injective : Function.Injective text := by
  intro m n h
  have hm : Shape.ofMember? [] m.text = some (m.shape []) := ofMember?_eq_some_iff.mpr ⟨m, rfl, rfl⟩
  have hn : Shape.ofMember? [] n.text = some (n.shape []) := ofMember?_eq_some_iff.mpr ⟨n, rfl, rfl⟩
  rw [h, hn] at hm
  exact shape_injective [] (Option.some.inj hm).symm

end Member

/-- A form of an expression text, with the parts that the text is put together from. -/
inductive Form where
  | digits (row : Text)
  | letters (word : Text)
  | member (receiver : Text) (member : Member)
  | index (receiver inside : Text)
  | remainder (left right : Text)
  | call (function inside : Text)
  deriving DecidableEq, Repr

namespace Form

def text : Form → Text
  | digits row => row
  | letters word => word
  | member receiver m => receiver ++ '.' :: m.text
  | index receiver inside => receiver ++ '[' :: inside ++ [']']
  | remainder left right => left ++ '%' :: right
  | call function inside => function ++ '(' :: inside ++ [')']

/-- What the parts of a form must be. A percent sign in front belongs to the left side of a
remainder, and no other does. -/
def Proper : Form → Prop
  | digits row => Decimal.isDigits row = true
  | letters word => Text.isAll Char.isAlpha word = true
  | member receiver m => Text.isAll Char.isLower receiver = true ∧ '\n' ∉ m.text
  | index receiver inside =>
    Text.isAll Char.isLower receiver = true ∧ inside ≠ [] ∧ '\n' ∉ inside
  | remainder left right =>
    left ≠ [] ∧ '%' ∉ left.tail ∧ right ≠ [] ∧ '\n' ∉ left ++ '%' :: right
  | call function inside =>
    Text.isAll Char.isAlpha function = true ∧ Text.isAll Shape.isArgumentChar inside = true

def turn : Form → Nat
  | digits _ => 0
  | letters _ => 1
  | member _ _ => 2
  | index _ _ => 3
  | remainder _ _ => 4
  | call _ _ => 5

/-- That a text is written in a form, with parts as they must be. -/
structure Writes (form : Form) (t : Text) : Prop where
  proper : form.Proper
  text_eq : form.text = t

/-! ### The recognisers of the forms -/

variable {t : Text} {s : Shape}

theorem member?_iff :
    Shape.member? t = some s ↔
      ∃ receiver m, (member receiver m).Writes t ∧ s = m.shape receiver := by
  rw [Shape.member?_eq_some_iff]
  constructor
  · rintro ⟨receiver, afterDot, rfl, hlower, hline, hmember⟩
    obtain ⟨m, rfl, rfl⟩ := Member.ofMember?_eq_some_iff.mp hmember
    exact ⟨receiver, m, ⟨⟨hlower, hline⟩, rfl⟩, rfl⟩
  · rintro ⟨receiver, m, ⟨⟨hlower, hline⟩, rfl⟩, rfl⟩
    exact ⟨receiver, m.text, rfl, hlower, hline, Member.ofMember?_eq_some_iff.mpr ⟨m, rfl, rfl⟩⟩

theorem index?_iff :
    Shape.index? t = some s ↔
      ∃ receiver inside, (index receiver inside).Writes t ∧ s = .index receiver inside := by
  rw [Shape.index?_eq_some_iff]
  constructor
  · rintro ⟨receiver, inside, rfl, hlower, hne, hline, rfl⟩
    exact ⟨receiver, inside, ⟨⟨hlower, hne, hline⟩, rfl⟩, rfl⟩
  · rintro ⟨receiver, inside, ⟨⟨hlower, hne, hline⟩, rfl⟩, rfl⟩
    exact ⟨receiver, inside, rfl, hlower, hne, hline, rfl⟩

theorem remainder?_iff :
    Shape.remainder? t = some s ↔
      ∃ left right, (remainder left right).Writes t ∧ s = .remainder left right := by
  rw [Shape.remainder?_eq_some_iff]
  constructor
  · rintro ⟨c, left, right, rfl, hleft, hright, hline, rfl⟩
    exact ⟨c :: left, right, ⟨⟨by simp, hleft, hright, hline⟩, rfl⟩, rfl⟩
  · rintro ⟨left, right, ⟨⟨hne, hleft, hright, hline⟩, rfl⟩, rfl⟩
    obtain ⟨c, left, rfl⟩ := List.exists_cons_of_ne_nil hne
    exact ⟨c, left, right, rfl, hleft, hright, hline, rfl⟩

theorem callParts?_iff {function inside : Text} :
    Shape.callParts? t = some (function, inside) ↔ (call function inside).Writes t := by
  rw [Shape.callParts?_eq_some_iff]
  constructor
  · rintro ⟨rfl, halpha, hinside⟩
    exact ⟨⟨halpha, hinside⟩, rfl⟩
  · rintro ⟨⟨halpha, hinside⟩, rfl⟩
    exact ⟨rfl, halpha, hinside⟩

/-- A recogniser that finds nothing leaves no way to put the text together. -/
private theorem eq_none_iff_of_eq_some_iff {α : Type} {found : Option Shape} {P : Text → α → Prop}
    {shape : Text → α → Shape} (h : ∀ s, found = some s ↔ ∃ x y, P x y ∧ s = shape x y) :
    found = none ↔ ∀ x y, ¬ P x y := by
  rw [Option.eq_none_iff_forall_ne_some]
  constructor
  · intro hnone x y hxy
    exact hnone _ ((h _).mpr ⟨x, y, hxy, rfl⟩)
  · intro hnone s hs
    obtain ⟨x, y, hxy, -⟩ := (h s).mp hs
    exact hnone x y hxy

theorem member?_eq_none_iff :
    Shape.member? t = none ↔ ∀ receiver m, ¬ (member receiver m).Writes t :=
  eq_none_iff_of_eq_some_iff fun _ => member?_iff

theorem index?_eq_none_iff :
    Shape.index? t = none ↔ ∀ receiver inside, ¬ (index receiver inside).Writes t :=
  eq_none_iff_of_eq_some_iff fun _ => index?_iff

theorem remainder?_eq_none_iff :
    Shape.remainder? t = none ↔ ∀ left right, ¬ (remainder left right).Writes t :=
  eq_none_iff_of_eq_some_iff fun _ => remainder?_iff

theorem callParts?_eq_none_iff :
    Shape.callParts? t = none ↔ ∀ function inside, ¬ (call function inside).Writes t := by
  simp only [Option.eq_none_iff_forall_ne_some, Prod.forall, ne_eq, callParts?_iff]

/-- A text has one decomposition of each form. -/
theorem eq_of_writes {form other : Form} (hform : form.Writes t) (hother : other.Writes t)
    (hturn : form.turn = other.turn) : form = other := by
  cases form <;> cases other <;> cases hturn
  case digits.digits row row' => exact congrArg digits (hform.text_eq.trans hother.text_eq.symm)
  case letters.letters word word' =>
    exact congrArg letters (hform.text_eq.trans hother.text_eq.symm)
  case member.member receiver m receiver' m' =>
    have htext := hform.text_eq.trans hother.text_eq.symm
    obtain ⟨rfl, -, hm⟩ := Text.run_unique htext (Text.isAll_iff.mp hform.proper.1).2
      (Text.isAll_iff.mp hother.proper.1).2 (by decide) (by decide)
    rw [Member.text_injective hm]
  case index.index receiver inside receiver' inside' =>
    have hsome := index?_iff.mpr ⟨_, _, hform, rfl⟩
    rw [index?_iff.mpr ⟨_, _, hother, rfl⟩] at hsome
    cases hsome
    rfl
  case remainder.remainder left right left' right' =>
    have hsome := remainder?_iff.mpr ⟨_, _, hform, rfl⟩
    rw [remainder?_iff.mpr ⟨_, _, hother, rfl⟩] at hsome
    cases hsome
    rfl
  case call.call function inside function' inside' =>
    have hsome := callParts?_iff.mpr hform
    rw [callParts?_iff.mpr hother] at hsome
    cases hsome
    rfl

end Form

end Expr

end Scriptlet
