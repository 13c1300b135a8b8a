import Scriptlet.Heap.Contents
import Scriptlet.World

/-!
Values and calls as they are typed, and one evaluation of them. What stands between square brackets is
an array of what stands between its commas outside inner brackets, a number in range is an integer, and
anything else is a text, with or without quotes around it; every text is some value. Nothing inside a
text is escaped, so one that is written between quotes is read back only if it is free of commas and
brackets.
-/

namespace Scriptlet.Console

def depthAfter (depth : Nat) (c : Char) : Nat :=
  if c = '[' then depth + 1 else if c = ']' then depth - 1 else depth

/-- The pieces of a text between the commas outside brackets, with `depth` brackets open at its
start. -/
def piecesFrom (depth : Nat) : Text → List Text
  | [] => [[]]
  | c :: rest =>
    if c = ',' ∧ depth = 0 then [] :: piecesFrom 0 rest
    else (piecesFrom (depthAfter depth c) rest).modifyHead (c :: ·)

def topLevelPieces (t : Text) : List Text :=
  piecesFrom 0 t

theorem piecesFrom_ne_nil (depth : Nat) (t : Text) : piecesFrom depth t ≠ [] := by
  induction t generalizing depth with
  | nil => simp [piecesFrom]
  | cons c t ih => by_cases h : c = ',' ∧ depth = 0 <;> simp [piecesFrom, h, ih]

theorem length_le_of_mem_piecesFrom {depth : Nat} {t piece : Text}
    (h : piece ∈ piecesFrom depth t) : piece.length ≤ t.length := by
  induction t generalizing depth piece with
  | nil => simp_all [piecesFrom]
  | cons c t ih =>
    rw [piecesFrom] at h
    split at h
    · rcases List.mem_cons.1 h with rfl | h
      · simp
      · exact Nat.le_succ_of_le (ih h)
    · cases hp : piecesFrom (depthAfter depth c) t with
      | nil => exact absurd hp (piecesFrom_ne_nil _ _)
      | cons first others =>
        rw [hp, List.modifyHead_cons, List.mem_cons] at h
        rcases h with rfl | h
        · simpa using ih (by rw [hp]; exact List.mem_cons_self)
        · exact Nat.le_succ_of_le (ih (by rw [hp]; exact List.mem_cons_of_mem _ h))

theorem length_le_of_mem_topLevelPieces {t piece : Text} (h : piece ∈ topLevelPieces t) :
    piece.length ≤ t.length :=
  length_le_of_mem_piecesFrom h

/-! ### Reading -/

inductive Literal where
  | integer (n : Int)
  | text (t : Text)
  | array (items : List Literal)
  deriving Repr

/-- What stands between an opening and a closing mark at the two ends of a text. -/
def between? (opening closing : Char) (t : Text) : Option Text := do
  let rest ← Text.after? [opening] t
  Text.before? [closing] rest

theorem length_of_between? {opening closing : Char} {t inside : Text}
    (h : between? opening closing t = some inside) : inside.length < t.length := by
  simp only [between?, Option.bind_eq_bind, Option.bind_eq_some_iff, Text.after?_eq_some_iff,
    Text.before?_eq_some_iff] at h
  obtain ⟨rest, rfl, rfl⟩ := h
  simp only [List.length_append, List.length_cons, List.length_nil]
  omega

theorem length_trim_le (t : Text) : (Text.trim t).length ≤ t.length := by
  have h := (List.dropWhile_suffix (l := (Text.trimStart t).reverse) Text.isBlank).length_le
  have h' := (List.dropWhile_suffix (l := t) Text.isBlank).length_le
  simp only [Text.trim, List.length_reverse] at h ⊢
  exact Nat.le_trans h h'

namespace Literal

/-- A text without the quotes around it, which have to be of one kind. -/
def unquoted (t : Text) : Text :=
  match between? '"' '"' t <|> between? '\'' '\'' t with
  | some inside => inside
  | none => t

/-- The value that a trimmed text without brackets around it stands for. -/
def ofWord (t : Text) : Literal :=
  match Decimal.signed? t with
  | some n => .integer n
  | none => .text (unquoted t)

def ofText (t : Text) : Literal :=
  match hinside : between? '[' ']' (Text.trim t) with
  | some inside =>
    if Text.isBlankText inside then .array []
    else .array ((topLevelPieces inside).attach.map fun ⟨piece, hpiece⟩ =>
      have : piece.length < t.length := by
        have := length_le_of_mem_topLevelPieces hpiece
        have := length_of_between? hinside
        have := length_trim_le t
        omega
      ofText piece)
  | none => ofWord (Text.trim t)
termination_by t.length

/-- The values that a text with commas between them stands for; a blank text has none. -/
def listOfText (t : Text) : List Literal :=
  if Text.isBlankText t then [] else (topLevelPieces t).map ofText

theorem ofText_of_brackets {t inside : Text} (h : between? '[' ']' (Text.trim t) = some inside) :
    ofText t = .array (listOfText inside) := by
  rw [ofText]
  split
  · rename_i inside' h'
    cases h'.symm.trans h
    rw [listOfText]
    split
    · rfl
    · exact congrArg array (List.attach_map_val ..)
  · rename_i h'
    cases h'.symm.trans h

theorem ofText_of_no_brackets {t : Text} (h : between? '[' ']' (Text.trim t) = none) :
    ofText t = ofWord (Text.trim t) := by
  rw [ofText]
  split
  · rename_i h'
    cases h'.symm.trans h
  · rfl

mutual

def build (h : Heap) : Literal → Value × Heap
  | .integer n => (.integer n, h)
  | .text t => (.text t, h)
  | .array items =>
    let (values, h) := buildEach h items
    h.allocValue values

def buildEach (h : Heap) : List Literal → List Value × Heap
  | [] => ([], h)
  | item :: items =>
    let (value, h) := build h item
    let (values, h) := buildEach h items
    (value :: values, h)

end

end Literal

structure CallLine where
  function : Text
  args : List Literal
  deriving Repr

/-- Reads `function(args)`: the name is what stands before the first parenthesis, and the line has
to end with a closing one. -/
def CallLine.ofText? (t : Text) : Option CallLine := do
  let (before, rest) ← Text.cut? '(' t
  let inside ← Text.before? [')'] rest
  if Text.isBlankText before then none
  else return ⟨Text.trim before, Literal.listOfText inside⟩

/-! ### Writing -/

namespace Literal

mutual

def render : Literal → Text
  | .integer n => Decimal.ofInt n
  | .text t => '"' :: t ++ ['"']
  | .array items => '[' :: [','].intercalate (renderEach items) ++ [']']

def renderEach : List Literal → List Text
  | [] => []
  | item :: items => render item :: renderEach items

end

mutual

def Writable : Literal → Prop
  | .integer n => InRange n
  | .text t => ',' ∉ t ∧ '[' ∉ t ∧ ']' ∉ t
  | .array items => WritableEach items

def WritableEach : List Literal → Prop
  | [] => True
  | item :: items => item.Writable ∧ WritableEach items

end

end Literal

def CallLine.render (call : CallLine) : Text :=
  call.function ++ ['('] ++ [','].intercalate (Literal.renderEach call.args) ++ [')']

/-! ### Evaluation -/

def evaluate (script name : Text) (args : List Literal) : Except Halt Contents := do
  let (routine, w) := Routine.ofScript {} script name {}
  let (values, heap) := Literal.buildEach w.heap args
  let (result, w) := (← routine).eval { w with heap } values
  match w.heap.contents? (← result) with
  | some contents => return contents
  | none => throw .tooDeep

end Scriptlet.Console
