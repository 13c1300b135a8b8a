import Scriptlet.Text.Pattern

/-!
Function declarations inside a larger text. A declaration is `function name(…){…}`, or
`name = function(…){…}` right after an opening brace or a semicolon; its body ends at the first
closing brace. The recogniser leaves open how the name is read, so that looking for one given name
and listing every declared name are the same search. A compiled function keeps the name it was looked
up by, its parameters and the texts of its statements, in order; empty pieces of either list are
dropped.
-/

namespace Scriptlet

/-- A declaration as it stands in the text: its name, the text between the parentheses and the text
between the braces. -/
structure Declaration where
  name : Text
  parameters : Text
  body : Text
  deriving DecidableEq, Repr

namespace Declaration

/-- A way to read a name at the start of a text. What is left must be no longer than the text. -/
structure NameReader where
  read : Text → Option (Text × Text)
  length_le : ∀ {t name rest}, read t = some (name, rest) → rest.length ≤ t.length

def NameReader.exactly (name : Text) : NameReader where
  read t := (Text.after? name t).map fun rest => (name, rest)
  length_le h := by
    obtain ⟨rest, hrest, h⟩ := Option.map_eq_some_iff.1 h
    cases h
    rw [Text.after?_eq_some_iff] at hrest
    simp [hrest]

def NameReader.identifier : NameReader where
  read t :=
    match t with
    | c :: _ => if Text.isNameStart c then some (Text.run Text.isNamePart t) else none
    | [] => none
  length_le {t name rest} h := by
    cases t with
    | nil => cases h
    | cons c t =>
      simp only [Option.ite_none_right_eq_some, Option.some.injEq] at h
      have := Text.length_of_run h.2
      omega

def isParameterChar (c : Char) : Bool :=
  c.isLower || c == ','

/-- Reads the part before the parentheses, and gives the name. -/
def head? (reader : NameReader) (t : Text) : Option (Text × Text) :=
  match t with
  | [] => none
  | c :: rest =>
    if c = '{' ∨ c = ';' then do
      let (name, rest) ← reader.read rest
      let rest ← Text.after? ['='] (Text.trimStart rest)
      let rest ← Text.after? "function".toList (Text.trimStart rest)
      return (name, rest)
    else do
      let rest ← Text.after? "function ".toList t
      reader.read rest

/-- Reads `(parameters){body}`, both with a character at least. -/
def block? (t : Text) : Option (Text × Text × Text) := do
  let rest ← Text.after? ['('] t
  let (parameters, rest) := Text.run isParameterChar rest
  let rest ← Text.after? [')', '{'] rest
  let (body, rest) := Text.run (· != '}') rest
  let rest ← Text.after? ['}'] rest
  if parameters = [] ∨ body = [] then none else return (parameters, body, rest)

def atStart? (reader : NameReader) (t : Text) : Option (Declaration × Text) := do
  let (name, rest) ← head? reader t
  let (parameters, body, rest) ← block? rest
  return (⟨name, parameters, body⟩, rest)

def first? (reader : NameReader) : Text → Option Declaration
  | [] => none
  | c :: rest =>
    match atStart? reader (c :: rest) with
    | some (declaration, _) => some declaration
    | none => first? reader rest

theorem head?_length_le {reader : NameReader} {t name rest : Text}
    (h : head? reader t = some (name, rest)) : rest.length ≤ t.length := by
  cases t with
  | nil => cases h
  | cons c t =>
    simp only [head?] at h
    split at h
    · simp only [Option.bind_eq_bind, Option.bind_eq_some_iff, Option.pure_def, Option.some.injEq,
        Prod.mk.injEq] at h
      obtain ⟨⟨name', a⟩, ha, b, hb, r, hr, -, rfl⟩ := h
      have := reader.length_le ha
      have trimmed : ∀ s : Text, (Text.trimStart s).length ≤ s.length := fun s =>
        (List.dropWhile_suffix _).length_le
      have ha' := trimmed a
      have hb' := trimmed b
      rw [Text.after?_eq_some_iff] at hb hr
      dsimp only at hb
      rw [hb, List.length_append] at ha'
      rw [hr, List.length_append] at hb'
      simp only [List.length_cons]
      omega
    · simp only [Option.bind_eq_bind, Option.bind_eq_some_iff] at h
      obtain ⟨r, hr, h⟩ := h
      have := reader.length_le h
      rw [Text.after?_eq_some_iff] at hr
      rw [hr, List.length_append]
      omega

theorem block?_length_lt {t parameters body rest : Text}
    (h : block? t = some (parameters, body, rest)) : rest.length < t.length := by
  simp only [block?, Option.bind_eq_bind, Option.bind_eq_some_iff, Option.pure_def,
    Text.after?_eq_some_iff] at h
  obtain ⟨a, ha, b, hb, c, hc, h⟩ := h
  have hA := Text.run_append isParameterChar a
  have hB := Text.run_append (· != '}') b
  rw [hb] at hA
  rw [hc] at hB
  split at h
  · cases h
  · cases h
    rw [ha, ← hA, ← hB]
    simp
    omega

theorem atStart?_length_lt {reader : NameReader} {t rest : Text} {declaration : Declaration}
    (h : atStart? reader t = some (declaration, rest)) : rest.length < t.length := by
  simp only [atStart?, Option.bind_eq_bind, Option.bind_eq_some_iff, Option.pure_def,
    Option.some.injEq, Prod.mk.injEq] at h
  obtain ⟨⟨name, a⟩, hhead, ⟨parameters, body, b⟩, hblock, -, rfl⟩ := h
  exact Nat.lt_of_lt_of_le (block?_length_lt hblock) (head?_length_le hhead)

/-- The declarations in a text, from left to right. The search goes on after the end of each one it
finds, so a declaration inside the body of another is not among them. -/
def all (reader : NameReader) (t : Text) : List Declaration :=
  match t with
  | [] => []
  | c :: rest =>
    match _hstart : atStart? reader (c :: rest) with
    | some (declaration, after) => declaration :: all reader after
    | none => all reader rest
termination_by t.length
decreasing_by
  · exact atStart?_length_lt _hstart
  · exact Nat.lt_succ_self _

end Declaration

/-! ### Compiled functions -/

structure Function where
  name : Text
  params : List Text
  statements : List Text
  deriving DecidableEq, Repr

/-- Why a name cannot be compiled. -/
inductive DeclarationError where
  /-- The script text has no declaration of the name. -/
  | functionNotFound (name : Text)
  /-- The first declaration of the name has no statement. -/
  | emptyBody (name : Text)
  deriving DecidableEq, Repr

def DeclarationError.message : DeclarationError → String
  | .functionNotFound name => "could not find JS function " ++ marked name
  | .emptyBody name => "JS function " ++ marked name ++ " has no statements"

namespace Function

def items (sep : Char) (t : Text) : List Text :=
  (Text.pieces sep t).filter (· ≠ [])

def statementTexts (body : Text) : List Text :=
  items ';' body

def paramNames (parameters : Text) : List Text :=
  items ',' parameters

def ofDeclaration (declaration : Declaration) : Except DeclarationError Function :=
  match statementTexts declaration.body with
  | [] => .error (.emptyBody declaration.name)
  | statement :: rest =>
    .ok ⟨declaration.name, paramNames declaration.parameters, statement :: rest⟩

/-- The function that the first declaration of a name in a script text declares. -/
def extract (script name : Text) : Except DeclarationError Function :=
  match Declaration.first? (.exactly name) script with
  | some declaration => ofDeclaration declaration
  | none => .error (.functionNotFound name)

def namesIn (script : Text) : List Text :=
  (Declaration.all .identifier script).map (·.name)

def signature (f : Function) : Text :=
  "function ".toList ++ f.name ++ ['('] ++ [','].intercalate f.params ++ [')']

end Function

/-! ### Script text that declares functions -/

inductive DeclarationForm where
  /-- Written `function name(…){…}`. -/
  | keyword
  /-- Written `name=function(…){…}`. -/
  | assigned
  deriving DecidableEq, Repr

namespace Function

def render (f : Function) (form : DeclarationForm) : Text :=
  let heading : Text :=
    match form with
    | .keyword => "function ".toList ++ f.name
    | .assigned => f.name ++ "=function".toList
  [';'] ++ heading ++ ['('] ++ [','].intercalate f.params ++ [')', '{']
    ++ [';'].intercalate f.statements ++ ['}']

def renderAll (declarations : List (Function × DeclarationForm)) : Text :=
  declarations.flatMap fun (f, form) => f.render form

end Function

end Scriptlet
