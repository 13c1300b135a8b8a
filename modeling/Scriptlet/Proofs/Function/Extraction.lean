import Mathlib.Data.List.Infix
import Mathlib.Data.Set.Finite.List
import Scriptlet.Function
import Scriptlet.Proofs.Function.Recognition
import Scriptlet.Proofs.Text.Cut

/-!
Where declarations stand in a script, and which of them a name is compiled from. A declaration stands
at a place if the text from there on is put together from an opening, parameters and a body, with
anything after them. A search for a name comes to the first place where a declaration of that name
stands: what only looks like one does not stop it, and a body without statements does
(`extract_iff_finds`).
-/

namespace Scriptlet

namespace Declaration

structure Begins (d : Declaration) (t : Text) : Prop where
  parameters : Text.isAll isParameterChar d.parameters = true
  body_ne_nil : d.body ≠ []
  brace_not_mem : '}' ∉ d.body
  text_eq : ∃ opening rest, Opening d.name opening ∧
    t = opening ++ '(' :: (d.parameters ++ ')' :: '{' :: (d.body ++ '}' :: rest))

/-- That a declaration stands at a place of a text, and none of the same name at an earlier one. -/
structure StandsFirst (d : Declaration) (t : Text) (place : Nat) : Prop where
  begins : d.Begins (t.drop place)
  first : ∀ earlier < place, ∀ other : Declaration, other.name = d.name →
    ¬ other.Begins (t.drop earlier)

variable {reader : NameReader} {t rest name : Text} {d : Declaration}

theorem begins_of_atStart? (hreader : reader.ReadsPrefixes)
    (h : atStart? reader t = some (d, rest)) : d.Begins t := by
  obtain ⟨_, hhead, hblock⟩ := atStart?_eq_some_iff.mp h
  obtain ⟨opening, hopening, rfl⟩ := opening_of_head? hreader hhead
  obtain ⟨rfl, hparameters, hbody, hbrace⟩ := block?_eq_some_iff.mp hblock
  exact ⟨hparameters, hbody, hbrace, opening, rest, hopening, rfl⟩

/-- Looking for its name, a declaration is read wherever a text begins with it. -/
theorem Begins.exists_atStart? (h : d.Begins t) :
    ∃ rest, atStart? (.exactly d.name) t = some (d, rest) := by
  obtain ⟨opening, rest, hopening, rfl⟩ := h.text_eq
  have hblock := block?_eq_some_iff.mpr
    ⟨rfl (a := '(' :: (d.parameters ++ ')' :: '{' :: (d.body ++ '}' :: rest))), h.parameters,
      h.body_ne_nil, h.brace_not_mem⟩
  exact ⟨rest, atStart?_eq_some_iff.mpr ⟨_, head?_exactly_of_opening hopening _, hblock⟩⟩

theorem exists_atStart?_exactly_iff :
    (∃ rest, atStart? (.exactly name) t = some (d, rest)) ↔ d.name = name ∧ d.Begins t := by
  constructor
  · rintro ⟨rest, h⟩
    obtain ⟨_, hhead, -⟩ := atStart?_eq_some_iff.mp h
    have hname : d.name = name := by
      rcases head?_eq_some_iff.mp hhead with ⟨_, -, hread⟩ | ⟨_, _, _, _, -, -, -, hread⟩
      · exact (read_exactly_iff.mp hread).1
      · exact (read_exactly_iff.mp hread).1
    exact ⟨hname, begins_of_atStart? (readsPrefixes_exactly name) h⟩
  · rintro ⟨rfl, h⟩
    exact h.exists_atStart?

/-- A text begins with one declaration of a name at most. -/
theorem Begins.unique {other : Declaration} (h : d.Begins t) (hother : other.Begins t)
    (hname : d.name = other.name) : d = other := by
  obtain ⟨_, hread⟩ := h.exists_atStart?
  obtain ⟨_, hread'⟩ := hother.exists_atStart?
  rw [← hname, hread] at hread'
  cases hread'
  rfl

/-! ### The search -/

/-- The search comes to the first place where a declaration is read. -/
theorem first?_eq_some_iff :
    first? reader t = some d ↔
      ∃ place, (∃ rest, atStart? reader (t.drop place) = some (d, rest)) ∧
        ∀ earlier < place, atStart? reader (t.drop earlier) = none := by
  induction t with
  | nil => simp [first?, atStart?, head?]
  | cons c t ih =>
    cases hstart : atStart? reader (c :: t) with
    | some found =>
      obtain ⟨found, rest⟩ := found
      rw [first?_of_atStart? hstart, Option.some.injEq]
      constructor
      · rintro rfl
        exact ⟨0, ⟨rest, hstart⟩, fun _ hlt => absurd hlt (Nat.not_lt_zero _)⟩
      · rintro ⟨place, ⟨_, hplace⟩, hearlier⟩
        cases place with
        | zero =>
          cases hstart.symm.trans hplace
          rfl
        | succ place => cases hstart.symm.trans (hearlier 0 (Nat.zero_lt_succ _))
    | none =>
      rw [first?_of_none hstart, ih]
      constructor
      · rintro ⟨place, hplace, hearlier⟩
        refine ⟨place + 1, hplace, fun earlier hlt => ?_⟩
        cases earlier with
        | zero => exact hstart
        | succ earlier => exact hearlier earlier (Nat.lt_of_succ_lt_succ hlt)
      · rintro ⟨place, ⟨rest, hplace⟩, hearlier⟩
        cases place with
        | zero => cases hstart.symm.trans hplace
        | succ place =>
          exact ⟨place, ⟨rest, hplace⟩,
            fun earlier hlt => hearlier (earlier + 1) (Nat.succ_lt_succ hlt)⟩

theorem first?_eq_none_iff :
    first? reader t = none ↔ ∀ place, atStart? reader (t.drop place) = none := by
  induction t with
  | nil => simp [first?, atStart?, head?]
  | cons c t ih =>
    constructor
    · intro h place
      cases hstart : atStart? reader (c :: t) with
      | some found => cases (first?_of_atStart? hstart).symm.trans h
      | none =>
        rw [first?_of_none hstart] at h
        cases place with
        | zero => exact hstart
        | succ place => exact ih.mp h place
    · intro h
      rw [first?_of_none (h 0)]
      exact ih.mpr fun place => h (place + 1)

theorem atStart?_exactly_eq_none_iff :
    atStart? (.exactly name) t = none ↔ ∀ d : Declaration, d.name = name → ¬ d.Begins t := by
  rw [Option.eq_none_iff_forall_ne_some]
  constructor
  · intro h d hname hbegins
    obtain ⟨rest, hread⟩ := exists_atStart?_exactly_iff.mpr ⟨hname, hbegins⟩
    exact h _ hread
  · rintro h ⟨d, rest⟩ hread
    obtain ⟨hname, hbegins⟩ := exists_atStart?_exactly_iff.mp ⟨rest, hread⟩
    exact h d hname hbegins

theorem first?_exactly_eq_some_iff :
    first? (.exactly name) t = some d ↔ d.name = name ∧ ∃ place, d.StandsFirst t place := by
  simp only [first?_eq_some_iff, exists_atStart?_exactly_iff, atStart?_exactly_eq_none_iff]
  constructor
  · rintro ⟨place, ⟨rfl, hbegins⟩, hearlier⟩
    exact ⟨rfl, place, hbegins, hearlier⟩
  · rintro ⟨rfl, place, hbegins, hearlier⟩
    exact ⟨place, ⟨rfl, hbegins⟩, hearlier⟩

theorem first?_exactly_eq_none_iff :
    first? (.exactly name) t = none ↔
      ∀ place, ∀ d : Declaration, d.name = name → ¬ d.Begins (t.drop place) := by
  simp only [first?_eq_none_iff, atStart?_exactly_eq_none_iff]

end Declaration

namespace Function

open Declaration

/-- What the search for a name in a script comes to. -/
inductive Finds (script name : Text) : Except DeclarationError Function → Prop where
  | notFound : (∀ place, ∀ d : Declaration, d.name = name → ¬ d.Begins (script.drop place)) →
    Finds script name (.error (.functionNotFound name))
  | emptyBody {place : Nat} {parameters body : Text} {pieces : List Text} :
    StandsFirst ⟨name, parameters, body⟩ script place → Text.CutInto ';' body pieces →
    (∀ piece ∈ pieces, piece = []) → Finds script name (.error (.emptyBody name))
  | found {place : Nat} {parameters body : Text} {params pieces : List Text} :
    StandsFirst ⟨name, parameters, body⟩ script place → Text.CutInto ',' parameters params →
    Text.CutInto ';' body pieces → (∃ piece ∈ pieces, piece ≠ []) →
    Finds script name (.ok ⟨name, params.filter (· ≠ []), pieces.filter (· ≠ [])⟩)

variable {script name : Text} {d : Declaration}

theorem items_eq_of_cutInto {sep : Char} {t : Text} {pieces : List Text}
    (h : Text.CutInto sep t pieces) : items sep t = pieces.filter (· ≠ []) := by
  rw [items, Text.pieces_eq_iff.mpr h]

theorem items_eq_nil_iff {sep : Char} {t : Text} {pieces : List Text}
    (h : Text.CutInto sep t pieces) : items sep t = [] ↔ ∀ piece ∈ pieces, piece = [] := by
  simp [items_eq_of_cutInto h]

theorem items_ne_nil_iff {sep : Char} {t : Text} {pieces : List Text}
    (h : Text.CutInto sep t pieces) : items sep t ≠ [] ↔ ∃ piece ∈ pieces, piece ≠ [] := by
  simp [items_eq_of_cutInto h]

theorem ofDeclaration_of_nil (h : statementTexts d.body = []) :
    ofDeclaration d = .error (.emptyBody d.name) := by
  simp only [ofDeclaration, h]

theorem ofDeclaration_of_ne_nil (h : statementTexts d.body ≠ []) :
    ofDeclaration d = .ok ⟨d.name, paramNames d.parameters, statementTexts d.body⟩ := by
  obtain ⟨statement, rest, hstatements⟩ := List.exists_cons_of_ne_nil h
  simp only [ofDeclaration, hstatements]

theorem extract_of_standsFirst {place : Nat} (h : d.StandsFirst script place) :
    extract script d.name = ofDeclaration d := by
  have hfirst : first? (.exactly d.name) script = some d :=
    first?_exactly_eq_some_iff.mpr ⟨rfl, place, h⟩
  simp only [extract, hfirst]

theorem finds_extract (script name : Text) : Finds script name (extract script name) := by
  cases hfirst : first? (.exactly name) script with
  | none =>
    simp only [extract, hfirst]
    exact .notFound (first?_exactly_eq_none_iff.mp hfirst)
  | some d =>
    obtain ⟨rfl, place, hplace⟩ := first?_exactly_eq_some_iff.mp hfirst
    rw [extract_of_standsFirst hplace]
    have hparams := Text.cutInto_pieces ',' d.parameters
    have hpieces := Text.cutInto_pieces ';' d.body
    by_cases hbody : statementTexts d.body = []
    · rw [ofDeclaration_of_nil hbody]
      exact .emptyBody hplace hpieces ((items_eq_nil_iff hpieces).mp hbody)
    · rw [ofDeclaration_of_ne_nil hbody]
      exact .found hplace hparams hpieces ((items_ne_nil_iff hpieces).mp hbody)

theorem extract_of_finds {outcome : Except DeclarationError Function}
    (h : Finds script name outcome) : extract script name = outcome := by
  cases h with
  | notFound hnone => simp only [extract, first?_exactly_eq_none_iff.mpr hnone]
  | emptyBody hplace hpieces hempty =>
    rw [extract_of_standsFirst hplace]
    exact ofDeclaration_of_nil ((items_eq_nil_iff hpieces).mpr hempty)
  | found hplace hparams hpieces hsome =>
    rw [extract_of_standsFirst hplace, ← items_eq_of_cutInto hparams, ← items_eq_of_cutInto hpieces]
    exact ofDeclaration_of_ne_nil ((items_ne_nil_iff hpieces).mpr hsome)

/-- Compiling a name comes to what the first declaration of it says, whatever characters the name
has: a function with the parameters and statements that are not empty, in order, or the complaint
that there is no statement; and to the complaint that there is no function if the name is declared
nowhere. At one place there is one way only to read a declaration of a name. -/
theorem extract_iff_finds (script name : Text) :
    (∀ outcome, extract script name = outcome ↔ Finds script name outcome) ∧
    ∀ place, ∀ d other : Declaration, d.name = name → other.name = name →
      d.Begins (script.drop place) → other.Begins (script.drop place) → d = other := by
  refine ⟨fun outcome => ⟨?_, extract_of_finds⟩, ?_⟩
  · rintro rfl
    exact finds_extract script name
  · rintro place d other rfl hname hbegins hother
    exact hbegins.unique hother hname.symm

/-- Uppercase parameters do not make a declaration, and the search goes on; a body without statements
ends it. -/
example :
    extract "function g(A)\x7bb=1\x7d;g = function(a)\x7b;;\x7dfunction g(a)\x7ba\x7d".toList ['g'] =
      .error (.emptyBody ['g']) :=
  rfl

end Function

/-! ### What is found -/

namespace Declaration

variable {t name : Text} {d : Declaration}

theorem Opening.infix_name {opening : Text} (h : Opening name opening) : name <:+: opening := by
  cases h with
  | keyword => exact (List.suffix_append "function ".toList name).isInfix
  | @assigned c before after =>
    exact ⟨[c], before ++ '=' :: (after ++ "function".toList), by simp⟩

/-- A declaration has its name in it. -/
theorem Begins.infix_name (h : d.Begins t) : d.name <:+: t := by
  obtain ⟨opening, rest, hopening, rfl⟩ := h.text_eq
  exact hopening.infix_name.trans (List.prefix_append opening _).isInfix

theorem name_of_first? (h : first? (.exactly name) t = some d) : d.name = name ∧ name <:+: t := by
  obtain ⟨rfl, place, hplace⟩ := first?_exactly_eq_some_iff.mp h
  exact ⟨rfl, hplace.begins.infix_name.trans (List.drop_suffix place t).isInfix⟩

end Declaration

namespace Function

variable {script name : Text} {f : Function}

theorem exists_declaration_of_extract (h : extract script name = .ok f) :
    ∃ declaration, Declaration.first? (.exactly name) script = some declaration ∧
      ofDeclaration declaration = .ok f := by
  unfold extract at h
  split at h
  · rename_i declaration hfirst
    exact ⟨declaration, hfirst, h⟩
  · cases h

/-- A function keeps the name that it was looked up by. -/
theorem name_of_extract (h : extract script name = .ok f) : f.name = name := by
  obtain ⟨declaration, hfirst, hf⟩ := exists_declaration_of_extract h
  unfold ofDeclaration at hf
  split at hf <;> cases hf
  exact (Declaration.name_of_first? hfirst).1

/-- A name that is found is a part of the script text. -/
theorem infix_of_extract (h : extract script name = .ok f) : name <:+: script := by
  obtain ⟨_, hfirst, _⟩ := exists_declaration_of_extract h
  exact (Declaration.name_of_first? hfirst).2

/-- A script declares finitely many functions. -/
theorem finite_extracted (script : Text) : {f | ∃ name, extract script name = .ok f}.Finite := by
  have hnames : {name : Text | name <:+: script}.Finite := by
    refine (List.finite_toSet script.sublists).subset fun name hname => ?_
    exact List.mem_sublists.mpr hname.sublist
  -- A name stands for one function at most.
  have hone : ∀ name : Text, {f | extract script name = .ok f}.Finite := fun name =>
    Set.Subsingleton.finite fun f hf g hg => Except.ok.inj (hf.symm.trans hg)
  refine (hnames.biUnion fun name _ => hone name).subset ?_
  rintro f ⟨name, hf⟩
  exact Set.mem_biUnion (infix_of_extract hf) hf

/-! ### What is written out -/

theorem items_intercalate {sep : Char} {ts : List Text} (hts : ∀ t ∈ ts, t ≠ [] ∧ sep ∉ t)
    (hne : ts ≠ []) : items sep ([sep].intercalate ts) = ts := by
  have hpieces : Text.CutInto sep ([sep].intercalate ts) ts := ⟨hne, fun t ht => (hts t ht).2, rfl⟩
  rw [items_eq_of_cutInto hpieces]
  apply List.filter_eq_self.mpr
  intro t ht
  simpa using (hts t ht).1

/-- What can be declared: parameters in lowercase letters, and statements that nothing cuts. -/
structure Declarable (f : Function) : Prop where
  params_ne : f.params ≠ []
  params : ∀ p ∈ f.params, Text.isAll Char.isLower p = true
  statements_ne : f.statements ≠ []
  statements : ∀ t ∈ f.statements, t ≠ [] ∧ ';' ∉ t ∧ '}' ∉ t

/-- The text `function name(…){…}` of a function. -/
def declared (f : Function) : Text :=
  "function ".toList ++ (f.name ++ '(' :: ([','].intercalate f.params ++ ')' :: '{' ::
    ([';'].intercalate f.statements ++ ['}'])))

/-- The text between the parentheses is letters and commas, and not nothing. -/
theorem isAll_parameters {f : Function} (hf : f.Declarable) :
    Text.isAll Declaration.isParameterChar ([','].intercalate f.params) = true := by
  apply Text.isAll_intercalate rfl hf.params_ne
  intro p hp
  obtain ⟨hne, hlower⟩ := Text.isAll_iff.mp (hf.params p hp)
  refine Text.isAll_iff.mpr ⟨hne, ?_⟩
  intro c hc
  simp [Declaration.isParameterChar, hlower c hc]

theorem body_ne_nil {f : Function} (hf : f.Declarable) : [';'].intercalate f.statements ≠ [] := by
  obtain ⟨t, rest, hstatements⟩ := List.exists_cons_of_ne_nil hf.statements_ne
  rw [hstatements]
  exact Text.intercalate_ne_nil (hf.statements t (by simp [hstatements])).1

/-- A character that no statement has is not in the text between the braces, unless it is the
separator. -/
theorem not_mem_body {f : Function} {c : Char} (hc : c ≠ ';') (hout : ∀ t ∈ f.statements, c ∉ t) :
    c ∉ [';'].intercalate f.statements := by
  intro hmem
  rcases Text.mem_intercalate hmem with hsep | ⟨t, ht, hct⟩
  · exact hc hsep
  · exact hout t ht hct

def declaration (f : Function) : Declaration :=
  ⟨f.name, [','].intercalate f.params, [';'].intercalate f.statements⟩

/-- The parts of a declaration are cut where they were joined. -/
theorem ofDeclaration_declaration {f : Function} (hf : f.Declarable) :
    ofDeclaration f.declaration = .ok f := by
  have hitems : statementTexts ([';'].intercalate f.statements) = f.statements :=
    items_intercalate (fun t ht => ⟨(hf.statements t ht).1, (hf.statements t ht).2.1⟩)
      hf.statements_ne
  have hparams : paramNames ([','].intercalate f.params) = f.params := by
    refine items_intercalate (fun p hp => ?_) hf.params_ne
    exact ⟨(Text.isAll_iff.mp (hf.params p hp)).1, Text.not_mem_of_isAll (hf.params p hp) rfl⟩
  have hne : statementTexts f.declaration.body ≠ [] := hitems.symm ▸ hf.statements_ne
  rw [ofDeclaration_of_ne_nil hne]
  unfold declaration
  rw [hitems, hparams]

/-- The text of a function begins with its declaration. -/
theorem begins_declared {f : Function} (hf : f.Declarable) : f.declaration.Begins f.declared where
  parameters := isAll_parameters hf
  body_ne_nil := body_ne_nil hf
  brace_not_mem := not_mem_body (by decide) fun t ht => (hf.statements t ht).2.2
  text_eq := ⟨"function ".toList ++ f.name, [], .keyword, (List.append_assoc _ _ _).symm⟩

/-- A declared function is found in its own text, and is the one that was written out. -/
theorem extract_declared {f : Function} (hf : f.Declarable) :
    extract f.declared f.name = .ok f := by
  have hfirst : f.declaration.StandsFirst f.declared 0 :=
    ⟨begins_declared hf, fun _ hlt => absurd hlt (Nat.not_lt_zero _)⟩
  exact (extract_of_standsFirst hfirst).trans (ofDeclaration_declaration hf)

end Function

end Scriptlet
