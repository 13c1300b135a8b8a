import Scriptlet.Proofs.Function.Written

namespace Scriptlet

namespace Function

/-- What can be declared among others: its name is an identifier, and nothing in its statements opens
a block. -/
structure Renderable (f : Function) : Prop extends f.Declarable where
  name : Text.isName f.name = true
  open_free : ∀ t ∈ f.statements, '{' ∉ t

instance (f : Function) : Decidable f.Renderable :=
  decidable_of_iff
    ((f.params ≠ [] ∧ (∀ p ∈ f.params, Text.isAll Char.isLower p = true) ∧ f.statements ≠ [] ∧
      ∀ t ∈ f.statements, t ≠ [] ∧ ';' ∉ t ∧ '}' ∉ t) ∧
      Text.isName f.name = true ∧ ∀ t ∈ f.statements, '{' ∉ t)
    ⟨fun ⟨⟨hne, hparams, hne', hstatements⟩, hname, hopen⟩ =>
      ⟨⟨hne, hparams, hne', hstatements⟩, hname, hopen⟩,
    fun ⟨⟨hne, hparams, hne', hstatements⟩, hname, hopen⟩ =>
      ⟨⟨hne, hparams, hne', hstatements⟩, hname, hopen⟩⟩

variable {f : Function}

theorem render_eq (f : Function) (form : DeclarationForm) :
    f.render form = form.lead ++ f.declaration.written form := by
  have hword : "=function".toList = '=' :: "function".toList := rfl
  unfold render Declaration.written declaration
  cases form with
  | keyword => simp [DeclarationForm.lead]
  | assigned => simp [DeclarationForm.lead, hword]

theorem Renderable.writable (hf : f.Renderable) : f.declaration.Writable where
  name := hf.name
  parameters := isAll_parameters hf.toDeclarable
  body_ne := body_ne_nil hf.toDeclarable
  body := ⟨not_mem_body (by decide) hf.open_free,
    not_mem_body (by decide) fun t ht => (hf.statements t ht).2.2⟩

theorem extract_render (hf : f.Renderable) (form : DeclarationForm) (rest : Text) :
    extract (f.render form ++ rest) f.name = .ok f := by
  have hreads := Declaration.reads_exactly f.name
  have hfirst := Declaration.first?_written hf.writable (Declaration.readsNames_exactly hf.name)
    hreads form rest
  unfold extract
  rw [render_eq, hfirst]
  exact ofDeclaration_declaration hf.toDeclarable

/-- A function is passed over when another name is looked for, also if its statements read like a
function of that name. -/
theorem extract_render_of_ne {name : Text} (hf : f.Renderable) (hname : Text.isName name = true)
    (hne : name ≠ f.name) (form : DeclarationForm) (rest : Text) :
    extract (f.render form ++ rest) name = extract rest name := by
  unfold extract
  rw [render_eq, Declaration.first?_written_of_ne hf.writable hname hne]

theorem namesIn_render (hf : f.Renderable) (form : DeclarationForm) (rest : Text) :
    namesIn (f.render form ++ rest) = f.name :: namesIn rest := by
  unfold namesIn
  rw [render_eq, Declaration.all_written hf.writable Declaration.readsNames_identifier
    (Declaration.reads_identifier hf.name)]
  rfl

theorem extract_renderAll {declarations : List (Function × DeclarationForm)}
    (hall : ∀ d ∈ declarations, d.1.Renderable)
    (hnodup : (declarations.map (·.1.name)).Nodup) {d : Function × DeclarationForm}
    (hd : d ∈ declarations) : extract (renderAll declarations) d.1.name = .ok d.1 := by
  induction declarations with
  | nil => cases hd
  | cons first others ih =>
    rw [List.map_cons, List.nodup_cons] at hnodup
    rw [List.forall_mem_cons] at hall
    show extract (first.1.render first.2 ++ renderAll others) d.1.name = .ok d.1
    rcases List.mem_cons.mp hd with rfl | hd
    · exact extract_render hall.1 _ _
    · have hne : d.1.name ≠ first.1.name := by
        intro hsame
        exact hnodup.1 (hsame ▸ List.mem_map_of_mem hd)
      rw [extract_render_of_ne hall.1 (hall.2 d hd).name hne]
      exact ih hall.2 hnodup.2 hd

theorem extract_renderAll_of_not_mem {declarations : List (Function × DeclarationForm)}
    (hall : ∀ d ∈ declarations, d.1.Renderable) {name : Text} (hname : Text.isName name = true)
    (hnot : name ∉ declarations.map (·.1.name)) :
    extract (renderAll declarations) name = .error (.functionNotFound name) := by
  induction declarations with
  | nil => rfl
  | cons first others ih =>
    rw [List.map_cons, List.mem_cons, not_or] at hnot
    rw [List.forall_mem_cons] at hall
    show extract (first.1.render first.2 ++ renderAll others) name = _
    rw [extract_render_of_ne hall.1 hname hnot.1]
    exact ih hall.2 hnot.2

theorem namesIn_renderAll {declarations : List (Function × DeclarationForm)}
    (hall : ∀ d ∈ declarations, d.1.Renderable) :
    namesIn (renderAll declarations) = declarations.map (·.1.name) := by
  induction declarations with
  | nil => simp [renderAll, namesIn, Declaration.all]
  | cons first others ih =>
    rw [List.forall_mem_cons] at hall
    show namesIn (first.1.render first.2 ++ renderAll others) = _
    rw [namesIn_render hall.1, ih hall.2]
    rfl

/-- A script of declarations, in any mix of the two forms, gives back what was written: under every
name the function that was declared under it, under any other identifier no function, and the list of
names in order. -/
theorem declarations_round_trip (declarations : List (Function × DeclarationForm))
    (hall : ∀ d ∈ declarations, d.1.Renderable)
    (hnodup : (declarations.map (·.1.name)).Nodup) :
    (∀ d ∈ declarations, extract (renderAll declarations) d.1.name = .ok d.1) ∧
    (∀ name, Text.isName name = true → name ∉ declarations.map (·.1.name) →
      extract (renderAll declarations) name = .error (.functionNotFound name)) ∧
    namesIn (renderAll declarations) = declarations.map (·.1.name) :=
  ⟨fun _ hd => extract_renderAll hall hnodup hd,
    fun _ hname hnot => extract_renderAll_of_not_mem hall hname hnot, namesIn_renderAll hall⟩

/-- Functions whose names are parts of each other, and whose statements read like headings. -/
def lookAlikes : List (Function × DeclarationForm) :=
  [(⟨"zx".toList, [['a']], ["function z(a)".toList, "return a".toList]⟩, .keyword),
    (⟨"function".toList, [['a'], ['b']], ["zx=function(a)".toList]⟩, .assigned),
    (⟨"z".toList, [['a']], ["function function(a,b)".toList, "z = function(a)".toList]⟩, .assigned),
    (⟨"$z".toList, [['a']], ["return z(a)".toList]⟩, .keyword)]

theorem declarations_round_trip_lookAlikes :
    (∀ d ∈ lookAlikes, d.1.Renderable) ∧ (lookAlikes.map (·.1.name)).Nodup ∧
      extract (renderAll lookAlikes) ['z'] =
        .ok ⟨['z'], [['a']], ["function function(a,b)".toList, "z = function(a)".toList]⟩ ∧
      extract (renderAll lookAlikes) ['x'] = .error (.functionNotFound ['x']) ∧
      namesIn (renderAll lookAlikes) =
        ["zx".toList, "function".toList, "z".toList, "$z".toList] := by
  have hall : ∀ d ∈ lookAlikes, d.1.Renderable := by decide
  have hnodup : (lookAlikes.map (·.1.name)).Nodup := by decide
  obtain ⟨hfound, hnot, hnames⟩ := declarations_round_trip lookAlikes hall hnodup
  have hthird := hfound lookAlikes[2] (List.getElem_mem _)
  exact ⟨hall, hnodup, hthird, hnot ['x'] (by decide) (by decide), hnames⟩

end Function

end Scriptlet
