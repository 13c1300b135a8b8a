import Scriptlet.Proofs.Function.Extraction
import Scriptlet.Proofs.Function.Heading

namespace Scriptlet

namespace Declaration

variable {reader : NameReader} {t : Text} {d : Declaration}

/-- What is listed is read at some place. -/
theorem exists_place_of_mem_all (hreader : reader.ReadsPrefixes) (h : d ∈ all reader t) :
    ∃ place rest, atStart? reader (t.drop place) = some (d, rest) := by
  fun_induction all reader t with
  | case1 => cases h
  | case2 c t found after hstart ih =>
    rcases List.mem_cons.mp h with rfl | h
    · exact ⟨0, after, hstart⟩
    · obtain ⟨place, rest, hplace⟩ := ih h
      obtain ⟨before, hsplit⟩ := suffix_of_atStart? hreader hstart
      refine ⟨before.length + place, rest, ?_⟩
      rw [← hsplit, ← List.drop_drop, List.drop_left]
      exact hplace
  | case3 c t hstart ih =>
    obtain ⟨place, rest, hplace⟩ := ih h
    exact ⟨place + 1, rest, hplace⟩

end Declaration

namespace Function

open Declaration

variable {script name : Text}

theorem exists_begins_of_mem_namesIn (h : name ∈ namesIn script) :
    ∃ place, ∃ d : Declaration, d.name = name ∧ d.Begins (script.drop place) := by
  obtain ⟨d, hd, rfl⟩ := List.mem_map.mp h
  have hreader : NameReader.identifier.ReadsPrefixes := readsNames_identifier.readsPrefixes
  obtain ⟨place, rest, hread⟩ := exists_place_of_mem_all hreader hd
  exact ⟨place, d, rfl, begins_of_atStart? hreader hread⟩

/-- A name that is declared somewhere has a first declaration. -/
theorem exists_standsFirst {place : Nat} {d : Declaration} (hname : d.name = name)
    (h : d.Begins (script.drop place)) :
    ∃ place, ∃ first : Declaration, first.name = name ∧ first.StandsFirst script place := by
  cases hfirst : first? (.exactly name) script with
  | none => exact absurd h (first?_exactly_eq_none_iff.mp hfirst place d hname)
  | some first =>
    obtain ⟨hsame, place, hplace⟩ := first?_exactly_eq_some_iff.mp hfirst
    exact ⟨place, first, hsame, hplace⟩

theorem statementTexts_eq_nil_iff {body : Text} :
    statementTexts body = [] ↔ ∀ c ∈ body, c = ';' := by
  have hpieces := Text.cutInto_pieces ';' body
  rw [statementTexts, items_eq_nil_iff hpieces, hpieces.eq_nil_iff]

/-- A name that is listed is found, and compiles to a function unless the first declaration of it has
nothing but semicolons in its body. -/
theorem listed_names_are_found (script name : Text) (h : name ∈ namesIn script) :
    (∀ other, extract script name ≠ .error (.functionNotFound other)) ∧
    ∃ place, ∃ d : Declaration, d.name = name ∧ d.StandsFirst script place ∧
      ((∃ c ∈ d.body, c ≠ ';') → ∃ f, extract script name = .ok f) ∧
      ((∀ c ∈ d.body, c = ';') → extract script name = .error (.emptyBody name)) := by
  obtain ⟨_, _, hname, hbegins⟩ := exists_begins_of_mem_namesIn h
  obtain ⟨place, d, rfl, hplace⟩ := exists_standsFirst hname hbegins
  have hextract := extract_of_standsFirst hplace
  have hempty : (∀ c ∈ d.body, c = ';') → extract script d.name = .error (.emptyBody d.name) := by
    intro hbody
    rw [hextract, ofDeclaration_of_nil (statementTexts_eq_nil_iff.mpr hbody)]
  have hsome : (∃ c ∈ d.body, c ≠ ';') → ∃ f, extract script d.name = .ok f := by
    rintro ⟨c, hc, hne⟩
    have hbody : statementTexts d.body ≠ [] := fun hnil =>
      hne (statementTexts_eq_nil_iff.mp hnil c hc)
    exact ⟨_, hextract.trans (ofDeclaration_of_ne_nil hbody)⟩
  refine ⟨fun other hnone => ?_, place, d, rfl, hplace, hsome, hempty⟩
  by_cases hbody : ∀ c ∈ d.body, c = ';'
  · cases (hempty hbody).symm.trans hnone
  · obtain ⟨f, hf⟩ := hsome (by simpa using hbody)
    cases hf.symm.trans hnone

/-- A function with another inside it, and a second one of the inner name after it. The list goes past
the inner function, which the search comes to first. -/
def nested : Text :=
  "function f(a)\x7bfunction g(b)\x7b;\x7d;function g(c)\x7breturn c\x7d".toList

theorem listed_names_are_found_nested :
    namesIn nested = [['f'], ['g']] ∧ (∃ f, extract nested ['f'] = .ok f) ∧
      extract nested ['g'] = .error (.emptyBody ['g']) := by
  have hnames : namesIn nested = [['f'], ['g']] := by decide +kernel
  have hfirst (name : Text) {d : Declaration} {place : Nat} (hname : d.name = name)
      (h : d.StandsFirst nested place) : first? (.exactly name) nested = some d :=
    first?_exactly_eq_some_iff.mpr ⟨hname, place, h⟩
  obtain ⟨-, place, f, hf, hplace, hsome, -⟩ :=
    listed_names_are_found nested ['f'] (by rw [hnames]; decide)
  obtain ⟨-, place', g, hg, hplace', -, hempty⟩ :=
    listed_names_are_found nested ['g'] (by rw [hnames]; decide)
  obtain rfl : f = ⟨['f'], ['a'], "function g(b)\x7b;".toList⟩ :=
    Option.some.inj ((hfirst ['f'] hf hplace).symm.trans (by decide +kernel))
  obtain rfl : g = ⟨['g'], ['b'], [';']⟩ :=
    Option.some.inj ((hfirst ['g'] hg hplace').symm.trans (by decide +kernel))
  exact ⟨hnames, hsome ⟨'f', by decide, by decide⟩, hempty (List.forall_mem_singleton.mpr rfl)⟩

end Function

end Scriptlet
