import Scriptlet.Proofs.Function.Extraction
import Scriptlet.Proofs.Function.Heading

/-!
Which declarations are listed. The list goes on after the end of each declaration that it comes to, so
it leaves out what stands between the braces of another. Nothing else is left out: no declaration
begins inside the heading of another, and all that begin between the same braces end with them. So a
name that is found is listed exactly if one of its declarations is outside the braces of every other
(`listed_iff_declared_outside`).
-/

namespace Scriptlet

namespace Declaration

/-- That a text is put together from the heading of a declaration, its body in braces and a rest. -/
structure Stands (d : Declaration) (t heading rest : Text) : Prop where
  parameters : Text.isAll isParameterChar d.parameters = true
  body_ne_nil : d.body ≠ []
  brace_not_mem : '}' ∉ d.body
  heading_eq : ∃ opening, Opening d.name opening ∧
    heading = opening ++ '(' :: (d.parameters ++ [')'])
  text_eq : t = heading ++ '{' :: (d.body ++ '}' :: rest)

/-- That a place of a text is between the braces of a declaration: from the opening brace on, with
which a declaration inside may begin, up to before the closing one. -/
def Enclosed (t : Text) (place : Nat) : Prop :=
  ∃ outer, ∃ d : Declaration, ∃ heading rest, Text.isName d.name = true ∧
    d.Stands (t.drop outer) heading rest ∧
    outer + heading.length ≤ place ∧ place ≤ outer + heading.length + d.body.length

variable {t heading heading' rest rest' : Text} {d e : Declaration}

theorem begins_iff_stands : d.Begins t ↔ ∃ heading rest, d.Stands t heading rest := by
  constructor
  · rintro ⟨hparameters, hbody, hbrace, opening, rest, hopening, rfl⟩
    exact ⟨_, rest, hparameters, hbody, hbrace, ⟨opening, hopening, rfl⟩, by simp⟩
  · rintro ⟨_, rest, hparameters, hbody, hbrace, ⟨opening, hopening, rfl⟩, rfl⟩
    exact ⟨hparameters, hbody, hbrace, opening, rest, hopening, by simp⟩

/-! ### Reading any identifier -/

theorem isName_of_read_identifier {name : Text}
    (h : NameReader.identifier.read t = some (name, rest)) : Text.isName name = true := by
  cases t with
  | nil => cases h
  | cons c t =>
    simp only [NameReader.identifier, Option.ite_none_right_eq_some, Option.some.injEq] at h
    obtain ⟨hstart, hrun⟩ := h
    obtain rfl : (c :: t).takeWhile Text.isNamePart = name := congrArg Prod.fst hrun
    rw [List.takeWhile_cons_of_pos (Text.isNamePart_of_isNameStart hstart)]
    simp only [Text.isName, hstart, Bool.true_and]
    exact List.all_takeWhile

/-- Reading any identifier comes to the declarations whose name is one. -/
theorem atStart?_identifier_iff :
    atStart? .identifier t = some (d, rest) ↔
      Text.isName d.name = true ∧ ∃ heading, d.Stands t heading rest := by
  rw [atStart?_eq_some_iff]
  constructor
  · rintro ⟨afterHead, hhead, hblock⟩
    have hname : Text.isName d.name = true := by
      rcases head?_eq_some_iff.mp hhead with ⟨_, -, hread⟩ | ⟨_, _, _, _, -, -, -, hread⟩
      · exact isName_of_read_identifier hread
      · exact isName_of_read_identifier hread
    obtain ⟨opening, hopening, rfl⟩ := opening_of_head? readsNames_identifier.readsPrefixes hhead
    obtain ⟨rfl, hparameters, hbody, hbrace⟩ := block?_eq_some_iff.mp hblock
    exact ⟨hname, _, hparameters, hbody, hbrace, ⟨opening, hopening, rfl⟩, by simp⟩
  · rintro ⟨hname, _, hparameters, hbody, hbrace, ⟨opening, hopening, rfl⟩, rfl⟩
    refine ⟨'(' :: (d.parameters ++ ')' :: '{' :: (d.body ++ '}' :: rest)), ?_, ?_⟩
    · rw [← head?_of_opening (reads_identifier hname) hopening (by decide)]
      simp
    · exact block?_eq_some_iff.mpr ⟨rfl, hparameters, hbody, hbrace⟩

/-! ### Where another declaration can begin -/

namespace Stands

theorem exists_cons (h : d.Stands t heading rest) (hname : Text.isName d.name = true) :
    ∃ c front, heading = c :: front ∧ c ≠ '}' ∧ ∀ x ∈ front, noBrace x = true := by
  obtain ⟨opening, hopening, rfl⟩ := h.heading_eq
  exact hopening.exists_cons_heading (Text.isNamePart_of_isName hname)
    (Text.isAll_iff.mp h.parameters).2

theorem notParen_of_mem (h : d.Stands t heading rest) :
    ∀ x ∈ d.parameters ++ [')'], (x != '(') = true := by
  intro x hx
  rw [bne_iff_ne]
  rintro rfl
  rcases List.mem_append.mp hx with hx | hx
  · exact Text.not_mem_of_isAll h.parameters (by decide) hx
  · exact absurd hx (by decide)

/-- The first closing brace to come is the one that ends the body. -/
theorem notClosing_of_mem (h : d.Stands t heading rest) (hname : Text.isName d.name = true) :
    ∀ x ∈ heading ++ '{' :: d.body, (x != '}') = true := by
  obtain ⟨c, front, rfl, hc, hfront⟩ := h.exists_cons hname
  intro x hx
  rw [bne_iff_ne]
  rintro rfl
  simp only [List.cons_append, List.mem_cons, List.mem_append] at hx
  rcases hx with rfl | hx | hx | hx
  · exact hc rfl
  · exact absurd (hfront _ hx) (by decide)
  · exact absurd hx (by decide)
  · exact h.brace_not_mem hx

/-- What begins up to the closing brace of a declaration ends with it. -/
theorem ends_together (h : d.Stands t heading rest) (hname : Text.isName d.name = true)
    {place : Nat} (he : e.Stands (t.drop place) heading' rest') (hname' : Text.isName e.name = true)
    (hplace : place ≤ heading.length + d.body.length + 1) :
    place + heading'.length + e.body.length = heading.length + d.body.length := by
  have hdrop : t.drop place = (heading ++ '{' :: d.body).drop place ++ '}' :: rest := by
    rw [h.text_eq, ← List.drop_append_of_le_length (by simpa using by omega)]
    simp
  have htext : t.drop place = (heading' ++ '{' :: e.body) ++ '}' :: rest' := by
    rw [he.text_eq]
    simp
  obtain ⟨hsame, -, -⟩ := Text.run_unique (hdrop.symm.trans htext)
    (fun x hx => h.notClosing_of_mem hname x (List.mem_of_mem_drop hx))
    (he.notClosing_of_mem hname') (by decide) (by decide)
  have hlength := congrArg List.length hsame
  simp only [List.length_drop, List.length_append, List.length_cons] at hlength
  omega

/-- What begins inside a heading has the rest of it as its own, since the same brace comes after
both. -/
theorem drop_heading_eq (h : d.Stands t heading rest) (hname : Text.isName d.name = true)
    {place : Nat} (he : e.Stands (t.drop place) heading' rest') (hname' : Text.isName e.name = true)
    (hpos : 0 < place) (hinside : place < heading.length) : heading.drop place = heading' := by
  obtain ⟨c, front, hheading, -, hfront⟩ := h.exists_cons hname
  obtain ⟨c', front', hheading', -, hfront'⟩ := he.exists_cons hname'
  have hne : heading.drop place ≠ [] := by
    rw [ne_eq, List.drop_eq_nil_iff]
    omega
  obtain ⟨x, there, hthere⟩ := List.exists_cons_of_ne_nil hne
  have hnoBrace : ∀ z ∈ there, noBrace z = true := by
    intro z hz
    obtain ⟨before, rfl⟩ := Nat.exists_eq_succ_of_ne_zero (Nat.ne_of_gt hpos)
    rw [hheading, List.drop_succ_cons] at hthere
    exact hfront z (List.mem_of_mem_drop (hthere ▸ List.mem_cons_of_mem x hz))
  have hmeet : heading.drop place ++ '{' :: (d.body ++ '}' :: rest) =
      heading' ++ '{' :: (e.body ++ '}' :: rest') := by
    rw [← he.text_eq, h.text_eq, List.drop_append_of_le_length (by omega)]
  rw [hthere, hheading', List.cons_append, List.cons_append] at hmeet
  obtain ⟨rfl, hmeets⟩ := List.cons.inj hmeet
  obtain ⟨rfl, -, -⟩ := Text.run_unique hmeets hnoBrace hfront' (by decide) (by decide)
  rw [hthere, hheading']

/-- No declaration begins inside the heading of another: its opening would end the other one. -/
theorem not_inside_heading (h : d.Stands t heading rest) (hname : Text.isName d.name = true)
    {place : Nat} (he : e.Stands (t.drop place) heading' rest') (hname' : Text.isName e.name = true)
    (hpos : 0 < place) : heading.length ≤ place := by
  rw [← Nat.not_lt]
  intro hinside
  have hsame := h.drop_heading_eq hname he hname' hpos hinside
  obtain ⟨opening, hopening, heq⟩ := h.heading_eq
  obtain ⟨opening', hopening', heq'⟩ := he.heading_eq
  have hparens : opening ++ '(' :: (d.parameters ++ [')']) =
      (heading.take place ++ opening') ++ '(' :: (e.parameters ++ [')']) := by
    rw [← heq, List.append_assoc, ← heq', ← hsame, List.take_append_drop]
  obtain ⟨hopens, -, -⟩ := Text.run_unique_last hparens h.notParen_of_mem he.notParen_of_mem
    (by decide) (by decide)
  obtain ⟨hnone, -⟩ := hopening.unique hopening' (Text.isNamePart_of_isName hname)
    (Text.isNamePart_of_isName hname') ((List.nil_append opening).trans hopens)
  have hlength := congrArg List.length hnone
  simp only [List.length_nil, List.length_take] at hlength
  omega

theorem drop_eq_rest (h : d.Stands t heading rest) :
    t.drop (heading.length + d.body.length + 2) = rest := by
  have htext : t = (heading ++ '{' :: (d.body ++ ['}'])) ++ rest := by
    rw [h.text_eq]
    simp
  rw [htext]
  exact List.drop_left' (by simp; omega)

/-- What begins in the text of a declaration, other than that one, is enclosed by it. -/
theorem enclosed (h : d.Stands t heading rest) (hname : Text.isName d.name = true) {place : Nat}
    (he : e.Stands (t.drop place) heading' rest') (hname' : Text.isName e.name = true)
    (hpos : 0 < place) (hplace : place ≤ heading.length + d.body.length + 1) : Enclosed t place := by
  have hopen := h.not_inside_heading hname he hname' hpos
  have hclose := h.ends_together hname he hname' hplace
  exact ⟨0, d, heading, rest, hname, h, by omega, by omega⟩

end Stands

theorem not_enclosed_zero : ¬ Enclosed t 0 := by
  rintro ⟨outer, d, heading, rest, hname, hstands, hopen, -⟩
  obtain ⟨c, front, rfl, -⟩ := hstands.exists_cons hname
  simp at hopen

/-! ### The list -/

/-- A place is enclosed by nothing before a cut that no declaration reaches across. -/
theorem enclosed_iff_of_le {n place : Nat} (hn : n ≤ place)
    (hclear : ∀ outer < n, ∀ (d : Declaration) (heading rest : Text), Text.isName d.name = true →
      d.Stands (t.drop outer) heading rest → outer + heading.length + d.body.length < n) :
    Enclosed t place ↔ Enclosed (t.drop n) (place - n) := by
  constructor
  · rintro ⟨outer, d, heading, rest, hname, hstands, hopen, hclose⟩
    rcases Nat.lt_or_ge outer n with hlt | hge
    · have := hclear outer hlt d heading rest hname hstands
      omega
    · refine ⟨outer - n, d, heading, rest, hname, ?_, by omega, by omega⟩
      rw [List.drop_drop, Nat.add_sub_cancel' hge]
      exact hstands
  · rintro ⟨outer, d, heading, rest, hname, hstands, hopen, hclose⟩
    rw [List.drop_drop] at hstands
    exact ⟨n + outer, d, heading, rest, hname, hstands, by omega, by omega⟩

/-- Listed are the declarations that begin outside the braces of all others. -/
theorem mem_all_identifier_iff :
    d ∈ all .identifier t ↔ Text.isName d.name = true ∧
      ∃ place, d.Begins (t.drop place) ∧ ¬ Enclosed t place := by
  fun_induction all .identifier t with
  | case1 =>
    have hnone (place : Nat) : ¬ d.Begins (List.drop place []) := by
      rw [List.drop_nil]
      rintro ⟨-, -, -, opening, rest, -, htext⟩
      simp at htext
    simp only [List.not_mem_nil, false_iff, not_and, not_exists]
    intro _ place hbegins
    exact absurd hbegins (hnone place)
  | case2 c t found after hstart ih =>
    obtain ⟨hfound, heading, hstands⟩ := atStart?_identifier_iff.mp hstart
    have hclear : ∀ outer < heading.length + found.body.length + 2,
        ∀ (e : Declaration) (heading' rest : Text), Text.isName e.name = true →
        e.Stands ((c :: t).drop outer) heading' rest →
        outer + heading'.length + e.body.length < heading.length + found.body.length + 2 := by
      intro outer hlt e heading' rest hname he
      have := hstands.ends_together hfound he hname (by omega)
      omega
    rw [List.mem_cons, ih, ← hstands.drop_eq_rest]
    constructor
    · rintro (rfl | ⟨hname, place, hbegins, hout⟩)
      · exact ⟨hfound, 0, begins_iff_stands.mpr ⟨heading, after, hstands⟩, not_enclosed_zero⟩
      · rw [List.drop_drop] at hbegins
        refine ⟨hname, _, hbegins, ?_⟩
        rw [enclosed_iff_of_le (Nat.le_add_right _ place) hclear, Nat.add_sub_cancel_left]
        exact hout
    · rintro ⟨hname, place, hbegins, hout⟩
      obtain ⟨heading', rest, he⟩ := begins_iff_stands.mp hbegins
      rcases Nat.lt_or_ge place (heading.length + found.body.length + 2) with hlt | hge
      · rcases Nat.eq_zero_or_pos place with rfl | hpos
        · cases hstart.symm.trans (atStart?_identifier_iff.mpr ⟨hname, heading', he⟩)
          exact .inl rfl
        · exact absurd (hstands.enclosed hfound he hname hpos (by omega)) hout
      · rw [enclosed_iff_of_le hge hclear] at hout
        refine .inr ⟨hname, place - (heading.length + found.body.length + 2), ?_, hout⟩
        rw [List.drop_drop, Nat.add_sub_cancel' hge]
        exact hbegins
  | case3 c t hstart ih =>
    -- Nothing stands at the first place, so it encloses nothing.
    have hnone : ∀ (e : Declaration) (heading rest : Text), Text.isName e.name = true →
        ¬ e.Stands (c :: t) heading rest := by
      intro e heading rest hname hstands
      cases hstart.symm.trans (atStart?_identifier_iff.mpr ⟨hname, heading, hstands⟩)
    have hclear : ∀ outer < 1, ∀ (e : Declaration) (heading rest : Text), Text.isName e.name = true →
        e.Stands ((c :: t).drop outer) heading rest → outer + heading.length + e.body.length < 1 := by
      intro outer hlt e heading rest hname hstands
      obtain rfl : outer = 0 := by omega
      exact absurd hstands (hnone e heading rest hname)
    rw [ih]
    refine and_congr_right fun hname => ⟨?_, ?_⟩
    · rintro ⟨place, hbegins, hout⟩
      refine ⟨place + 1, hbegins, ?_⟩
      rw [enclosed_iff_of_le (Nat.le_add_left 1 place) hclear]
      exact hout
    · rintro ⟨place, hbegins, hout⟩
      cases place with
      | zero =>
        obtain ⟨heading, rest, hstands⟩ := begins_iff_stands.mp hbegins
        exact absurd hstands (hnone d heading rest hname)
      | succ place =>
        rw [enclosed_iff_of_le (Nat.le_add_left 1 place) hclear] at hout
        exact ⟨place, hbegins, hout⟩

end Declaration

namespace Function

open Declaration

theorem mem_namesIn_iff {script name : Text} :
    name ∈ namesIn script ↔ Text.isName name = true ∧ ∃ place, ∃ d : Declaration, d.name = name ∧
      d.Begins (script.drop place) ∧ ¬ Enclosed script place := by
  simp only [namesIn, List.mem_map, mem_all_identifier_iff]
  constructor
  · rintro ⟨d, ⟨hname, place, hbegins, hout⟩, rfl⟩
    exact ⟨hname, place, d, rfl, hbegins, hout⟩
  · rintro ⟨hname, place, d, rfl, hbegins, hout⟩
    exact ⟨d, ⟨hname, place, hbegins, hout⟩, rfl⟩

/-- A name is found wherever a declaration of it stands. -/
theorem extract_ne_functionNotFound_iff {script name : Text} :
    (∀ other, extract script name ≠ .error (.functionNotFound other)) ↔
      ∃ place, ∃ d : Declaration, d.name = name ∧ d.Begins (script.drop place) := by
  constructor
  · intro h
    cases hfirst : first? (.exactly name) script with
    | none => exact absurd (by simp only [extract, hfirst]) (h name)
    | some d =>
      obtain ⟨hname, place, hplace⟩ := first?_exactly_eq_some_iff.mp hfirst
      exact ⟨place, d, hname, hplace.begins⟩
  · rintro ⟨place, d, hname, hbegins⟩ other hextract
    have hfinds := finds_extract script name
    rw [hextract] at hfinds
    cases hfinds with
    | notFound hnone => exact hnone place d hname hbegins

/-- A name is found if there is a declaration of it anywhere, and listed if there is one outside the
braces of all declarations. -/
theorem listed_iff_declared_outside (script name : Text) :
    ((∀ other, extract script name ≠ .error (.functionNotFound other)) ↔
      ∃ place, ∃ d : Declaration, d.name = name ∧ d.Begins (script.drop place)) ∧
    (name ∈ namesIn script ↔ Text.isName name = true ∧ ∃ place, ∃ d : Declaration, d.name = name ∧
      d.Begins (script.drop place) ∧ ¬ Enclosed script place) :=
  ⟨extract_ne_functionNotFound_iff, mem_namesIn_iff⟩

/-- A function inside the braces of another is found, but it is not listed. -/
theorem inner_function_not_listed :
    let script := "function f(a)\x7bfunction g(b)\x7breturn b\x7d".toList
    Text.isName ['g'] = true ∧
      extract script ['g'] = .ok ⟨['g'], [['b']], ["return b".toList]⟩ ∧
      ['g'] ∉ namesIn script := by
  have hnames : namesIn "function f(a)\x7bfunction g(b)\x7breturn b\x7d".toList = [['f']] := by
    decide +kernel
  refine ⟨by decide, rfl, ?_⟩
  rw [hnames]
  decide

end Function

end Scriptlet
