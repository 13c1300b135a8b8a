import Mathlib.Data.List.Basic
import Scriptlet.Function
import Scriptlet.Proofs.Function.Extraction
import Scriptlet.Proofs.Function.Heading

namespace Scriptlet

/-- What is written in front of a declaration to keep it apart from what comes before. -/
def DeclarationForm.lead : DeclarationForm → Text
  | .keyword => [';']
  | .assigned => []

/-- What is written before the parentheses. The form that begins with the name needs the semicolon. -/
def DeclarationForm.opening (name : Text) : DeclarationForm → Text
  | .keyword => "function ".toList ++ name
  | .assigned => ';' :: name ++ '=' :: "function".toList

namespace DeclarationForm

@[simp] theorem opening_keyword (name : Text) :
    keyword.opening name = "function ".toList ++ name :=
  rfl

@[simp] theorem opening_assigned (name : Text) :
    assigned.opening name = ';' :: (name ++ '=' :: "function".toList) :=
  rfl

end DeclarationForm

namespace Declaration

/-- A declaration that can be written out: an identifier, and parts without what ends them. -/
structure Writable (d : Declaration) : Prop where
  name : Text.isName d.name = true
  parameters : Text.isAll isParameterChar d.parameters = true
  body_ne : d.body ≠ []
  body : '{' ∉ d.body ∧ '}' ∉ d.body

def written (d : Declaration) (form : DeclarationForm) : Text :=
  form.opening d.name ++ '(' :: (d.parameters ++ ')' :: '{' :: (d.body ++ ['}']))

variable {reader : NameReader} {d found : Declaration} {form : DeclarationForm}
variable {before there rest after : Text}

/-- What is written before the parentheses is an opening. -/
theorem opening_form (name : Text) (form : DeclarationForm) : Opening name (form.opening name) := by
  cases form with
  | keyword => exact .keyword
  | assigned =>
    have h : Opening name (';' :: (name ++ []) ++ '=' :: ([] ++ "function".toList)) :=
      .assigned (.inr rfl) (by simp)
    simpa using h

/-- A declaration that was written is recognised there, and all of it. -/
theorem atStart?_written (hd : d.Writable) (hreads : reader.Reads d.name) (rest : Text) :
    atStart? reader (d.written form ++ rest) = some (d, rest) := by
  have htext : d.written form ++ rest = form.opening d.name ++
      '(' :: (d.parameters ++ ')' :: '{' :: (d.body ++ '}' :: rest)) := by
    simp [written]
  rw [htext, atStart?_eq_some_iff]
  exact ⟨_, head?_of_opening hreads (opening_form d.name form) (by decide),
    block?_eq_some_iff.mpr ⟨rfl, hd.parameters, hd.body_ne, hd.body.2⟩⟩

def front (d : Declaration) (form : DeclarationForm) : Text :=
  form.lead ++ form.opening d.name ++ '(' :: (d.parameters ++ [')'])

theorem written_eq_front (d : Declaration) (form : DeclarationForm) :
    form.lead ++ d.written form = d.front form ++ '{' :: (d.body ++ ['}']) := by
  simp [written, front]

theorem mem_opening {name : Text} {c : Char} (hc : c ∈ form.lead ++ form.opening name) :
    c ∈ ";function =".toList ∨ c ∈ name := by
  cases form with
  | keyword =>
    have hletters : ';' :: "function ".toList ⊆ ";function =".toList := by decide
    have hc : c ∈ ';' :: "function ".toList ++ name := hc
    exact (List.mem_append.mp hc).imp_left fun hc => hletters hc
  | assigned =>
    have hletters : '=' :: "function".toList ⊆ ";function =".toList := by decide
    rcases List.mem_cons.mp hc with rfl | hc
    · exact .inl (by decide)
    · exact (List.mem_append.mp hc).symm.imp_left fun hc => hletters hc

theorem noBrace_front (hd : d.Writable) : ∀ c ∈ d.front form, noBrace c = true := by
  have hletters : ";function =".toList.all noBrace = true := by decide
  intro c hc
  rcases List.mem_append.mp hc with hopening | hrest
  · rcases mem_opening hopening with hc | hc
    · exact List.all_eq_true.mp hletters c hc
    · exact noBrace_of (by decide) (Text.isNamePart_of_isName hd.name c hc)
  · simp only [List.mem_cons, List.mem_append, List.not_mem_nil, or_false] at hrest
    rcases hrest with rfl | hc | rfl
    · decide
    · exact noBrace_of (by decide) ((Text.isAll_iff.mp hd.parameters).2 c hc)
    · decide

/-- There is one opening parenthesis in front of the body. -/
theorem paren_not_mem (hd : d.Writable) (form : DeclarationForm) :
    '(' ∉ form.lead ++ form.opening d.name ∧ '(' ∉ d.parameters ++ [')'] := by
  constructor
  · intro hc
    rcases mem_opening hc with hc | hc
    · exact absurd hc (by decide)
    · exact absurd (Text.isNamePart_of_isName hd.name _ hc) (by decide)
  · rw [List.mem_append, not_or]
    exact ⟨Text.not_mem_of_isAll hd.parameters rfl, by decide⟩

/-- Nothing is recognised in a body: the first brace to come there is the closing one. -/
theorem not_atStart?_in_body (hd : d.Writable) (hreader : reader.ReadsNames)
    (hsplit : '{' :: (d.body ++ ['}']) = before ++ there) (hthere : there ≠ []) :
    atStart? reader (there ++ rest) = none := by
  rw [Option.eq_none_iff_forall_ne_some]
  rintro ⟨found, after⟩ h
  obtain ⟨_, _, c, head, inside, -, -, hc, hbraces, htext⟩ := exists_front_of_atStart? hreader h
  obtain ⟨x, there, rfl⟩ := List.exists_cons_of_ne_nil hthere
  obtain ⟨rfl, htext⟩ := List.cons.inj htext
  rcases List.eq_nil_or_concat there with rfl | ⟨inner, y, rfl⟩
  · have hlast : ('{' :: d.body) ++ ['}'] = before ++ [x] := hsplit
    exact hc (List.append_singleton_inj.mp hlast).2.symm
  · have hends : ('{' :: d.body) ++ ['}'] = (before ++ x :: inner) ++ [y] := by
      simpa using hsplit
    obtain ⟨hbody, rfl⟩ := List.append_singleton_inj.mp hends
    have hinner : inner ⊆ d.body := by
      cases before with
      | nil => exact (List.cons.inj hbody).2 ▸ List.Subset.refl _
      | cons b before =>
        rw [(List.cons.inj hbody).2]
        exact fun z hz => by simp [hz]
    have hnoBrace : ∀ z ∈ inner, noBrace z = true := by
      intro z hz
      simp only [noBrace, Bool.and_eq_true, bne_iff_ne]
      constructor
      · rintro rfl
        exact hd.body.1 (hinner hz)
      · rintro rfl
        exact hd.body.2 (hinner hz)
    have hmeet : inner ++ '}' :: rest = head ++ '{' :: inside := by simpa using htext
    have hsame := (Text.run_unique hmeet hnoBrace hbraces (by decide) (by decide)).2.1
    exact absurd hsame (by decide)

/-- In a declaration that was written nothing is recognised but that declaration. -/
theorem lead_of_atStart? (hd : d.Writable) (hreader : reader.ReadsNames)
    (hsplit : form.lead ++ d.written form = before ++ there) (hthere : there ≠ [])
    (h : atStart? reader (there ++ rest) = some (found, after)) :
    before = form.lead ∧ found.name = d.name := by
  obtain ⟨opening, parameters, c, head, inside, hopening, hhead, hc, hbraces, htext⟩ :=
    exists_front_of_atStart? hreader h
  rw [written_eq_front] at hsplit
  rcases List.append_eq_append_iff.mp hsplit with ⟨w, rfl, hbody⟩ | ⟨w, hfront, rfl⟩
  · rw [not_atStart?_in_body hd hreader hbody hthere] at h
    cases h
  cases w with
  | nil =>
    have hbody : '{' :: (d.body ++ ['}']) = [] ++ '{' :: (d.body ++ ['}']) := rfl
    rw [List.nil_append, not_atStart?_in_body hd hreader hbody (by simp)] at h
    cases h
  | cons x w =>
    -- Both texts run up to the first brace, so the front ends with all that was recognised.
    have hmeet : w ++ '{' :: (d.body ++ '}' :: rest) = head ++ '{' :: inside := by
      have := (List.cons.inj htext).2
      simpa using this
    have hw : ∀ z ∈ w, noBrace z = true := fun z hz =>
      noBrace_front hd z (hfront ▸ List.mem_append_right _ (List.mem_cons_of_mem _ hz))
    obtain ⟨rfl, -, -⟩ := Text.run_unique hmeet hw hbraces (by decide) (by decide)
    obtain rfl : x = c := (List.cons.inj htext).1
    rw [← hhead] at hfront
    have hparen : form.lead ++ form.opening d.name ++ '(' :: (d.parameters ++ [')']) =
        (before ++ opening) ++ '(' :: (parameters ++ [')']) := by
      rw [List.append_assoc before]
      exact hfront
    obtain ⟨hfirst, hsecond⟩ := paren_not_mem hd form
    obtain ⟨hopens, -, -⟩ := (List.append_cons_inj_of_notMem hfirst hsecond).mp hparen
    obtain ⟨hlead, hname⟩ := (opening_form d.name form).unique hopening
      (Text.isNamePart_of_isName hd.name) (opening_of_atStart? hreader h).1 hopens
    exact ⟨hlead.symm, hname.symm⟩

/-! ### Searching through what was written -/

/-- A search goes past what nothing is recognised in. -/
theorem first?_append_of_none {t : Text}
    (hnone : ∀ before there, t = before ++ there → there ≠ [] →
      atStart? reader (there ++ rest) = none) :
    first? reader (t ++ rest) = first? reader rest := by
  induction t with
  | nil => rfl
  | cons c t ih =>
    have hstart : atStart? reader (c :: (t ++ rest)) = none := hnone [] _ rfl (by simp)
    rw [List.cons_append, first?_of_none hstart]
    exact ih fun before there hsplit hthere => hnone (c :: before) there (by rw [hsplit]; rfl) hthere

theorem all_append_of_none {t : Text}
    (hnone : ∀ before there, t = before ++ there → there ≠ [] →
      atStart? reader (there ++ rest) = none) :
    all reader (t ++ rest) = all reader rest := by
  induction t with
  | nil => rfl
  | cons c t ih =>
    have hstart : atStart? reader (c :: (t ++ rest)) = none := hnone [] _ rfl (by simp)
    rw [List.cons_append, all_of_none hstart]
    exact ih fun before there hsplit hthere => hnone (c :: before) there (by rw [hsplit]; rfl) hthere

/-- Nothing is recognised in front of a declaration that was written. -/
theorem not_atStart?_in_lead (hd : d.Writable) (hreader : reader.ReadsNames) (rest : Text)
    (hsplit : form.lead = before ++ there) (hthere : there ≠ []) :
    atStart? reader (there ++ (d.written form ++ rest)) = none := by
  rw [Option.eq_none_iff_forall_ne_some]
  rintro ⟨found, after⟩ h
  rw [← List.append_assoc] at h
  have hwhole : form.lead ++ d.written form = before ++ (there ++ d.written form) := by
    rw [hsplit, List.append_assoc]
  obtain ⟨hbefore, -⟩ := lead_of_atStart? hd hreader hwhole (by simp [hthere]) h
  rw [hbefore] at hsplit
  exact hthere (List.append_right_eq_self.mp hsplit.symm)

section Found

variable (hd : d.Writable) (hreader : reader.ReadsNames) (hreads : reader.Reads d.name)
include hd hreader hreads

/-- A search that reads the name finds the declaration that comes first. -/
theorem first?_written (form : DeclarationForm) (rest : Text) :
    first? reader (form.lead ++ d.written form ++ rest) = some d := by
  rw [List.append_assoc,
    first?_append_of_none fun _ _ => not_atStart?_in_lead hd hreader rest]
  exact first?_of_atStart? (atStart?_written hd hreads rest)

theorem all_written (form : DeclarationForm) (rest : Text) :
    all reader (form.lead ++ d.written form ++ rest) = d :: all reader rest := by
  rw [List.append_assoc,
    all_append_of_none fun _ _ => not_atStart?_in_lead hd hreader rest]
  exact all_of_atStart? (atStart?_written hd hreads rest)

end Found

/-- A search for another name goes past a declaration, whatever stands in its body. -/
theorem first?_written_of_ne {name : Text} (hd : d.Writable) (hname : Text.isName name = true)
    (hne : name ≠ d.name) (form : DeclarationForm) (rest : Text) :
    first? (.exactly name) (form.lead ++ d.written form ++ rest) =
      first? (.exactly name) rest := by
  apply first?_append_of_none
  intro before there hsplit hthere
  rw [Option.eq_none_iff_forall_ne_some]
  rintro ⟨found, after⟩ h
  obtain ⟨-, hfound⟩ := lead_of_atStart? hd (readsNames_exactly hname) hsplit hthere h
  obtain ⟨hfoundName, -⟩ := exists_atStart?_exactly_iff.mp ⟨after, h⟩
  exact hne (hfoundName.symm.trans hfound)

end Declaration

end Scriptlet
