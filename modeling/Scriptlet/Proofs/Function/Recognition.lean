import Scriptlet.Function
import Scriptlet.Proofs.Text.Cut

namespace Scriptlet

namespace Declaration

/-- What stands before the parentheses of a declaration. -/
inductive Opening (name : Text) : Text → Prop where
  | keyword : Opening name ("function ".toList ++ name)
  | assigned {c : Char} {before after : Text} : c = '{' ∨ c = ';' →
    (∀ x ∈ before ++ after, Text.isBlank x = true) →
    Opening name (c :: (name ++ before) ++ '=' :: (after ++ "function".toList))

variable {reader : NameReader} {t rest name : Text}

/-- The scan for a head as an equation on the text. -/
theorem head?_eq_some_iff :
    head? reader t = some (name, rest) ↔
      (∃ afterKeyword, t = "function ".toList ++ afterKeyword ∧
        reader.read afterKeyword = some (name, rest)) ∨
      ∃ c afterMark before after, t = c :: afterMark ∧ (c = '{' ∨ c = ';') ∧
        (∀ x ∈ before ++ after, Text.isBlank x = true) ∧
        reader.read afterMark =
          some (name, before ++ '=' :: (after ++ "function".toList ++ rest)) := by
  have hequals (t rest : Text) : Text.after? ['='] (Text.trimStart t) = some rest ↔
      ∃ blank, t = blank ++ (['='] ++ rest) ∧ ∀ x ∈ blank, Text.isBlank x = true :=
    Text.after?_trimStart_eq_some_iff (by decide)
  have hfunction (t rest : Text) :
      Text.after? "function".toList (Text.trimStart t) = some rest ↔
        ∃ blank, t = blank ++ ("function".toList ++ rest) ∧ ∀ x ∈ blank, Text.isBlank x = true :=
    Text.after?_trimStart_eq_some_iff (by decide)
  constructor
  · intro h
    cases t with
    | nil => cases h
    | cons c t =>
      simp only [head?] at h
      split at h
      · rename_i hc
        simp only [Option.bind_eq_bind, Option.bind_eq_some_iff, Option.pure_def, Option.some.injEq,
          Prod.mk.injEq, hequals, hfunction] at h
        obtain ⟨⟨read, _⟩, hread, _, ⟨before, rfl, hbefore⟩, _, ⟨after, rfl, hafter⟩, rfl, rfl⟩ := h
        refine .inr ⟨c, t, before, after, rfl, hc, ?_, by simpa using hread⟩
        intro x hx
        exact (List.mem_append.mp hx).elim (hbefore x) (hafter x)
      · simp only [Option.bind_eq_bind, Option.bind_eq_some_iff, Text.after?_eq_some_iff] at h
        exact .inl h
  · rintro (⟨afterKeyword, rfl, hread⟩ | ⟨c, afterMark, before, after, rfl, hc, hblank, hread⟩)
    · simp [head?, Text.after?, hread]
    · have hbefore : Text.after? ['=']
          (Text.trimStart (before ++ '=' :: (after ++ "function".toList ++ rest))) =
          some (after ++ ("function".toList ++ rest)) :=
        (hequals _ _).mpr ⟨before, by simp, fun x hx => hblank x (List.mem_append_left _ hx)⟩
      have hafter : Text.after? "function".toList
          (Text.trimStart (after ++ ("function".toList ++ rest))) = some rest :=
        (hfunction _ _).mpr ⟨after, rfl, fun x hx => hblank x (List.mem_append_right _ hx)⟩
      rw [head?, if_pos hc, hread]
      simp only [Option.bind_eq_bind, Option.bind_some, hbefore, hafter, Option.pure_def]

theorem block?_eq_some_iff {parameters body : Text} :
    block? t = some (parameters, body, rest) ↔
      t = '(' :: (parameters ++ ')' :: '{' :: (body ++ '}' :: rest)) ∧
        Text.isAll isParameterChar parameters = true ∧ body ≠ [] ∧ '}' ∉ body := by
  constructor
  · intro h
    simp only [block?, Option.bind_eq_bind, Option.bind_eq_some_iff, Option.pure_def,
      Text.after?_eq_some_iff] at h
    obtain ⟨inside, rfl, afterHead, hhead, afterBody, hbody, h⟩ := h
    cases hfirst : Text.run isParameterChar inside with
    | mk first afterFirst =>
    cases hsecond : Text.run (· != '}') afterHead with
    | mk second afterSecond =>
    simp only [hfirst, hsecond] at hhead hbody h
    split at h
    · cases h
    · rename_i hne
      rw [not_or] at hne
      cases h
      subst hhead hbody
      obtain ⟨rfl, hall, -⟩ := Text.run_eq_cons_iff.mp hfirst
      obtain ⟨rfl, hfree, -⟩ := Text.run_eq_cons_iff.mp hsecond
      exact ⟨rfl, Text.isAll_iff.mpr ⟨hne.1, hall⟩, hne.2,
        fun hmem => absurd (hfree _ hmem) (by decide)⟩
  · rintro ⟨rfl, hparameters, hbody, hbrace⟩
    obtain ⟨hne, hall⟩ := Text.isAll_iff.mp hparameters
    have hfirst : Text.run isParameterChar (parameters ++ ')' :: '{' :: (body ++ '}' :: rest)) =
        (parameters, ')' :: '{' :: (body ++ '}' :: rest)) :=
      Text.run_eq_cons_iff.mpr ⟨rfl, hall, rfl⟩
    have hsecond : Text.run (· != '}') (body ++ '}' :: rest) = (body, '}' :: rest) := by
      refine Text.run_eq_cons_iff.mpr ⟨rfl, fun c hc => ?_, rfl⟩
      rw [bne_iff_ne]
      rintro rfl
      exact hbrace hc
    simp [block?, Text.after?, hfirst, hsecond, hne, hbody]

theorem atStart?_eq_some_iff {d : Declaration} :
    atStart? reader t = some (d, rest) ↔
      ∃ afterHead, head? reader t = some (d.name, afterHead) ∧
        block? afterHead = some (d.parameters, d.body, rest) := by
  simp only [atStart?, Option.bind_eq_bind, Option.bind_eq_some_iff, Option.pure_def,
    Option.some.injEq, Prod.mk.injEq]
  constructor
  · rintro ⟨⟨_, afterHead⟩, hhead, ⟨_, _, _⟩, hblock, rfl, rfl⟩
    exact ⟨afterHead, hhead, hblock⟩
  · rintro ⟨afterHead, hhead, hblock⟩
    exact ⟨_, hhead, _, hblock, rfl, rfl⟩

theorem read_exactly_iff {read : Text} :
    (NameReader.exactly name).read t = some (read, rest) ↔ read = name ∧ t = name ++ rest := by
  simp only [NameReader.exactly, Option.map_eq_some_iff, Prod.mk.injEq, Text.after?_eq_some_iff]
  constructor
  · rintro ⟨_, rfl, rfl, rfl⟩
    exact ⟨rfl, rfl⟩
  · rintro ⟨rfl, rfl⟩
    exact ⟨rest, rfl, rfl, rfl⟩

def NameReader.ReadsPrefixes (reader : NameReader) : Prop :=
  ∀ {t name rest}, reader.read t = some (name, rest) → t = name ++ rest

theorem readsPrefixes_exactly (name : Text) : (NameReader.exactly name).ReadsPrefixes := by
  intro t read rest h
  obtain ⟨rfl, ht⟩ := read_exactly_iff.mp h
  exact ht

/-- Where a head is read stands an opening. -/
theorem opening_of_head? (hreader : reader.ReadsPrefixes) (h : head? reader t = some (name, rest)) :
    ∃ opening, Opening name opening ∧ t = opening ++ rest := by
  rcases head?_eq_some_iff.mp h with
    ⟨afterKeyword, rfl, hread⟩ | ⟨c, afterMark, before, after, rfl, hc, hblank, hread⟩
  · exact ⟨_, .keyword, by rw [hreader hread, List.append_assoc]⟩
  · exact ⟨_, .assigned hc hblank, by simp [hreader hread]⟩

/-- Any opening is read when it has the name that is looked for. -/
theorem head?_exactly_of_opening {opening : Text} (h : Opening name opening) (rest : Text) :
    head? (.exactly name) (opening ++ rest) = some (name, rest) := by
  rw [head?_eq_some_iff]
  cases h with
  | keyword => exact .inl ⟨name ++ rest, by simp, read_exactly_iff.mpr ⟨rfl, rfl⟩⟩
  | @assigned c before after hc hblank =>
    refine .inr ⟨c, _, before, after, List.cons_append, hc, hblank, read_exactly_iff.mpr ⟨rfl, ?_⟩⟩
    simp

theorem suffix_of_atStart? (hreader : reader.ReadsPrefixes) {d : Declaration}
    (h : atStart? reader t = some (d, rest)) : rest <:+ t := by
  obtain ⟨_, hhead, hblock⟩ := atStart?_eq_some_iff.mp h
  obtain ⟨opening, -, rfl⟩ := opening_of_head? hreader hhead
  obtain ⟨rfl, -⟩ := block?_eq_some_iff.mp hblock
  exact ⟨opening ++ '(' :: (d.parameters ++ ')' :: '{' :: (d.body ++ ['}'])), by simp⟩

/-! ### One step of a search -/

theorem first?_of_atStart? {d : Declaration} (h : atStart? reader t = some (d, rest)) :
    first? reader t = some d := by
  cases t with
  | nil => cases h
  | cons c t => simp only [first?, h]

theorem first?_of_none {c : Char} (h : atStart? reader (c :: t) = none) :
    first? reader (c :: t) = first? reader t := by
  simp only [first?, h]

theorem all_of_atStart? {d : Declaration} (h : atStart? reader t = some (d, rest)) :
    all reader t = d :: all reader rest := by
  cases t with
  | nil => cases h
  | cons c t =>
    rw [all]
    split
    · rename_i hstart
      cases hstart.symm.trans h
      rfl
    · rename_i hstart
      cases hstart.symm.trans h

theorem all_of_none {c : Char} (h : atStart? reader (c :: t) = none) :
    all reader (c :: t) = all reader t := by
  rw [all]
  split
  · rename_i hstart
    cases hstart.symm.trans h
  · rfl

end Declaration

end Scriptlet
