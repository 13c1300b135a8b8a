import Scriptlet.Proofs.Function.Recognition
import Scriptlet.Proofs.Text.Token

namespace Scriptlet.Declaration

/-- A reader that gives a beginning of the text, with nothing in it but what an identifier may
have. -/
def NameReader.ReadsNames (reader : NameReader) : Prop :=
  ∀ {t name rest}, reader.read t = some (name, rest) →
    t = name ++ rest ∧ ∀ c ∈ name, Text.isNamePart c = true

/-- A reader that reads a name whenever no other can be meant. -/
def NameReader.Reads (reader : NameReader) (name : Text) : Prop :=
  ∀ c rest, Text.isNamePart c = false → reader.read (name ++ c :: rest) = some (name, c :: rest)

theorem readsNames_exactly {name : Text} (hname : Text.isName name = true) :
    (NameReader.exactly name).ReadsNames := by
  intro t read rest h
  obtain ⟨rfl, ht⟩ := read_exactly_iff.mp h
  exact ⟨ht, Text.isNamePart_of_isName hname⟩

theorem reads_exactly (name : Text) : (NameReader.exactly name).Reads name := by
  intro c rest _
  exact read_exactly_iff.mpr ⟨rfl, rfl⟩

theorem readsNames_identifier : NameReader.identifier.ReadsNames := by
  intro t name rest h
  cases t with
  | nil => cases h
  | cons c t =>
    simp only [NameReader.identifier, Option.ite_none_right_eq_some, Option.some.injEq] at h
    refine ⟨Text.eq_of_run h.2, ?_⟩
    obtain rfl : (c :: t).takeWhile Text.isNamePart = name := congrArg Prod.fst h.2
    exact List.all_eq_true.mp List.all_takeWhile

theorem reads_identifier {name : Text} (hname : Text.isName name = true) :
    NameReader.identifier.Reads name := by
  intro c rest hc
  have hrun : Text.run Text.isNamePart (name ++ c :: rest) = (name, c :: rest) :=
    Text.run_eq_cons_iff.mpr ⟨rfl, Text.isNamePart_of_isName hname, hc⟩
  cases name with
  | nil => cases hname
  | cons d name =>
    simp only [Text.isName, Bool.and_eq_true] at hname
    simp only [List.cons_append] at hrun
    simp [NameReader.identifier, hname.1, hrun]

variable {reader : NameReader}

theorem NameReader.ReadsNames.readsPrefixes (hreader : reader.ReadsNames) :
    reader.ReadsPrefixes :=
  fun h => (hreader h).1

theorem isNamePart_of_head? (hreader : reader.ReadsNames) {t name rest : Text}
    (h : head? reader t = some (name, rest)) : ∀ c ∈ name, Text.isNamePart c = true := by
  rcases head?_eq_some_iff.mp h with ⟨_, -, hread⟩ | ⟨_, _, _, _, -, -, -, hread⟩
  · exact (hreader hread).2
  · exact (hreader hread).2

/-- Up to its opening brace a declaration is an opening and parameters. -/
theorem opening_of_atStart? (hreader : reader.ReadsNames) {t rest : Text} {found : Declaration}
    (h : atStart? reader t = some (found, rest)) :
    (∀ c ∈ found.name, Text.isNamePart c = true) ∧ ∃ opening parameters after,
      Opening found.name opening ∧ (∀ c ∈ parameters, isParameterChar c = true) ∧
      t = opening ++ '(' :: (parameters ++ ')' :: '{' :: after) := by
  obtain ⟨_, hhead, hblock⟩ := atStart?_eq_some_iff.mp h
  obtain ⟨opening, hopening, rfl⟩ := opening_of_head? hreader.readsPrefixes hhead
  obtain ⟨rfl, hparameters, -⟩ := block?_eq_some_iff.mp hblock
  exact ⟨isNamePart_of_head? hreader hhead, opening, found.parameters, _, hopening,
    (Text.isAll_iff.mp hparameters).2, rfl⟩

/-- Between a name and the equals sign stands nothing that goes on with the name. -/
theorem exists_cons_of_isBlank {blank : Text} (hblank : ∀ c ∈ blank, Text.isBlank c = true)
    (after : Text) :
    ∃ c rest, blank ++ '=' :: after = c :: rest ∧ Text.isNamePart c = false := by
  cases blank with
  | nil => exact ⟨'=', after, rfl, by decide⟩
  | cons c blank => exact ⟨c, _, rfl, Text.isNamePart_of_isBlank (hblank c List.mem_cons_self)⟩

/-- Any opening is read by a reader that reads its name. -/
theorem head?_of_opening {name opening rest : Text} {c : Char} (hreads : reader.Reads name)
    (hopening : Opening name opening) (hc : Text.isNamePart c = false) :
    head? reader (opening ++ c :: rest) = some (name, c :: rest) := by
  rw [head?_eq_some_iff]
  cases hopening with
  | keyword => exact .inl ⟨_, List.append_assoc _ _ _, hreads c rest hc⟩
  | @assigned mark before after hmark hblank =>
    refine .inr ⟨mark, _, before, after, List.cons_append, hmark, hblank, ?_⟩
    obtain ⟨x, more, hcons, hx⟩ := exists_cons_of_isBlank
      (fun z hz => hblank z (List.mem_append_left _ hz)) (after ++ "function".toList ++ c :: rest)
    have hread := hreads x more hx
    rw [← hcons] at hread
    simpa using hread

def noBrace (c : Char) : Bool :=
  c != '{' && c != '}'

theorem noBrace_of {isIn : Char → Bool} {c : Char}
    (hout : isIn '{' = false ∧ isIn '}' = false) (hc : isIn c = true) : noBrace c = true := by
  simp only [noBrace, Bool.and_eq_true, bne_iff_ne]
  constructor <;> rintro rfl <;> simp_all

/-- What stands in an assigned opening after its mark. -/
theorem mem_assigned {name before after : Text} {c : Char}
    (hname : ∀ c ∈ name, Text.isNamePart c = true)
    (hblank : ∀ c ∈ before ++ after, Text.isBlank c = true)
    (hc : c ∈ name ++ before ++ '=' :: (after ++ "function".toList)) :
    Text.isNamePart c = true ∨ Text.isBlank c = true ∨ c = '=' := by
  have hkeyword : "function".toList.all Text.isNamePart = true := by decide
  simp only [List.mem_append, List.mem_cons] at hc hblank
  rcases hc with (hc | hc) | rfl | hc | hc
  · exact .inl (hname c hc)
  · exact .inr (.inl (hblank c (.inl hc)))
  · exact .inr (.inr rfl)
  · exact .inr (.inl (hblank c (.inr hc)))
  · exact .inl (List.all_eq_true.mp hkeyword c hc)

/-- Only the first character of an opening can be a brace, and only an opening one. -/
theorem Opening.exists_cons {name opening : Text} (h : Opening name opening)
    (hname : ∀ c ∈ name, Text.isNamePart c = true) :
    ∃ c front, opening = c :: front ∧ c ≠ '}' ∧ ∀ x ∈ front, noBrace x = true := by
  cases h with
  | keyword =>
    have hkeyword : "unction ".toList.all noBrace = true := by decide
    refine ⟨'f', "unction ".toList ++ name, rfl, by decide, fun x hx => ?_⟩
    rcases List.mem_append.mp hx with hx | hx
    · exact List.all_eq_true.mp hkeyword x hx
    · exact noBrace_of (by decide) (hname x hx)
  | @assigned c before after hc hblank =>
    refine ⟨c, name ++ before ++ '=' :: (after ++ "function".toList), rfl, ?_, fun x hx => ?_⟩
    · rcases hc with rfl | rfl <;> decide
    · rcases mem_assigned hname hblank hx with hpart | hblank | rfl
      · exact noBrace_of (by decide) hpart
      · exact noBrace_of (by decide) hblank
      · decide

/-- A heading goes on without a brace after its first character. -/
theorem Opening.exists_cons_heading {name opening parameters : Text} (h : Opening name opening)
    (hname : ∀ c ∈ name, Text.isNamePart c = true)
    (hparameters : ∀ c ∈ parameters, isParameterChar c = true) :
    ∃ c front, opening ++ '(' :: (parameters ++ [')']) = c :: front ∧ c ≠ '}' ∧
      ∀ x ∈ front, noBrace x = true := by
  obtain ⟨c, front, rfl, hc, hfront⟩ := h.exists_cons hname
  refine ⟨c, front ++ '(' :: (parameters ++ [')']), rfl, hc, ?_⟩
  intro x hx
  simp only [List.mem_append, List.mem_cons, List.not_mem_nil, or_false] at hx
  rcases hx with hx | rfl | hx | rfl
  · exact hfront x hx
  · decide
  · exact noBrace_of (by decide) (hparameters x hx)
  · decide

/-- From where a declaration is recognised on, the first brace to come is its opening brace. -/
theorem exists_front_of_atStart? (hreader : reader.ReadsNames) {t rest : Text} {found : Declaration}
    (h : atStart? reader t = some (found, rest)) :
    ∃ opening parameters c front after, Opening found.name opening ∧
      opening ++ '(' :: (parameters ++ [')']) = c :: front ∧ c ≠ '}' ∧
      (∀ x ∈ front, noBrace x = true) ∧ t = c :: (front ++ '{' :: after) := by
  obtain ⟨hname, opening, parameters, after, hopening, hparameters, rfl⟩ :=
    opening_of_atStart? hreader h
  obtain ⟨c, front, hheading, hc, hfront⟩ := hopening.exists_cons_heading hname hparameters
  refine ⟨opening, parameters, c, front, after, hopening, hheading, hc, hfront, ?_⟩
  have htext := congrArg (· ++ '{' :: after) hheading
  simpa using htext

/-- Before a name the keyword has a space after it, and after an equals sign it has none. -/
theorem assigned_ne_keyword {name front before blank : Text}
    (hname : ∀ c ∈ name, Text.isNamePart c = true) (hblank : ∀ c ∈ blank, Text.isBlank c = true) :
    front ++ '=' :: (blank ++ "function".toList) ≠ before ++ ("function ".toList ++ name) := by
  intro h
  have hkeyword : ∀ c ∈ "function".toList, Text.isNamePart c = true :=
    List.all_eq_true.mp (by decide)
  have hspace : before ++ ("function ".toList ++ name) =
      (before ++ "function".toList) ++ ' ' :: name := by simp
  rw [hspace] at h
  rcases List.eq_nil_or_concat blank with rfl | ⟨blank, z, rfl⟩
  · have hsame := (Text.run_unique_last h hkeyword hname (by decide) (by decide)).2.1
    exact absurd hsame (by decide)
  · have hz : Text.isNamePart z = false := Text.isNamePart_of_isBlank (hblank z (by simp))
    have h : (front ++ '=' :: blank) ++ z :: "function".toList =
        (before ++ "function".toList) ++ ' ' :: name := by simpa using h
    obtain ⟨hends, -, -⟩ := Text.run_unique_last h hkeyword hname hz (by decide)
    -- What comes before the space ends with a letter on one side only.
    have hlast : ('=' :: blank).getLast? = some 'n' := by
      have hlast := congrArg List.getLast? hends
      rw [List.getLast?_append, List.getLast?_append, List.getLast?_cons] at hlast
      simpa [List.getLast?_cons] using hlast
    rcases List.mem_cons.mp (List.mem_of_getLast? hlast) with hn | hn
    · exact absurd hn (by decide)
    · exact absurd (hblank 'n' (by simp [hn])) (by decide)

/-- Openings are told apart from behind: before the name stands the keyword with a space, or after it
the equals sign. -/
theorem Opening.unique {name name' opening opening' before before' : Text}
    (h : Opening name opening) (h' : Opening name' opening')
    (hname : ∀ c ∈ name, Text.isNamePart c = true) (hname' : ∀ c ∈ name', Text.isNamePart c = true)
    (heq : before ++ opening = before' ++ opening') : before = before' ∧ name = name' := by
  cases h with
  | keyword =>
    cases h' with
    | keyword =>
      have heq : (before ++ "function".toList) ++ ' ' :: name =
          (before' ++ "function".toList) ++ ' ' :: name' := by simpa using heq
      obtain ⟨hbefore, -, rfl⟩ := Text.run_unique_last heq hname hname' (by decide) (by decide)
      exact ⟨List.append_cancel_right hbefore, rfl⟩
    | assigned _ hblank =>
      rw [← List.append_assoc before'] at heq
      exact absurd heq.symm (assigned_ne_keyword hname fun c hc => hblank c (by simp [hc]))
  | @assigned c b a hc hblank =>
    cases h' with
    | keyword =>
      rw [← List.append_assoc before] at heq
      exact absurd heq (assigned_ne_keyword hname' fun c hc => hblank c (by simp [hc]))
    | @assigned c' b' a' hc' hblank' =>
      -- After the mark that it begins with, an assigned opening has no other.
      have hmark : ∀ z, Text.isNamePart z = true ∨ Text.isBlank z = true ∨ z = '=' →
          (z != '{' && z != ';') = true := by
        intro z hz
        simp only [Bool.and_eq_true, bne_iff_ne]
        constructor <;> rintro rfl <;> exact absurd hz (by decide)
      obtain ⟨hbefore, -, hafter⟩ := Text.run_unique_last heq
        (fun z hz => hmark z (mem_assigned hname hblank hz))
        (fun z hz => hmark z (mem_assigned hname' hblank' hz))
        (by rcases hc with rfl | rfl <;> decide) (by rcases hc' with rfl | rfl <;> decide)
      have hafter : name ++ (b ++ '=' :: (a ++ "function".toList)) =
          name' ++ (b' ++ '=' :: (a' ++ "function".toList)) := by simpa using hafter
      obtain ⟨x, rest, hcons, hx⟩ := exists_cons_of_isBlank (fun z hz =>
        hblank z (List.mem_append_left _ hz)) (a ++ "function".toList)
      obtain ⟨x', rest', hcons', hx'⟩ := exists_cons_of_isBlank (fun z hz =>
        hblank' z (List.mem_append_left _ hz)) (a' ++ "function".toList)
      rw [hcons, hcons'] at hafter
      exact ⟨hbefore, (Text.run_unique hafter hname hname' hx hx').1⟩

end Scriptlet.Declaration
