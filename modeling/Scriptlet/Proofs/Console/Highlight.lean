import Scriptlet.Console.Highlight
import Scriptlet.Proofs.Text.Cut

/-!
What a line looks like while it is typed. The colours go by quoted spans: one begins at the first quote
after the first parenthesis, ends with the next quote of its kind, or with the line if there is none,
and the next one begins at the first quote after that. A quote of the other kind within a span opens
nothing. The pieces are made in one pass that only knows which quote is open; that is enough, because a
text is taken apart into its spans from the left in one way (`quotedSpan_append_iff`).
-/

namespace Scriptlet.Console.Highlight

variable {c quote : Char} {t before span after before' span' after' inside : Text} {i : Nat}

def IsQuote (c : Char) : Prop :=
  c = '"' ∨ c = '\''

/-- A quoted span, and what stands after it: the span goes from a quote to the next one of its kind, or
to the end if there is none. -/
inductive Spans : (span after : Text) → Prop where
  | closed {quote : Char} {inside after : Text} : IsQuote quote → quote ∉ inside →
    Spans (quote :: inside ++ [quote]) after
  | unclosed {quote : Char} {inside : Text} : IsQuote quote → quote ∉ inside →
    Spans (quote :: inside) []

/-- The quoted spans of a text, each with what stands before it and after it. The first one begins at
the first quote, and each other one at the first quote after the one before it. -/
inductive QuotedSpan (t : Text) : (before span after : Text) → Prop where
  | first {before span after : Text} : t = before ++ span ++ after → (∀ c ∈ before, ¬ IsQuote c) →
    Spans span after → QuotedSpan t before span after
  | next {before span between following after : Text} :
    QuotedSpan t before span (between ++ following ++ after) → (∀ c ∈ between, ¬ IsQuote c) →
    Spans following after → QuotedSpan t (before ++ span ++ between) following after

def Quoted (t : Text) (i : Nat) : Prop :=
  ∃ before span after, QuotedSpan t before span after ∧ before.length ≤ i ∧
    i < before.length + span.length

/-! ### Taking a text apart -/

theorem Spans.exists_quote (h : Spans span after) :
    ∃ quote rest, span = quote :: rest ∧ IsQuote quote := by
  cases h with
  | closed hquote => exact ⟨_, _, rfl, hquote⟩
  | unclosed hquote => exact ⟨_, _, rfl, hquote⟩

/-- Where a span ends is settled by the text that begins with it. -/
theorem Spans.unique (h : Spans span after) (h' : Spans span' after')
    (htext : span ++ after = span' ++ after') : span = span' ∧ after = after' := by
  cases h with
  | @closed quote inside _ _ hinside =>
    cases h' with
    | @closed quote' inside' _ _ hinside' =>
      simp only [List.cons_append, List.append_assoc, List.nil_append, List.cons.injEq] at htext
      obtain ⟨rfl, htail⟩ := htext
      have hcut' := Text.cut?_eq_some_iff.mpr ⟨htail, hinside'⟩
      rw [Text.cut?_eq_some_iff.mpr ⟨rfl, hinside⟩] at hcut'
      obtain ⟨rfl, rfl⟩ := Prod.mk.inj (Option.some.inj hcut')
      exact ⟨rfl, rfl⟩
    | @unclosed quote' inside' _ hinside' =>
      simp only [List.cons_append, List.append_assoc, List.append_nil, List.cons.injEq] at htext
      obtain ⟨rfl, rfl⟩ := htext
      simp at hinside'
  | @unclosed quote inside _ hinside =>
    cases h' with
    | closed =>
      simp only [List.cons_append, List.append_assoc, List.append_nil, List.cons.injEq] at htext
      obtain ⟨rfl, rfl⟩ := htext
      simp at hinside
    | unclosed => exact ⟨by simpa using htext, rfl⟩

theorem quotedSpan_cons_iff (hc : ¬ IsQuote c) :
    QuotedSpan (c :: t) before span after ↔
      ∃ rest, before = c :: rest ∧ QuotedSpan t rest span after := by
  constructor
  · intro h
    induction h with
    | @first before span after htext hbefore hspan =>
      obtain ⟨quote, rest, rfl, hquote⟩ := hspan.exists_quote
      cases before with
      | nil =>
        obtain ⟨rfl, -⟩ := List.cons.inj htext
        exact absurd hquote hc
      | cons d before =>
        obtain ⟨rfl, htail⟩ := List.cons.inj htext
        exact ⟨before, rfl, .first htail (fun e he => hbefore e (List.mem_cons_of_mem _ he)) hspan⟩
    | next _ hbetween hfollowing ih =>
      obtain ⟨rest, rfl, hrest⟩ := ih
      exact ⟨_, rfl, .next hrest hbetween hfollowing⟩
  · rintro ⟨rest, rfl, h⟩
    induction h with
    | first htext hbefore hspan =>
      refine .first (congrArg (c :: ·) htext) ?_ hspan
      exact List.forall_mem_cons.mpr ⟨hc, hbefore⟩
    | next _ hbetween hfollowing ih => exact .next ih hbetween hfollowing

theorem quotedSpan_append_iff (hspan : Spans span after) :
    QuotedSpan (span ++ after) before' span' after' ↔
      (before' = [] ∧ span' = span ∧ after' = after) ∨
        ∃ rest, before' = span ++ rest ∧ QuotedSpan after rest span' after' := by
  constructor
  · intro h
    induction h with
    | @first before' span' after' htext hbefore' hspan' =>
      left
      have hnone : before' = [] := by
        cases before' with
        | nil => rfl
        | cons d before' =>
          obtain ⟨quote, rest, rfl, hquote⟩ := hspan.exists_quote
          obtain ⟨rfl, -⟩ := List.cons.inj htext
          exact absurd hquote (hbefore' _ List.mem_cons_self)
      subst hnone
      obtain ⟨rfl, rfl⟩ := hspan.unique hspan' htext
      exact ⟨rfl, rfl, rfl⟩
    | next _ hbetween hfollowing ih =>
      right
      rcases ih with ⟨rfl, rfl, rfl⟩ | ⟨rest, rfl, hrest⟩
      · exact ⟨_, rfl, .first rfl hbetween hfollowing⟩
      · exact ⟨_, by simp, .next hrest hbetween hfollowing⟩
  · rintro (⟨rfl, rfl, rfl⟩ | ⟨rest, rfl, h⟩)
    · exact .first rfl (by simp) hspan
    · induction h with
      | @first between following rest htext hbetween hfollowing =>
        have hfirst : QuotedSpan (span ++ after) [] span (between ++ following ++ rest) := by
          rw [← htext]
          exact .first rfl (by simp) hspan
        exact .next hfirst hbetween hfollowing
      | next _ hbetween hfollowing ih =>
        simp only [← List.append_assoc] at ih ⊢
        exact .next ih hbetween hfollowing

theorem quoted_cons_iff (hc : ¬ IsQuote c) : Quoted (c :: t) i ↔ ∃ j, i = j + 1 ∧ Quoted t j := by
  unfold Quoted
  simp only [quotedSpan_cons_iff hc]
  constructor
  · rintro ⟨_, span, after, ⟨rest, rfl, h⟩, hle, hlt⟩
    rw [List.length_cons] at hle hlt
    exact ⟨i - 1, by omega, rest, span, after, h, by omega, by omega⟩
  · rintro ⟨j, rfl, rest, span, after, h, hle, hlt⟩
    refine ⟨_, span, after, ⟨rest, rfl, h⟩, ?_, ?_⟩
    all_goals
      rw [List.length_cons]
      omega

theorem quoted_append_iff (hspan : Spans span after) :
    Quoted (span ++ after) i ↔ i < span.length ∨ ∃ j, i = span.length + j ∧ Quoted after j := by
  unfold Quoted
  simp only [quotedSpan_append_iff hspan]
  constructor
  · rintro ⟨_, _, _, ⟨rfl, rfl, rfl⟩ | ⟨rest, rfl, h⟩, hle, hlt⟩
    · left
      simpa using hlt
    · right
      rw [List.length_append] at hle hlt
      exact ⟨i - span.length, by omega, rest, _, _, h, by omega, by omega⟩
  · rintro (hlt | ⟨j, rfl, rest, span', after', h, hle, hlt⟩)
    · exact ⟨[], span, after, .inl ⟨rfl, rfl, rfl⟩, Nat.zero_le i, by simpa using hlt⟩
    · refine ⟨_, span', after', .inr ⟨rest, rfl, h⟩, ?_, ?_⟩
      all_goals
        rw [List.length_append]
        omega

/-- From the left, a text is characters that are no quotes and quoted spans, until nothing is left. -/
theorem span_induction {P : Text → Prop} (nil : P [])
    (plain : ∀ c t, ¬ IsQuote c → P t → P (c :: t))
    (span : ∀ span after, Spans span after → P after → P (span ++ after)) (t : Text) : P t := by
  induction hlength : t.length using Nat.strongRecOn generalizing t with
  | ind n ih =>
    cases t with
    | nil => exact nil
    | cons c t =>
      rw [List.length_cons] at hlength
      by_cases hc : IsQuote c
      · cases hcut : Text.cut? c t with
        | none =>
          have hspan := Spans.unclosed hc (Text.cut?_eq_none_iff.mp hcut)
          simpa using span _ _ hspan nil
        | some sides =>
          obtain ⟨inside, after⟩ := sides
          obtain ⟨rfl, hinside⟩ := Text.cut?_eq_some_iff.mp hcut
          rw [List.length_append, List.length_cons] at hlength
          have hafter := ih after.length (by omega) after rfl
          simpa using span _ _ (.closed hc hinside) hafter
      · exact plain c t hc (ih t.length (by omega) t rfl)

/-! ### The pieces -/

theorem characters_plain (hc : ¬ IsQuote c) :
    characters none (c :: t) = (outside c, [c]) :: characters none t := by
  rw [characters]
  exact if_neg hc

theorem characters_inside (hinside : quote ∉ inside) (after : Text) :
    characters (some quote) (inside ++ after) =
      inside.map (fun c => (.colour .green, [c])) ++ characters (some quote) after := by
  induction inside with
  | nil => rfl
  | cons c inside ih =>
    rw [List.mem_cons, not_or] at hinside
    rw [List.cons_append, characters]
    simp only [if_neg (Ne.symm hinside.1), ih hinside.2]
    rfl

/-- All of a quoted span is green, and scanning goes on after it as from the start. -/
theorem characters_span (hspan : Spans span after) :
    characters none (span ++ after) =
      span.map (fun c => (.colour .green, [c])) ++ characters none after := by
  have hopens : ∀ quote, IsQuote quote → ∀ rest, characters none (quote :: rest) =
      (.colour .green, [quote]) :: characters (some quote) rest := by
    intro quote hquote rest
    rw [characters]
    exact if_pos hquote
  cases hspan with
  | @closed quote inside _ hquote hinside =>
    have hcloses : characters (some quote) (quote :: after) =
        (.colour .green, [quote]) :: characters none after := by
      simp [characters]
    rw [List.cons_append, List.cons_append, hopens quote hquote, List.append_assoc,
      characters_inside hinside, List.singleton_append, hcloses]
    simp
  | @unclosed quote inside hquote hinside =>
    rw [List.cons_append, hopens quote hquote, characters_inside hinside]
    simp [characters]

/-- Every character is a piece. -/
theorem characters_texts (quote : Option Char) (t : Text) :
    (characters quote t).map (·.2) = t.map fun c => [c] := by
  induction t generalizing quote with
  | nil => rfl
  | cons c t ih =>
    cases quote with
    | none =>
      rw [characters]
      split <;> rw [List.map_cons, List.map_cons, ih]
    | some quote => rw [characters, List.map_cons, List.map_cons, ih]

theorem characters_joined (quote : Option Char) (t : Text) :
    (characters quote t).flatMap (·.2) = t := by
  rw [List.flatMap_def, characters_texts]
  exact List.flatMap_singleton' t

/-- A character is green if it is quoted, and otherwise as it is outside quotes. -/
theorem getElem?_characters (hi : t[i]? = some c) :
    (Quoted t i → (characters none t)[i]? = some (.colour .green, [c])) ∧
      (¬ Quoted t i → (characters none t)[i]? = some (outside c, [c])) := by
  induction t using span_induction generalizing i with
  | nil => simp at hi
  | plain d t hd ih =>
    rw [quoted_cons_iff hd, characters_plain hd]
    cases i with
    | zero =>
      obtain rfl : d = c := by simpa using hi
      simp
    | succ i =>
      obtain ⟨hgreen, hplain⟩ := ih hi
      simp only [Nat.add_right_cancel_iff, exists_eq_left', List.getElem?_cons_succ]
      exact ⟨hgreen, hplain⟩
  | span span after hspan ih =>
    rw [quoted_append_iff hspan, characters_span hspan]
    rcases Nat.lt_or_ge i span.length with hlt | hge
    · rw [List.getElem?_append_left hlt] at hi
      rw [List.getElem?_append_left (by simpa using hlt), List.getElem?_map, hi]
      simp [hlt]
    · obtain ⟨j, rfl⟩ := Nat.exists_eq_add_of_le hge
      rw [List.getElem?_append_right hge, Nat.add_sub_cancel_left] at hi
      rw [List.getElem?_append_right (by simp), List.length_map, Nat.add_sub_cancel_left]
      simpa [Nat.not_lt.mpr hge] using ih hi

inductive PlainStyle : Char → Style → Prop where
  | number {c : Char} : c.isDigit = true ∨ c = '-' → PlainStyle c (.colour .yellow)
  | mark {c : Char} : c ∈ ['(', ')', '[', ']', ','] → PlainStyle c (.colour .white)
  | other {c : Char} : ¬ (c.isDigit = true ∨ c = '-') → c ∉ ['(', ')', '[', ']', ','] →
    PlainStyle c .plain

theorem plainStyle_outside (c : Char) : PlainStyle c (outside c) := by
  unfold outside
  split
  · rename_i hnumber
    exact .number hnumber
  · rename_i hnumber
    split
    · rename_i hmark
      exact .mark hmark
    · rename_i hmark
      exact .other hnumber hmark

theorem PlainStyle.ne_green {style : Style} (h : PlainStyle c style) : style ≠ .colour .green := by
  cases h <;> simp

/-- That a line begins with a colon, blank space aside. -/
def BeginsCommand (line : Text) : Prop :=
  ∃ blank rest, line = blank ++ ':' :: rest ∧ ∀ c ∈ blank, Text.isBlank c = true

theorem isCommand_iff {line : Text} : isCommand line = true ↔ BeginsCommand line := by
  unfold isCommand BeginsCommand
  rw [Option.isSome_iff_exists, exists_comm]
  simp only [Text.after?_trimStart_eq_some_iff (show Text.isBlank ':' = false by decide)]
  rfl

/-- The pieces of a line make up the line. A command is one of them. Of anything else, what stands
before the first parenthesis is one, and each character from there on another: green exactly if it
belongs to a quoted span, and otherwise in the style of its kind. -/
theorem quoted_spans_are_green (line : Text) :
    (pieces line).flatMap (·.2) = line ∧
    (BeginsCommand line → pieces line = [(.bold .magenta, line)]) ∧
    (¬ BeginsCommand line → ∃ name rest coloured, line = name ++ rest ∧ '(' ∉ name ∧
      (∀ c ∈ rest.head?, c = '(') ∧ pieces line = (.colour .cyan, name) :: coloured ∧
      coloured.map (·.2) = rest.map (fun c => [c]) ∧
      ∀ i c, rest[i]? = some c → ∃ style, coloured[i]? = some (style, [c]) ∧
        (style = .colour .green ↔ Quoted rest i) ∧ (¬ Quoted rest i → PlainStyle c style)) := by
  let name := line.takeWhile (· != '(')
  let rest := line.dropWhile (· != '(')
  have hline : line = name ++ rest := List.takeWhile_append_dropWhile.symm
  have hcommand : BeginsCommand line → pieces line = [(.bold .magenta, line)] := by
    intro hbegins
    rw [pieces, if_pos (isCommand_iff.mpr hbegins)]
  have hcall : ¬ BeginsCommand line →
      pieces line = (.colour .cyan, name) :: characters none rest := by
    intro hbegins
    rw [pieces, if_neg (mt isCommand_iff.mp hbegins)]
    rfl
  refine ⟨?_, hcommand, ?_⟩
  · by_cases hbegins : BeginsCommand line
    · rw [hcommand hbegins]
      simp
    · rw [hcall hbegins, List.flatMap_cons, characters_joined]
      exact hline.symm
  · intro hbegins
    refine ⟨name, rest, _, hline, ?_, ?_, hcall hbegins, characters_texts none rest, ?_⟩
    · intro hmem
      have hbefore := List.all_eq_true.mp List.all_takeWhile _ hmem
      simp at hbefore
    · intro c hc
      have hstop := List.head?_dropWhile_not (· != '(') line
      rw [Option.mem_def.mp hc] at hstop
      simpa using hstop
    · intro i c hi
      obtain ⟨hgreen, hplain⟩ := getElem?_characters hi
      by_cases hquoted : Quoted rest i
      · exact ⟨_, hgreen hquoted, by simp [hquoted], fun hnot => absurd hquoted hnot⟩
      · have hstyle := plainStyle_outside c
        exact ⟨_, hplain hquoted, by simp [hquoted, hstyle.ne_green], fun _ => hstyle⟩

/-- The apostrophe within the quotes opens nothing, so the number after them belongs to no span. -/
theorem quoted_spans_are_green_apostrophe :
    ¬ BeginsCommand ['f', '(', '"', '\'', '1', '"', ',', '2'] ∧
      Quoted ['(', '"', '\'', '1', '"', ',', '2'] 3 ∧
      ¬ Quoted ['(', '"', '\'', '1', '"', ',', '2'] 6 := by
  have hcall : ¬ BeginsCommand ['f', '(', '"', '\'', '1', '"', ',', '2'] :=
    mt isCommand_iff.mpr (by decide)
  obtain ⟨name, rest, coloured, hline, -, -, hpieces, -, heach⟩ :=
    (quoted_spans_are_green _).2.2 hcall
  cases hpieces
  cases hline
  obtain ⟨green, hgreen, hquoted, -⟩ := heach 3 '1' rfl
  obtain ⟨yellow, hyellow, hunquoted, -⟩ := heach 6 '2' rfl
  cases hgreen
  cases hyellow
  exact ⟨hcall, hquoted.mp rfl, mt hunquoted.mpr (by decide)⟩

end Scriptlet.Console.Highlight
