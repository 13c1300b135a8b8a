import Scriptlet.Console.Literal
import Scriptlet.Proofs.Console.Pieces
import Scriptlet.Proofs.Heap.WrittenOut
import Scriptlet.Proofs.Text.Cut
import Scriptlet.Proofs.Text.Token

/-!
Typed calls are read back as they were written. A text keeps its quotes until it is read, so it is
taken neither for a number nor for an array, and blank space in it is not trimmed; what a text, a
number or an array is written as has its commas inside brackets of its own, so the commas of a call
or an array around it are found again. Values that hold values are read by induction on them.
-/

namespace Scriptlet

namespace Console

variable {opening closing : Char} {t inside : Text}

theorem between?_eq_some_iff :
    between? opening closing t = some inside ↔ t = opening :: inside ++ [closing] := by
  simp only [between?, Option.bind_eq_bind, Option.bind_eq_some_iff, Text.after?_eq_some_iff,
    Text.before?_eq_some_iff]
  constructor
  · rintro ⟨_, rfl, rfl⟩
    rfl
  · rintro rfl
    exact ⟨_, rfl, rfl⟩

theorem between?_eq_none {c : Char} (hc : c ≠ opening) : between? opening closing (c :: t) = none := by
  rw [Option.eq_none_iff_forall_ne_some]
  intro inside h
  rw [between?_eq_some_iff, List.cons_append] at h
  exact hc (List.cons.inj h).1

namespace Literal

/-! ### Reading one value -/

theorem ofText_integer {n : Int} (hrange : InRange n) : ofText (Decimal.ofInt n) = .integer n := by
  have htrim : Text.trim (Decimal.ofInt n) = Decimal.ofInt n := by
    apply Text.trim_of_not_blank
    intro c hc
    rcases Decimal.digit_or_minus_of_mem_ofInt hc with h | rfl
    · exact Text.isBlank_of_isDigit h
    · decide
  have hbrackets : between? '[' ']' (Decimal.ofInt n) = none := by
    rw [Option.eq_none_iff_forall_ne_some]
    intro inside h
    have hmem : '[' ∈ Decimal.ofInt n := by
      rw [between?_eq_some_iff.mp h]
      simp
    exact Decimal.not_mem_ofInt rfl (by decide) hmem
  rw [ofText_of_no_brackets (by rwa [htrim]), htrim]
  simp only [ofWord, Decimal.signed?_ofInt hrange]

theorem ofText_quoted (t : Text) : ofText ('"' :: t ++ ['"']) = .text t := by
  have htrim : Text.trim ('"' :: t ++ ['"']) = '"' :: t ++ ['"'] :=
    Text.trim_enclosed (by decide) (by decide) t
  have hbrackets : between? '[' ']' ('"' :: t ++ ['"']) = none := between?_eq_none (by decide)
  have hnumber : Decimal.signed? ('"' :: t ++ ['"']) = none := by
    simp [Decimal.signed?, Decimal.isDigits, Text.isAll]
  have hquotes : between? '"' '"' ('"' :: t ++ ['"']) = some t := between?_eq_some_iff.mpr rfl
  rw [ofText_of_no_brackets (by rwa [htrim]), htrim]
  simp only [ofWord, hnumber, unquoted, hquotes]
  rfl

theorem ofText_bracketed (t : Text) : ofText ('[' :: t ++ [']']) = .array (listOfText t) := by
  apply ofText_of_brackets
  rw [Text.trim_enclosed (by decide) (by decide), between?_eq_some_iff]

/-! ### Reading several values -/

theorem listOfText_joined {ts : List Text} (hlevel : ∀ t ∈ ts, Level t)
    (hblank : ∀ t ∈ ts, ∃ c ∈ t, Text.isBlank c = false) :
    listOfText ([','].intercalate ts) = ts.map ofText := by
  unfold listOfText
  cases ts with
  | nil => rfl
  | cons t ts =>
    obtain ⟨c, hc, hc'⟩ := hblank t List.mem_cons_self
    have hmem : c ∈ [','].intercalate (t :: ts) :=
      Text.mem_intercalate_of_mem List.mem_cons_self hc
    rw [Text.isBlankText_eq_false hmem hc', Level.topLevelPieces (List.cons_ne_nil t ts) hlevel]
    rfl

theorem exists_not_blank_render (v : Literal) : ∃ c ∈ v.render, Text.isBlank c = false := by
  cases v with
  | integer n =>
    have hne : Decimal.ofInt n ≠ [] := by
      unfold Decimal.ofInt
      split
      · exact List.cons_ne_nil _ _
      · exact (Text.isAll_iff.mp (Decimal.isDigits_ofNat n.natAbs)).1
    obtain ⟨c, hc⟩ := List.exists_mem_of_ne_nil _ hne
    refine ⟨c, hc, ?_⟩
    rcases Decimal.digit_or_minus_of_mem_ofInt hc with h | rfl
    · exact Text.isBlank_of_isDigit h
    · decide
  | text t => exact ⟨'"', List.mem_cons_self, by decide⟩
  | array items => exact ⟨'[', List.mem_cons_self, by decide⟩

theorem exists_not_blank_renderEach {vs : List Literal} {t : Text} (ht : t ∈ renderEach vs) :
    ∃ c ∈ t, Text.isBlank c = false := by
  induction vs with
  | nil => cases ht
  | cons v vs ih =>
    rcases List.mem_cons.mp ht with rfl | ht
    · exact exists_not_blank_render v
    · exact ih ht

mutual

theorem level_render (v : Literal) (hv : v.Writable) : Level v.render := by
  cases v with
  | integer n =>
    have hnot (c : Char) := Decimal.not_mem_ofInt (n := n) (c := c)
    exact level_of_not_mem (hnot _ rfl (by decide)) (hnot _ rfl (by decide)) (hnot _ rfl (by decide))
  | text t =>
    obtain ⟨hcomma, hopening, hclosing⟩ := hv
    apply level_of_not_mem <;> simpa [render]
  | array items => exact level_enclosed (level_renderEach items hv)

theorem level_renderEach (vs : List Literal) (hvs : WritableEach vs) :
    ∀ t ∈ renderEach vs, Level t := by
  cases vs with
  | nil =>
    intro t ht
    cases ht
  | cons v vs =>
    intro t ht
    rcases List.mem_cons.mp ht with rfl | ht
    · exact level_render v hvs.1
    · exact level_renderEach vs hvs.2 t ht

end

mutual

theorem ofText_render (v : Literal) (hv : v.Writable) : ofText v.render = v := by
  cases v with
  | integer n => exact ofText_integer hv
  | text t => exact ofText_quoted t
  | array items =>
    have hinside := listOfText_joined (level_renderEach items hv) (fun _ => exists_not_blank_renderEach)
    rw [render, ofText_bracketed, hinside, map_ofText_renderEach items hv]

theorem map_ofText_renderEach (vs : List Literal) (hvs : WritableEach vs) :
    (renderEach vs).map ofText = vs := by
  cases vs with
  | nil => rfl
  | cons v vs => rw [renderEach, List.map_cons, ofText_render v hvs.1, map_ofText_renderEach vs hvs.2]

end

theorem listOfText_renderEach {vs : List Literal} (hvs : WritableEach vs) :
    listOfText ([','].intercalate (renderEach vs)) = vs := by
  rw [listOfText_joined (level_renderEach vs hvs) (fun _ => exists_not_blank_renderEach),
    map_ofText_renderEach vs hvs]

/-! ### Making the values -/

mutual

def contents : Literal → Contents
  | .integer n => .integer n
  | .text t => .text t
  | .array items => .array (contentsEach items)

def contentsEach : List Literal → List Contents
  | [] => []
  | item :: items => contents item :: contentsEach items

end

mutual

theorem extends_build (h : Heap) (v : Literal) : h.Extends (v.build h).2 := by
  cases v with
  | integer n => exact h.extends_refl
  | text t => exact h.extends_refl
  | array items => exact (extends_buildEach h items).trans (Heap.extends_alloc _ _)

theorem extends_buildEach (h : Heap) (vs : List Literal) : h.Extends (buildEach h vs).2 := by
  cases vs with
  | nil => exact h.extends_refl
  | cons v vs => exact (extends_build h v).trans (extends_buildEach _ vs)

end

mutual

/-- A value that was made looks as it was typed, then and later. -/
theorem contents_build {h g : Heap} (v : Literal) (hg : (v.build h).2.Extends g) :
    ∃ depth, g.contentsWithin depth (v.build h).1 = some v.contents := by
  cases v with
  | integer n => exact ⟨0, rfl⟩
  | text t => exact ⟨0, rfl⟩
  | array items =>
    let made := (buildEach h items).2.alloc (buildEach h items).1
    have hvalue : ((array items).build h).1 = .array made.1 := rfl
    have helements : g.elements made.1 = (buildEach h items).1 := Heap.elements_alloc_of_extends hg
    obtain ⟨depth, hcontents⟩ := contents_buildEach items ((Heap.extends_alloc _ _).trans hg)
    refine ⟨depth + 1, ?_⟩
    rw [hvalue, Heap.contentsWithin, helements, hcontents]
    rfl

theorem contents_buildEach {h g : Heap} (vs : List Literal) (hg : (buildEach h vs).2.Extends g) :
    ∃ depth, (buildEach h vs).1.mapM (g.contentsWithin depth) = some (contentsEach vs) := by
  cases vs with
  | nil => exact ⟨0, rfl⟩
  | cons v vs =>
    obtain ⟨d, hfirst⟩ := contents_build v ((extends_buildEach _ vs).trans hg)
    obtain ⟨e, hrest⟩ := contents_buildEach vs hg
    have hfirst := Heap.contentsWithin_mono (Nat.le_add_right d e) hfirst
    have hrest := mapM_mono
      (fun _ _ _ => Heap.contentsWithin_mono (Nat.le_add_left e d)) hrest
    have hvalues : (buildEach h (v :: vs)).1 = (v.build h).1 :: (buildEach (v.build h).2 vs).1 := rfl
    refine ⟨d + e, ?_⟩
    rw [hvalues, List.mapM_cons, hfirst, hrest]
    rfl

end

theorem contents?_buildEach (h : Heap) (vs : List Literal) :
    (buildEach h vs).1.mapM (buildEach h vs).2.contents? = some (contentsEach vs) := by
  obtain ⟨depth, hcontents⟩ := contents_buildEach vs (Heap.extends_refl _)
  exact mapM_mono (fun _ _ _ => Heap.contents?_of_contentsWithin) hcontents

end Literal

/-- A call that is written is read back: the function and exactly the values that were written, which
look the same once they are made on any heap. The name must be one that can be told from what comes
after it and is not trimmed, and texts must be free of commas and square brackets. -/
theorem CallLine.written_calls_read_back (call : CallLine) (hname : call.function ≠ [])
    (hparen : '(' ∉ call.function) (htrim : Text.trim call.function = call.function)
    (hargs : Literal.WritableEach call.args) :
    CallLine.ofText? call.render = some call ∧
      ∀ h, (Literal.buildEach h call.args).1.mapM (Literal.buildEach h call.args).2.contents? =
        some (Literal.contentsEach call.args) := by
  refine ⟨?_, fun h => Literal.contents?_buildEach h call.args⟩
  let inside := [','].intercalate (Literal.renderEach call.args)
  have hcut : Text.cut? '(' call.render = some (call.function, inside ++ [')']) := by
    rw [Text.cut?_eq_some_iff]
    exact ⟨by simp [render, inside], hparen⟩
  have hend : Text.before? [')'] (inside ++ [')']) = some inside := Text.before?_eq_some_iff.mpr rfl
  have hblank : Text.isBlankText call.function = false := by
    rw [Bool.eq_false_iff, ne_eq, ← Text.trim_eq_nil_iff, htrim]
    exact hname
  simp only [ofText?, hcut, Option.bind_eq_bind, Option.bind_some, hend, hblank, htrim,
    Literal.listOfText_renderEach hargs, inside]
  rfl

/-- A call with the least number, an empty array, and texts that are empty, blank, or look like
something else. -/
def CallLine.sample : CallLine where
  function := "go".toList
  args :=
    [.integer (-9223372036854775808), .array [.text [], .array [], .text [' ']],
      .text "\"12)(".toList]

theorem CallLine.written_calls_read_back_sample :
    CallLine.sample.render = "go(-9223372036854775808,[\"\",[],\" \"],\"\"12)(\")".toList ∧
      CallLine.ofText? CallLine.sample.render = some CallLine.sample := by
  have hargs : Literal.WritableEach CallLine.sample.args := by
    simp [CallLine.sample, Literal.WritableEach, Literal.Writable, InRange]
  refine ⟨by decide, ?_⟩
  exact (CallLine.written_calls_read_back CallLine.sample (by decide) (by decide) (by decide)
    hargs).1

end Console

end Scriptlet
