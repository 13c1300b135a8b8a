import Mathlib.Data.List.DropRight
import Scriptlet.Text.Basic
import Scriptlet.Text.Pattern

namespace Scriptlet.Text

/-- A run that stops before a character is the longest one. -/
theorem run_eq_cons_iff {isIn : Char → Bool} {t left right : Text} {c : Char} :
    run isIn t = (left, c :: right) ↔
      t = left ++ c :: right ∧ (∀ x ∈ left, isIn x = true) ∧ isIn c = false := by
  constructor
  · intro h
    have hleft : t.takeWhile isIn = left := congrArg Prod.fst h
    have hright : t.dropWhile isIn = c :: right := congrArg Prod.snd h
    refine ⟨eq_of_run h, ?_, ?_⟩
    · rw [← hleft]
      exact List.all_eq_true.mp List.all_takeWhile
    · have hstop := List.head_dropWhile_not isIn (l := t) (by simp [hright])
      simpa only [hright, List.head_cons] using hstop
  · rintro ⟨rfl, hall, hstop⟩
    simp only [run, List.takeWhile_append_of_pos hall, List.dropWhile_append_of_pos hall,
      List.takeWhile_cons, List.dropWhile_cons, hstop]
    simp

/-- A text is cut in one way only at the first character outside a class. -/
theorem run_unique {isIn : Char → Bool} {left right left' right' : Text} {c c' : Char}
    (h : left ++ c :: right = left' ++ c' :: right') (hleft : ∀ x ∈ left, isIn x = true)
    (hleft' : ∀ x ∈ left', isIn x = true) (hc : isIn c = false) (hc' : isIn c' = false) :
    left = left' ∧ c = c' ∧ right = right' := by
  have hrun : run isIn (left ++ c :: right) = (left, c :: right) :=
    run_eq_cons_iff.mpr ⟨rfl, hleft, hc⟩
  have hrun' : run isIn (left ++ c :: right) = (left', c' :: right') :=
    run_eq_cons_iff.mpr ⟨h, hleft', hc'⟩
  rw [hrun] at hrun'
  simpa only [Prod.mk.injEq, List.cons.injEq] using hrun'

/-- A text is cut in one way only at the last character outside a class. -/
theorem run_unique_last {isIn : Char → Bool} {left right left' right' : Text} {c c' : Char}
    (h : left ++ c :: right = left' ++ c' :: right') (hright : ∀ x ∈ right, isIn x = true)
    (hright' : ∀ x ∈ right', isIn x = true) (hc : isIn c = false) (hc' : isIn c' = false) :
    left = left' ∧ c = c' ∧ right = right' := by
  have hreverse : right.reverse ++ c :: left.reverse = right'.reverse ++ c' :: left'.reverse := by
    simpa using congrArg List.reverse h
  obtain ⟨hsame, rfl, hrest⟩ := run_unique hreverse (fun x hx => hright x (List.mem_reverse.mp hx))
    (fun x hx => hright' x (List.mem_reverse.mp hx)) hc hc'
  exact ⟨List.reverse_inj.mp hrest, rfl, List.reverse_inj.mp hsame⟩

theorem not_mem_of_isAll {isIn : Char → Bool} {t : Text} {c : Char} (hall : isAll isIn t = true)
    (hout : isIn c = false) : c ∉ t := by
  intro hc
  have hin := (isAll_iff.mp hall).2 c hc
  rw [hout] at hin
  cases hin

/-- A decimal holds nothing but digits. -/
theorem not_mem_decimal {c : Char} (hout : c.isDigit = false) (n : Nat) : c ∉ Decimal.ofNat n :=
  not_mem_of_isAll (Decimal.isDigits_ofNat n) hout

theorem isAll_cons_iff {isIn : Char → Bool} {c : Char} {t : Text} :
    isAll isIn (c :: t) = true ↔ ∀ x ∈ c :: t, isIn x = true := by
  simp [isAll_iff]

/-! ### Trimming -/

variable {t : Text}

/-- Blank space is skipped up to a word that does not begin with any. -/
theorem after?_trimStart_eq_some_iff {c : Char} {word t rest : Text} (hc : isBlank c = false) :
    after? (c :: word) (trimStart t) = some rest ↔
      ∃ blank, t = blank ++ (c :: word ++ rest) ∧ ∀ x ∈ blank, isBlank x = true := by
  rw [after?_eq_some_iff]
  constructor
  · intro h
    have hrun : run isBlank t = (t.takeWhile isBlank, c :: (word ++ rest)) := congrArg _ h
    obtain ⟨ht, hblank, -⟩ := run_eq_cons_iff.mp hrun
    exact ⟨_, ht, hblank⟩
  · rintro ⟨blank, rfl, hblank⟩
    have hrun : run isBlank (blank ++ (c :: word ++ rest)) = (blank, c :: (word ++ rest)) :=
      run_eq_cons_iff.mpr ⟨rfl, hblank, hc⟩
    exact congrArg Prod.snd hrun

theorem trim_eq_nil_iff : trim t = [] ↔ isBlankText t = true := by
  have hkept : (trimStart t).dropWhile isBlank = trimStart t := List.dropWhile_idempotent _ _
  calc trim t = [] ↔ ∀ c ∈ trimStart t, isBlank c = true := by simp [trim]
    _ ↔ trimStart t = [] := by rw [← List.dropWhile_eq_nil_iff, hkept]
    _ ↔ isBlankText t = true := by simp [trimStart, isBlankText]

theorem trim_eq_self (hfirst : ∀ c ∈ t.head?, isBlank c = false)
    (hlast : ∀ c ∈ t.getLast?, isBlank c = false) : trim t = t := by
  have hkept : ∀ s : Text, (∀ c ∈ s.head?, isBlank c = false) → s.dropWhile isBlank = s := by
    intro s hs
    refine List.dropWhile_eq_self_iff.mpr fun hl => ?_
    rw [hs s[0] (by rw [List.head?_eq_getElem?, List.getElem?_eq_getElem hl]; rfl)]
    decide
  have hend : t.reverse.dropWhile isBlank = t.reverse := by
    apply hkept
    rw [List.head?_reverse]
    exact hlast
  rw [trim, trimStart, hkept t hfirst, hend, List.reverse_reverse]

/-- Marks around a text that are not blank keep what is between them from being trimmed. -/
theorem trim_enclosed {opening closing : Char} (hopening : isBlank opening = false)
    (hclosing : isBlank closing = false) (t : Text) :
    trim (opening :: t ++ [closing]) = opening :: t ++ [closing] := by
  apply trim_eq_self
  · rintro c ⟨⟩
    exact hopening
  · rw [List.getLast?_concat]
    rintro c ⟨⟩
    exact hclosing

theorem trim_of_not_blank (hnone : ∀ c ∈ t, isBlank c = false) : trim t = t := by
  apply trim_eq_self
  · intro c hc
    exact hnone c (List.mem_of_mem_head? hc)
  · intro c hc
    exact hnone c (List.mem_of_mem_getLast? hc)

/-- What trimming leaves alone does not begin with blank space. -/
theorem isBlank_of_trim_eq_self {c : Char} (h : trim (c :: t) = c :: t) : isBlank c = false := by
  rw [Bool.eq_false_iff]
  intro hblank
  have hstart : trimStart (c :: t) = trimStart t := List.dropWhile_cons_of_pos hblank
  have hshort : (trim (c :: t)).length ≤ t.length := by
    unfold trim
    rw [hstart, List.length_reverse]
    calc ((trimStart t).reverse.dropWhile isBlank).length
        ≤ (trimStart t).reverse.length := (List.dropWhile_suffix _).length_le
      _ = (trimStart t).length := List.length_reverse
      _ ≤ t.length := (List.dropWhile_suffix _).length_le
  rw [h, List.length_cons] at hshort
  omega

/-- A text with a character that is not blank is not blank. -/
theorem isBlankText_eq_false {c : Char} (hc : c ∈ t) (hblank : isBlank c = false) :
    isBlankText t = false := by
  rw [Bool.eq_false_iff]
  intro hall
  have := List.all_eq_true.mp hall c hc
  rw [hblank] at this
  cases this

/-! ### Joining and cutting at a separator -/

variable {sep c : Char} {ts : List Text}

theorem mem_intercalate (hc : c ∈ [sep].intercalate ts) : c = sep ∨ ∃ t ∈ ts, c ∈ t := by
  induction ts with
  | nil => simp [List.intercalate] at hc
  | cons t ts ih =>
    cases ts with
    | nil => exact .inr ⟨t, by simp, by simpa [List.intercalate] using hc⟩
    | cons u ts =>
      rw [List.intercalate_cons_cons] at hc
      simp only [List.mem_append, List.mem_singleton] at hc
      rcases hc with (ht | hsep) | hrest
      · exact .inr ⟨t, by simp, ht⟩
      · exact .inl hsep
      · rcases ih hrest with hsep | ⟨v, hv, hcv⟩
        · exact .inl hsep
        · exact .inr ⟨v, List.mem_cons_of_mem _ hv, hcv⟩

theorem mem_intercalate_of_mem {t : Text} (ht : t ∈ ts) (hc : c ∈ t) : c ∈ [sep].intercalate ts := by
  induction ts with
  | nil => cases ht
  | cons u ts ih =>
    cases ts with
    | nil =>
      obtain rfl : t = u := by simpa using ht
      simpa [List.intercalate] using hc
    | cons v ts =>
      rw [List.intercalate_cons_cons]
      rcases List.mem_cons.mp ht with rfl | ht
      · simp [hc]
      · exact List.mem_append_right _ (ih ht)

theorem intercalate_ne_nil {t : Text} (ht : t ≠ []) : [sep].intercalate (t :: ts) ≠ [] := by
  cases ts with
  | nil => simpa [List.intercalate] using ht
  | cons u ts =>
    rw [List.intercalate_cons_cons]
    simp [ht]

/-- Texts in a class that the separator is in, too, stay in it when they are joined. -/
theorem isAll_intercalate {isIn : Char → Bool} (hsep : isIn sep = true) (hne : ts ≠ [])
    (hts : ∀ t ∈ ts, isAll isIn t = true) : isAll isIn ([sep].intercalate ts) = true := by
  refine isAll_iff.mpr ⟨?_, ?_⟩
  · obtain ⟨t, rest, rfl⟩ := List.exists_cons_of_ne_nil hne
    exact intercalate_ne_nil (isAll_iff.mp (hts t (by simp))).1
  · intro c hc
    rcases mem_intercalate hc with rfl | ⟨t, ht, hct⟩
    · exact hsep
    · exact (isAll_iff.mp (hts t ht)).2 c hct

/-- Pieces without the separator in them that make up a text when they are joined by it. -/
structure CutInto (sep : Char) (t : Text) (ts : List Text) : Prop where
  ne_nil : ts ≠ []
  free : ∀ p ∈ ts, sep ∉ p
  joined : [sep].intercalate ts = t

theorem not_mem_of_mem_pieces {t p : Text} (hp : p ∈ pieces sep t) : sep ∉ p := by
  unfold pieces at hp
  induction t generalizing p with
  | nil =>
    obtain rfl : p = [] := by simpa [List.splitOn, List.splitOnP_nil] using hp
    exact List.not_mem_nil
  | cons c t ih =>
    rw [List.splitOn_eq_splitOnP] at hp ih
    rw [List.splitOnP_cons_eq_if_modifyHead] at hp
    split at hp
    · rcases List.mem_cons.mp hp with rfl | hp
      · exact List.not_mem_nil
      · exact ih hp
    · rename_i hc
      obtain ⟨first, others, hpieces⟩ := List.exists_cons_of_ne_nil (List.splitOnP_ne_nil (· == sep) t)
      rw [hpieces] at hp ih
      rcases List.mem_cons.mp hp with rfl | hp
      · have hfirst : sep ∉ first := ih List.mem_cons_self
        have hne : sep ≠ c := by
          rintro rfl
          simp at hc
        simp [hne, hfirst]
      · exact ih (List.mem_cons_of_mem _ hp)

theorem cutInto_pieces (sep : Char) (t : Text) : CutInto sep t (pieces sep t) where
  ne_nil := List.splitOn_ne_nil sep t
  free := fun _ => not_mem_of_mem_pieces
  joined := List.intercalate_splitOn sep

/-- A text is cut into pieces in one way. -/
theorem pieces_eq_iff {t : Text} : pieces sep t = ts ↔ CutInto sep t ts := by
  constructor
  · rintro rfl
    exact cutInto_pieces sep t
  · rintro ⟨hne, hfree, rfl⟩
    exact List.splitOn_intercalate sep hfree hne

/-- Nothing is left of the pieces of a text that is made of separators only. -/
theorem CutInto.eq_nil_iff {t : Text} (h : CutInto sep t ts) :
    (∀ p ∈ ts, p = []) ↔ ∀ c ∈ t, c = sep := by
  obtain ⟨-, hfree, rfl⟩ := h
  constructor
  · intro hnil c hc
    rcases mem_intercalate hc with hsep | ⟨p, hp, hcp⟩
    · exact hsep
    · rw [hnil p hp] at hcp
      cases hcp
  · intro hsep p hp
    rw [List.eq_nil_iff_forall_not_mem]
    intro c hc
    obtain rfl := hsep c (mem_intercalate_of_mem hp hc)
    exact hfree p hp hc

end Scriptlet.Text
