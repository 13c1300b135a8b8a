import Scriptlet.Console.Literal
import Scriptlet.Proofs.Text.Cut

/-!
Texts that are cut at their commas outside brackets. Scanning goes through a text with the number of
brackets that are open; a comma is covered where that number is not zero. A text whose commas are all
covered stays whole, and one that also closes what it opens ends at the comma after it, whatever comes
then. So pieces of that kind that are joined by commas are found again (`topLevelPieces_intercalate`).
Every text is joined from pieces of that kind, and from no others (`topLevelPieces_eq_iff`).
-/

namespace Scriptlet.Console

def openAfter (depth : Nat) (t : Text) : Nat :=
  t.foldl depthAfter depth

/-- That every comma of a text has a bracket open before it. -/
def Covered (depth : Nat) (t : Text) : Prop :=
  ∀ before after, t = before ++ ',' :: after → openAfter depth before ≠ 0

variable {depth : Nat} {c : Char} {s t : Text}

@[simp] theorem openAfter_nil (depth : Nat) : openAfter depth [] = depth :=
  rfl

@[simp] theorem openAfter_cons (depth : Nat) (c : Char) (t : Text) :
    openAfter depth (c :: t) = openAfter (depthAfter depth c) t :=
  rfl

@[simp] theorem openAfter_append (depth : Nat) (s t : Text) :
    openAfter depth (s ++ t) = openAfter (openAfter depth s) t :=
  List.foldl_append

theorem covered_nil (depth : Nat) : Covered depth [] := by
  intro before after h
  cases before <;> cases h

theorem covered_cons_iff :
    Covered depth (c :: t) ↔ ¬ (c = ',' ∧ depth = 0) ∧ Covered (depthAfter depth c) t := by
  constructor
  · intro h
    refine ⟨?_, ?_⟩
    · rintro ⟨rfl, hdepth⟩
      exact h [] t rfl hdepth
    · rintro before after rfl
      exact h (c :: before) after rfl
  · rintro ⟨hfirst, hrest⟩ before after h
    cases before with
    | nil =>
      obtain ⟨rfl, -⟩ := List.cons.inj h
      exact fun hdepth => hfirst ⟨rfl, hdepth⟩
    | cons d before =>
      obtain ⟨rfl, rfl⟩ := List.cons.inj h
      exact hrest before after rfl

instance decidableCovered : (depth : Nat) → (t : Text) → Decidable (Covered depth t)
  | depth, [] => .isTrue (covered_nil depth)
  | depth, c :: t =>
    have := decidableCovered (depthAfter depth c) t
    decidable_of_iff _ covered_cons_iff.symm

theorem covered_append_iff :
    Covered depth (s ++ t) ↔ Covered depth s ∧ Covered (openAfter depth s) t := by
  induction s generalizing depth with
  | nil => simp [covered_nil]
  | cons c s ih => simp only [List.cons_append, covered_cons_iff, ih, openAfter_cons, and_assoc]

/-! ### Cutting -/

/-- Nothing is cut off where every comma is covered. -/
theorem piecesFrom_of_covered (h : Covered depth t) : piecesFrom depth t = [t] := by
  induction t generalizing depth with
  | nil => rfl
  | cons c t ih =>
    obtain ⟨hfirst, hrest⟩ := covered_cons_iff.mp h
    rw [piecesFrom, if_neg hfirst, ih hrest, List.modifyHead_cons]

/-- The first piece ends at the first comma that is not covered. -/
theorem piecesFrom_append_comma (h : Covered depth s) (hopen : openAfter depth s = 0) (t : Text) :
    piecesFrom depth (s ++ ',' :: t) = s :: piecesFrom 0 t := by
  induction s generalizing depth with
  | nil =>
    obtain rfl : depth = 0 := hopen
    simp [piecesFrom]
  | cons c s ih =>
    obtain ⟨hfirst, hrest⟩ := covered_cons_iff.mp h
    rw [List.cons_append, piecesFrom, if_neg hfirst, ih hrest hopen, List.modifyHead_cons]

/-- Joined pieces are found again, if all their commas are covered and all but the last close what
they open. -/
theorem topLevelPieces_intercalate {pieces : List Text} (hne : pieces ≠ [])
    (hcovered : ∀ p ∈ pieces, Covered 0 p) (hopen : ∀ p ∈ pieces.dropLast, openAfter 0 p = 0) :
    topLevelPieces ([','].intercalate pieces) = pieces := by
  unfold topLevelPieces
  induction pieces with
  | nil => exact absurd rfl hne
  | cons p pieces ih =>
    have hp : Covered 0 p := hcovered p List.mem_cons_self
    cases pieces with
    | nil => simpa [List.intercalate] using piecesFrom_of_covered hp
    | cons q pieces =>
      rw [List.dropLast_cons_cons] at hopen
      have hclosed : openAfter 0 p = 0 := hopen p List.mem_cons_self
      have hrest := ih (List.cons_ne_nil q pieces)
        (fun r hr => hcovered r (List.mem_cons_of_mem p hr))
        (fun r hr => hopen r (List.mem_cons_of_mem p hr))
      rw [List.intercalate_cons_cons, List.append_assoc, List.singleton_append,
        piecesFrom_append_comma hp hclosed, hrest]

/-! ### The one way to cut a text -/

/-- Scanning a text with some brackets open leaves some open: an opening bracket adds one, a closing
one takes one off if there is one, and nothing else counts. -/
inductive Scan : Nat → Text → Nat → Prop where
  | nil (depth : Nat) : Scan depth [] depth
  | opening {depth finish : Nat} {t : Text} : Scan (depth + 1) t finish →
    Scan depth ('[' :: t) finish
  | closing {depth finish : Nat} {t : Text} : Scan depth t finish →
    Scan (depth + 1) (']' :: t) finish
  | surplus {finish : Nat} {t : Text} : Scan 0 t finish → Scan 0 (']' :: t) finish
  | other {depth finish : Nat} {c : Char} {t : Text} : c ≠ '[' → c ≠ ']' → Scan depth t finish →
    Scan depth (c :: t) finish

theorem scan_iff {finish : Nat} : Scan depth t finish ↔ openAfter depth t = finish := by
  constructor
  · intro h
    induction h with
    | nil => rfl
    | opening _ ih => exact ih
    | closing _ ih => exact ih
    | surplus _ ih => exact ih
    | other hopening hclosing _ ih =>
      rw [openAfter_cons, depthAfter, if_neg hopening, if_neg hclosing]
      exact ih
  · rintro rfl
    induction t generalizing depth with
    | nil => exact .nil depth
    | cons c t ih =>
      rw [openAfter_cons, depthAfter]
      split
      · rename_i hopening
        subst hopening
        exact .opening ih
      · rename_i hopening
        split
        · rename_i hclosing
          subst hclosing
          cases depth with
          | zero => exact .surplus ih
          | succ depth => exact .closing ih
        · rename_i hclosing
          exact .other hopening hclosing ih

/-- The pieces of a text that is cut at its commas outside brackets. -/
structure TopLevelCut (t : Text) (pieces : List Text) : Prop where
  ne_nil : pieces ≠ []
  joined : [','].intercalate pieces = t
  /-- In a piece, no comma stands where no bracket is open. -/
  covered : ∀ p ∈ pieces, ∀ before after, p = before ++ ',' :: after → ¬ Scan 0 before 0
  /-- Where the text is cut, no bracket is open. -/
  closed : ∀ p ∈ pieces.dropLast, Scan 0 p 0

theorem forall_not_scan_iff :
    (∀ before after, t = before ++ ',' :: after → ¬ Scan 0 before 0) ↔ Covered 0 t := by
  unfold Covered
  simp only [scan_iff, ne_eq]

/-- A text whose commas are not all covered has a first one that is not. -/
theorem covered_or_exists_comma (depth : Nat) (t : Text) :
    Covered depth t ∨
      ∃ s rest, t = s ++ ',' :: rest ∧ Covered depth s ∧ openAfter depth s = 0 := by
  induction t generalizing depth with
  | nil => exact .inl (covered_nil depth)
  | cons c t ih =>
    by_cases hfirst : c = ',' ∧ depth = 0
    · obtain ⟨rfl, rfl⟩ := hfirst
      exact .inr ⟨[], t, rfl, covered_nil 0, rfl⟩
    · rcases ih (depthAfter depth c) with hcovered | ⟨s, rest, rfl, hs, hopen⟩
      · exact .inl (covered_cons_iff.mpr ⟨hfirst, hcovered⟩)
      · exact .inr ⟨c :: s, rest, rfl, covered_cons_iff.mpr ⟨hfirst, hs⟩, hopen⟩

theorem TopLevelCut.whole (h : Covered 0 t) : TopLevelCut t [t] where
  ne_nil := List.cons_ne_nil t []
  joined := List.intercalate_singleton
  covered := by
    intro p hp
    obtain rfl := List.mem_singleton.mp hp
    exact forall_not_scan_iff.mpr h
  closed := by
    intro p hp
    cases hp

theorem TopLevelCut.cons {pieces : List Text} (hs : Covered 0 s) (hopen : openAfter 0 s = 0)
    (h : TopLevelCut t pieces) : TopLevelCut (s ++ ',' :: t) (s :: pieces) := by
  obtain ⟨p, pieces, rfl⟩ := List.exists_cons_of_ne_nil h.ne_nil
  refine ⟨List.cons_ne_nil s _, ?_, ?_, ?_⟩
  · rw [List.intercalate_cons_cons, h.joined, List.append_assoc, List.singleton_append]
  · exact List.forall_mem_cons.mpr ⟨forall_not_scan_iff.mpr hs, h.covered⟩
  · rw [List.dropLast_cons_cons]
    exact List.forall_mem_cons.mpr ⟨scan_iff.mpr hopen, h.closed⟩

theorem topLevelCut_topLevelPieces (t : Text) : TopLevelCut t (topLevelPieces t) := by
  -- The text after the first comma that is not covered is shorter, and cut from the start again.
  induction hlength : t.length using Nat.strongRecOn generalizing t with
  | ind n ih =>
    rcases covered_or_exists_comma 0 t with hcovered | ⟨s, rest, rfl, hs, hopen⟩
    · rw [topLevelPieces, piecesFrom_of_covered hcovered]
      exact .whole hcovered
    · rw [topLevelPieces, piecesFrom_append_comma hs hopen]
      rw [List.length_append, List.length_cons] at hlength
      exact .cons hs hopen (ih rest.length (by omega) rest rfl)

/-- There is one way to cut a text at its commas outside brackets, and scanning finds it. -/
theorem topLevelPieces_eq_iff (t : Text) (pieces : List Text) :
    topLevelPieces t = pieces ↔ TopLevelCut t pieces := by
  constructor
  · rintro rfl
    exact topLevelCut_topLevelPieces t
  · intro h
    rw [← h.joined]
    apply topLevelPieces_intercalate h.ne_nil
    · intro p hp
      exact forall_not_scan_iff.mp (h.covered p hp)
    · intro p hp
      exact scan_iff.mp (h.closed p hp)

/-! ### Level texts -/

/-- That a text closes all that it opens and nothing else, and covers its commas by brackets of its
own. -/
structure Level (t : Text) : Prop where
  openAfter_eq : ∀ depth, openAfter depth t = depth
  covered : ∀ depth, Covered depth t

theorem level_of_not_mem (hcomma : ',' ∉ t) (hopening : '[' ∉ t) (hclosing : ']' ∉ t) : Level t where
  openAfter_eq := by
    intro depth
    induction t with
    | nil => rfl
    | cons c t ih =>
      simp only [List.mem_cons, not_or] at hcomma hopening hclosing
      rw [openAfter_cons, depthAfter, if_neg (Ne.symm hopening.1), if_neg (Ne.symm hclosing.1)]
      exact ih hcomma.2 hopening.2 hclosing.2
  covered := by
    rintro depth before after rfl
    simp at hcomma

/-- Between the brackets of an array, the commas that join level texts are covered. -/
theorem level_joined {ts : List Text} (hts : ∀ t ∈ ts, Level t) (depth : Nat) :
    openAfter (depth + 1) ([','].intercalate ts) = depth + 1 ∧
      Covered (depth + 1) ([','].intercalate ts) := by
  induction ts with
  | nil => exact ⟨rfl, covered_nil _⟩
  | cons t ts ih =>
    obtain ⟨ht, hrest⟩ := List.forall_mem_cons.mp hts
    cases ts with
    | nil => simpa [List.intercalate] using And.intro (ht.openAfter_eq _) (ht.covered _)
    | cons u ts =>
      obtain ⟨hopen, hcovered⟩ := ih hrest
      have hcomma : depthAfter (depth + 1) ',' = depth + 1 := rfl
      rw [List.intercalate_cons_cons, List.append_assoc, List.singleton_append]
      refine ⟨?_, ?_⟩
      · rw [openAfter_append, openAfter_cons, ht.openAfter_eq, hcomma, hopen]
      · rw [covered_append_iff, covered_cons_iff, ht.openAfter_eq, hcomma]
        exact ⟨ht.covered _, fun hzero => absurd hzero.2 (Nat.succ_ne_zero depth), hcovered⟩

theorem level_enclosed {ts : List Text} (hts : ∀ t ∈ ts, Level t) :
    Level ('[' :: [','].intercalate ts ++ [']']) where
  openAfter_eq := by
    intro depth
    obtain ⟨hopen, -⟩ := level_joined hts depth
    have hopening : depthAfter depth '[' = depth + 1 := rfl
    rw [List.cons_append, openAfter_cons, openAfter_append, hopening, hopen]
    rfl
  covered := by
    intro depth
    obtain ⟨hopen, hcovered⟩ := level_joined hts depth
    have hopening : depthAfter depth '[' = depth + 1 := rfl
    rw [List.cons_append, covered_cons_iff, covered_append_iff, hopening, hopen, covered_cons_iff]
    refine ⟨by simp, hcovered, by simp, covered_nil _⟩

theorem Level.topLevelPieces {ts : List Text} (hne : ts ≠ []) (hts : ∀ t ∈ ts, Level t) :
    topLevelPieces ([','].intercalate ts) = ts := by
  apply topLevelPieces_intercalate hne
  · intro t ht
    exact (hts t ht).covered 0
  · intro t ht
    exact (hts t (List.dropLast_subset ts ht)).openAfter_eq 0

end Scriptlet.Console
