import Scriptlet.Proofs.Text.Cut
import Scriptlet.Statement

namespace Scriptlet.Statement

/-- How a statement is written, and with which parts. -/
def Writes (s : Text) : Statement → Prop
  | assign target value =>
    s = target ++ '=' :: value ∧ Text.isAll Char.isLower target = true ∧ '\n' ∉ value
  | assignIndex target index value =>
    s = target ++ '[' :: (index ++ "]=".toList ++ value) ∧
      Text.isAll Char.isLower target = true ∧ index ≠ [] ∧ '\n' ∉ index ∧ '\n' ∉ value ∧
      ∀ k, 1 ≤ k → "]=".toList <+: (index ++ "]=".toList ++ value).drop k → index.length ≤ k
  | result value => s = "return ".toList ++ value

def target? : Statement → Option Text
  | assign target _ => some target
  | assignIndex target _ _ => some target
  | result _ => none

variable {s t : Text}

theorem cutWrite?_cons {c : Char} (h : ¬ "]=".toList <+: c :: t) :
    cutWrite? (c :: t) = (cutWrite? t).map fun (left, right) => (c :: left, right) := by
  rw [cutWrite?]
  rintro rest rfl rfl
  exact h ⟨rest, rfl⟩

/-- A cut is made at the first place where `]=` stands. -/
theorem cutWrite?_eq_some_iff {left right : Text} :
    cutWrite? t = some (left, right) ↔ t = left ++ "]=".toList ++ right ∧
      ∀ k, "]=".toList <+: t.drop k → left.length ≤ k := by
  induction t generalizing left with
  | nil => simp [cutWrite?]
  | cons c t ih =>
    by_cases h : "]=".toList <+: c :: t
    · obtain ⟨rest, hrest⟩ := h
      rw [← hrest]
      constructor
      · rintro ⟨⟩
        exact ⟨rfl, fun _ _ => Nat.zero_le _⟩
      · rintro ⟨htext, hfirst⟩
        have hleft : left = [] := List.eq_nil_of_length_eq_zero (Nat.le_zero.mp (hfirst 0 ⟨rest, rfl⟩))
        subst hleft
        rw [List.append_cancel_left htext]
        rfl
    · rw [cutWrite?_cons h, Option.map_eq_some_iff]
      constructor
      · rintro ⟨⟨tail, right⟩, hcut, hsame⟩
        cases hsame
        obtain ⟨rfl, hfirst⟩ := ih.mp hcut
        refine ⟨by simp, fun k hk => ?_⟩
        cases k with
        | zero => exact absurd hk h
        | succ k => exact Nat.succ_le_succ (hfirst k hk)
      · rintro ⟨htext, hfirst⟩
        cases left with
        | nil => exact absurd ⟨right, htext.symm⟩ h
        | cons d left =>
          obtain ⟨rfl, rfl⟩ := List.cons.inj htext
          have hcut : cutWrite? (left ++ "]=".toList ++ right) = some (left, right) :=
            ih.mpr ⟨rfl, fun k hk => Nat.le_of_succ_le_succ (hfirst (k + 1) hk)⟩
          exact ⟨(left, right), hcut, rfl⟩

/-- The first `]=` after the first character of a text. -/
theorem first_write_iff {first : Char} {index value : Text} :
    (∀ k, "]=".toList <+: (index ++ "]=".toList ++ value).drop k → index.length ≤ k) ↔
      ∀ k, 1 ≤ k → "]=".toList <+: (first :: index ++ "]=".toList ++ value).drop k →
        (first :: index).length ≤ k := by
  constructor
  · intro h k hk hwrite
    obtain ⟨k, rfl⟩ := Nat.exists_eq_add_of_le' hk
    exact Nat.succ_le_succ (h k hwrite)
  · intro h k hwrite
    exact Nat.le_of_succ_le_succ (h (k + 1) (Nat.le_add_left 1 k) hwrite)

theorem writes_of_assignment? {statement : Statement} (h : assignment? s = some statement) :
    Writes s statement ∧ statement.target?.isSome := by
  unfold assignment? at h
  split at h
  · rename_i c target value hrun
    obtain ⟨hs, hlower, -⟩ := Text.run_eq_cons_iff.mp hrun
    split at h
    · cases h
    · rename_i hline
      cases h
      exact ⟨⟨hs, Text.isAll_cons_iff.mpr hlower, hline⟩, rfl⟩
  · rename_i c target first rest hrun
    obtain ⟨hs, hlower, -⟩ := Text.run_eq_cons_iff.mp hrun
    simp only [Option.bind_eq_bind, Option.bind_eq_some_iff] at h
    obtain ⟨⟨index, value⟩, hcut, h⟩ := h
    obtain ⟨rfl, hfirst⟩ := cutWrite?_eq_some_iff.mp hcut
    dsimp only at h
    split at h
    · cases h
    · rename_i hline
      rw [not_or] at hline
      cases h
      exact ⟨⟨by simpa using hs, Text.isAll_cons_iff.mpr hlower, by simp, hline.1, hline.2,
        first_write_iff.mp hfirst⟩, rfl⟩
  · cases h

theorem assignment?_of_assign {target value : Text} (h : Writes s (.assign target value)) :
    assignment? s = some (.assign target value) := by
  obtain ⟨rfl, hlower, hline⟩ := h
  obtain ⟨hne, hall⟩ := Text.isAll_iff.mp hlower
  obtain ⟨c, target, rfl⟩ := List.exists_cons_of_ne_nil hne
  have hrun : Text.run Char.isLower (c :: target ++ '=' :: value) = (c :: target, '=' :: value) :=
    Text.run_eq_cons_iff.mpr ⟨rfl, hall, rfl⟩
  simp only [assignment?, hrun, if_neg hline]

theorem assignment?_of_assignIndex {target index value : Text}
    (h : Writes s (.assignIndex target index value)) :
    assignment? s = some (.assignIndex target index value) := by
  obtain ⟨rfl, hlower, hindex, hline, hline', hfirst⟩ := h
  obtain ⟨hne, hall⟩ := Text.isAll_iff.mp hlower
  obtain ⟨c, target, rfl⟩ := List.exists_cons_of_ne_nil hne
  obtain ⟨first, index, rfl⟩ := List.exists_cons_of_ne_nil hindex
  have hrun : Text.run Char.isLower
      (c :: target ++ '[' :: (first :: index ++ "]=".toList ++ value)) =
      (c :: target, '[' :: first :: (index ++ "]=".toList ++ value)) :=
    Text.run_eq_cons_iff.mpr ⟨rfl, hall, rfl⟩
  have hcut : cutWrite? (index ++ "]=".toList ++ value) = some (index, value) :=
    cutWrite?_eq_some_iff.mpr ⟨rfl, first_write_iff.mpr hfirst⟩
  simp only [assignment?, hrun, hcut, hline, hline', Option.bind_eq_bind, Option.bind_some, or_self,
    if_false, Option.pure_def]

/-- The space after `return` keeps a result apart from an assignment. -/
theorem assignment?_result (value : Text) : assignment? ("return ".toList ++ value) = none := by
  have hrun : Text.run Char.isLower ("return".toList ++ ' ' :: value) =
      ("return".toList, ' ' :: value) := Text.run_eq_cons_iff.mpr ⟨rfl, by simp, rfl⟩
  have hsplit : "return ".toList ++ value = "return".toList ++ ' ' :: value := rfl
  rw [hsplit, assignment?, hrun]
  rfl

/-- A statement is read as what it is written as. -/
theorem ofText_eq_ok_iff {statement : Statement} :
    ofText t = .ok statement ↔ Writes (withoutVar t) statement := by
  constructor
  · intro h
    unfold ofText at h
    split at h
    · rename_i found hfound
      cases h
      exact (writes_of_assignment? hfound).1
    split at h
    · rename_i value hvalue
      cases h
      exact Text.after?_eq_some_iff.mp hvalue
    · cases h
  · intro h
    unfold ofText
    cases statement with
    | assign target value => rw [assignment?_of_assign h]
    | assignIndex target index value => rw [assignment?_of_assignIndex h]
    | result value =>
      have hs : withoutVar t = "return ".toList ++ value := h
      rw [hs, assignment?_result, Text.after?_eq_some_iff.mpr rfl]

theorem eq_unknownStatement_of_ofText {reason : ReadError} (h : ofText t = .error reason) :
    reason = .unknownStatement t := by
  unfold ofText at h
  split at h
  · cases h
  split at h
  · cases h
  · exact (Except.error.inj h).symm

theorem ofText_eq_error_iff {reason : ReadError} :
    ofText t = .error reason ↔
      reason = .unknownStatement t ∧ ∀ statement, ¬ Writes (withoutVar t) statement := by
  constructor
  · intro h
    refine ⟨eq_unknownStatement_of_ofText h, fun statement hwrites => ?_⟩
    cases h.symm.trans (ofText_eq_ok_iff.mpr hwrites)
  · rintro ⟨rfl, hnone⟩
    cases hread : ofText t with
    | ok statement => exact absurd (ofText_eq_ok_iff.mp hread) (hnone statement)
    | error reason => rw [eq_unknownStatement_of_ofText hread]

/-- What is assigned to is all of the lowercase letters in front. -/
theorem target_eq {statement : Statement} {target : Text} (h : Writes s statement)
    (htarget : statement.target? = some target) : target = s.takeWhile Char.isLower := by
  cases statement with
  | assign x value =>
    cases htarget
    obtain ⟨hs, hlower, -⟩ := h
    have hrun := Text.run_eq_cons_iff.mpr ⟨hs, (Text.isAll_iff.mp hlower).2, rfl⟩
    exact (congrArg Prod.fst hrun).symm
  | assignIndex x index value =>
    cases htarget
    obtain ⟨hs, hlower, -⟩ := h
    have hrun := Text.run_eq_cons_iff.mpr ⟨hs, (Text.isAll_iff.mp hlower).2, rfl⟩
    exact (congrArg Prod.fst hrun).symm
  | result value => cases htarget

theorem withoutVar_cases (t : Text) :
    t = "var ".toList ++ withoutVar t ∨ ¬ "var ".toList <+: t ∧ withoutVar t = t := by
  unfold withoutVar
  cases hafter : Text.after? "var ".toList t with
  | some rest => exact .inl (Text.after?_eq_some_iff.mp hafter)
  | none =>
    refine .inr ⟨?_, rfl⟩
    rintro ⟨rest, rfl⟩
    cases hafter.symm.trans (Text.after?_eq_some_iff.mpr rfl)

/-- A text is read as a statement exactly if it is written as that statement, after a `var ` that it
may begin with. No text is written as two statements, and one that is written as none is an error
that names it in full. What is assigned to is the whole run of lowercase letters in front. -/
theorem read_iff_written (t : Text) :
    ∃ s, (t = "var ".toList ++ s ∨ ¬ "var ".toList <+: t ∧ s = t) ∧
      (∀ statement, ofText t = .ok statement ↔ Writes s statement) ∧
      (∀ reason, ofText t = .error reason ↔
        reason = .unknownStatement t ∧ ∀ statement, ¬ Writes s statement) ∧
      (∀ statement other, Writes s statement → Writes s other → statement = other) ∧
      ∀ statement target, Writes s statement → statement.target? = some target →
        target = s.takeWhile Char.isLower := by
  refine ⟨withoutVar t, withoutVar_cases t, fun _ => ofText_eq_ok_iff, fun _ => ofText_eq_error_iff,
    fun statement other hstatement hother => ?_, fun _ _ => target_eq⟩
  rw [← ofText_eq_ok_iff] at hstatement hother
  exact Except.ok.inj (hstatement.symm.trans hother)

/-- A closing bracket in front belongs to the index, and a later `]=` to the value. -/
example : ofText "var a[]]=b]=c".toList = .ok (.assignIndex ['a'] [']'] "b]=c".toList) :=
  rfl

end Scriptlet.Statement
