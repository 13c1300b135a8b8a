import Scriptlet.Expr.Basic
import Scriptlet.Proofs.Text.Cut

/-!
What each recogniser of an expression shape accepts. The recognisers are written as scans; every
statement here turns one of them into an equation on the text, so that later arguments cut and join
texts and never scan them. The last section says how the fixed order of the recognisers settles a
text that several of them accept.
-/

namespace Scriptlet

namespace Shape

theorem member?_eq_some_iff {t : Text} {shape : Shape} :
    member? t = some shape ↔ ∃ receiver member, t = receiver ++ '.' :: member ∧
      Text.isAll Char.isLower receiver = true ∧ '\n' ∉ member ∧
      ofMember? receiver member = some shape := by
  constructor
  · intro h
    unfold member? at h
    split at h
    · rename_i c receiver member hrun
      obtain ⟨ht, hlower, -⟩ := Text.run_eq_cons_iff.mp hrun
      split at h
      · cases h
      · rename_i hline
        exact ⟨c :: receiver, member, ht, Text.isAll_cons_iff.mpr hlower, hline, h⟩
    · cases h
  · rintro ⟨receiver, member, rfl, hlower, hline, h⟩
    obtain ⟨hne, hall⟩ := Text.isAll_iff.mp hlower
    obtain ⟨c, receiver, rfl⟩ := List.exists_cons_of_ne_nil hne
    have hrun : Text.run Char.isLower (c :: receiver ++ '.' :: member)
        = (c :: receiver, '.' :: member) := Text.run_eq_cons_iff.mpr ⟨rfl, hall, rfl⟩
    simp only [member?, hrun, if_neg hline, h]

theorem index?_eq_some_iff {t : Text} {shape : Shape} :
    index? t = some shape ↔ ∃ receiver inside, t = receiver ++ '[' :: inside ++ [']'] ∧
      Text.isAll Char.isLower receiver = true ∧ inside ≠ [] ∧ '\n' ∉ inside ∧
      shape = .index receiver inside := by
  constructor
  · intro h
    unfold index? at h
    split at h
    · rename_i c receiver rest hrun
      obtain ⟨ht, hlower, -⟩ := Text.run_eq_cons_iff.mp hrun
      simp only [Option.bind_eq_bind, Option.bind_eq_some_iff, Text.before?_eq_some_iff] at h
      obtain ⟨inside, rfl, h⟩ := h
      split at h
      · cases h
      · rename_i hinside
        rw [not_or] at hinside
        refine ⟨c :: receiver, inside, ?_, Text.isAll_cons_iff.mpr hlower, hinside.1, hinside.2, ?_⟩
        · simpa using ht
        · simpa using h.symm
    · cases h
  · rintro ⟨receiver, inside, rfl, hlower, hinside, hline, rfl⟩
    obtain ⟨hne, hall⟩ := Text.isAll_iff.mp hlower
    obtain ⟨c, receiver, rfl⟩ := List.exists_cons_of_ne_nil hne
    have hrun : Text.run Char.isLower (c :: receiver ++ '[' :: inside ++ [']'])
        = (c :: receiver, '[' :: (inside ++ [']'])) :=
      Text.run_eq_cons_iff.mpr ⟨by simp, hall, rfl⟩
    have hbefore : Text.before? [']'] (inside ++ [']']) = some inside :=
      Text.before?_eq_some_iff.mpr rfl
    rw [index?, hrun]
    simp [hbefore, hinside, hline]

theorem remainder?_eq_some_iff {t : Text} {shape : Shape} :
    remainder? t = some shape ↔ ∃ c left right, t = c :: left ++ '%' :: right ∧
      '%' ∉ left ∧ right ≠ [] ∧ '\n' ∉ t ∧ shape = .remainder (c :: left) right := by
  constructor
  · intro h
    unfold remainder? at h
    split at h
    · cases h
    · rename_i c rest
      simp only [Option.bind_eq_bind, Option.bind_eq_some_iff] at h
      obtain ⟨⟨left, right⟩, hcut, h⟩ := h
      obtain ⟨rfl, hleft⟩ := Text.cut?_eq_some_iff.mp hcut
      dsimp only at h
      split at h
      · cases h
      · rename_i hright
        rw [not_or] at hright
        refine ⟨c, left, right, by simp, hleft, hright.1, hright.2, ?_⟩
        simpa using h.symm
  · rintro ⟨c, left, right, rfl, hleft, hright, hline, rfl⟩
    have hcut : Text.cut? '%' (left ++ '%' :: right) = some (left, right) :=
      Text.cut?_eq_some_iff.mpr ⟨rfl, hleft⟩
    rw [List.cons_append] at hline ⊢
    simp only [remainder?, hcut, Option.bind_eq_bind, Option.bind_some, hright, hline, or_self,
      if_false, Option.pure_def]

theorem callParts?_eq_some_iff {t function inside : Text} :
    callParts? t = some (function, inside) ↔ t = function ++ '(' :: inside ++ [')'] ∧
      Text.isAll Char.isAlpha function = true ∧ Text.isAll isArgumentChar inside = true := by
  constructor
  · intro h
    unfold callParts? at h
    split at h
    · rename_i c name rest hrun
      obtain ⟨ht, halpha, -⟩ := Text.run_eq_cons_iff.mp hrun
      simp only [Option.bind_eq_bind, Option.bind_eq_some_iff, Text.before?_eq_some_iff] at h
      obtain ⟨between, rfl, h⟩ := h
      split at h
      · rename_i hinside
        cases h
        refine ⟨by simpa using ht, Text.isAll_cons_iff.mpr halpha, hinside⟩
      · cases h
    · cases h
  · rintro ⟨rfl, halpha, hinside⟩
    obtain ⟨hne, hall⟩ := Text.isAll_iff.mp halpha
    obtain ⟨c, function, rfl⟩ := List.exists_cons_of_ne_nil hne
    have hrun : Text.run Char.isAlpha (c :: function ++ '(' :: inside ++ [')'])
        = (c :: function, '(' :: (inside ++ [')'])) :=
      Text.run_eq_cons_iff.mpr ⟨by simp, hall, rfl⟩
    have hbefore : Text.before? [')'] (inside ++ [')']) = some inside :=
      Text.before?_eq_some_iff.mpr rfl
    rw [callParts?, hrun]
    simp [hbefore, hinside]

/-- The five members. Only a slice has a text of its own inside. -/
theorem ofMember?_eq_some_iff {receiver member : Text} {shape : Shape} :
    ofMember? receiver member = some shape ↔
      (member = "split(\"\")".toList ∧ shape = .split receiver) ∨
      (member = "join(\"\")".toList ∧ shape = .join receiver) ∨
      (member = "length".toList ∧ shape = .length receiver) ∨
      (member = "reverse()".toList ∧ shape = .reverse receiver) ∨
      ∃ start, member = "slice(".toList ++ start ++ [')'] ∧ shape = .slice receiver start := by
  constructor
  · intro h
    unfold ofMember? at h
    split at h
    · rename_i hm
      exact .inl ⟨hm, (Option.some.inj h).symm⟩
    split at h
    · rename_i hm
      exact .inr (.inl ⟨hm, (Option.some.inj h).symm⟩)
    split at h
    · rename_i hm
      exact .inr (.inr (.inl ⟨hm, (Option.some.inj h).symm⟩))
    split at h
    · rename_i hm
      exact .inr (.inr (.inr (.inl ⟨hm, (Option.some.inj h).symm⟩)))
    simp only [Option.bind_eq_bind, Option.bind_eq_some_iff, Text.after?_eq_some_iff,
      Text.before?_eq_some_iff, Option.pure_def, Option.some.injEq] at h
    obtain ⟨rest, rfl, start, rfl, rfl⟩ := h
    exact .inr (.inr (.inr (.inr ⟨start, by simp, rfl⟩)))
  · rintro (⟨rfl, rfl⟩ | ⟨rfl, rfl⟩ | ⟨rfl, rfl⟩ | ⟨rfl, rfl⟩ | ⟨start, rfl, rfl⟩)
    · rfl
    · rfl
    · rfl
    · rfl
    · have hafter : Text.after? "slice(".toList ("slice(".toList ++ start ++ [')'])
          = some (start ++ [')']) := Text.after?_eq_some_iff.mpr (by simp)
      have hbefore : Text.before? [')'] (start ++ [')']) = some start :=
        Text.before?_eq_some_iff.mpr rfl
      have hsplit : "slice(".toList ++ start ++ [')'] ≠ "split(\"\")".toList := by simp
      have hjoin : "slice(".toList ++ start ++ [')'] ≠ "join(\"\")".toList := by simp
      have hlength : "slice(".toList ++ start ++ [')'] ≠ "length".toList := by simp
      have hreverse : "slice(".toList ++ start ++ [')'] ≠ "reverse()".toList := by simp
      simp only [ofMember?, if_neg hsplit, if_neg hjoin, if_neg hlength, if_neg hreverse, hafter,
        hbefore, Option.bind_eq_bind, Option.bind_some, Option.pure_def]

theorem ofMember?_slice (receiver start : Text) :
    ofMember? receiver ("slice(".toList ++ start ++ [')']) = some (.slice receiver start) :=
  ofMember?_eq_some_iff.mpr (.inr (.inr (.inr (.inr ⟨start, rfl, rfl⟩))))

def constantMembers : List Text :=
  ["split(\"\")".toList, "join(\"\")".toList, "length".toList, "reverse()".toList]

theorem constant_or_slice_of_ofMember? {receiver member : Text} {shape : Shape}
    (h : ofMember? receiver member = some shape) :
    member ∈ constantMembers ∨
      ∃ start, member = "slice(".toList ++ start ++ [')'] ∧ shape = .slice receiver start := by
  rcases ofMember?_eq_some_iff.mp h with
    ⟨rfl, -⟩ | ⟨rfl, -⟩ | ⟨rfl, -⟩ | ⟨rfl, -⟩ | hslice
  · exact .inl (by simp [constantMembers])
  · exact .inl (by simp [constantMembers])
  · exact .inl (by simp [constantMembers])
  · exact .inl (by simp [constantMembers])
  · exact .inr hslice

/-- A text with a mark in it, one that is neither a digit nor a letter, is left to the recognisers. -/
private theorem ofText_of_mark {t : Text} {c : Char} (hc : c ∈ t) (hdigit : c.isDigit = false)
    (halpha : c.isAlpha = false) :
    ofText t = match member? t <|> index? t <|> remainder? t with
      | some shape => .ok shape
      | none => match callParts? t with
        | some (function, inside) =>
          ((Text.pieces ',' inside).mapM (Argument.ofText t)).map (.call function)
        | none => .error (.unsupportedExpression t) := by
  have hdigits : Decimal.isDigits t = false := by
    rw [← Bool.not_eq_true]
    exact fun hall => Text.not_mem_of_isAll hall hdigit hc
  have hletters : Text.isAll Char.isAlpha t = false := by
    rw [← Bool.not_eq_true]
    exact fun hall => Text.not_mem_of_isAll hall halpha hc
  rw [ofText, hdigits, hletters]
  rfl

theorem ofText_of_member {t : Text} {shape : Shape} (h : member? t = some shape) :
    ofText t = .ok shape := by
  obtain ⟨receiver, member, rfl, -⟩ := member?_eq_some_iff.mp h
  rw [ofText_of_mark (c := '.') (by simp) rfl rfl, h]
  rfl

/-- The character after the receiver tells an index from a member access. -/
theorem member?_eq_none_of_index {receiver rest : Text}
    (hlower : Text.isAll Char.isLower receiver = true) :
    member? (receiver ++ '[' :: rest) = none := by
  rw [Option.eq_none_iff_forall_ne_some]
  intro shape h
  obtain ⟨other, member, ht, hother, -⟩ := member?_eq_some_iff.mp h
  have hmark := (Text.run_unique ht (Text.isAll_iff.mp hlower).2 (Text.isAll_iff.mp hother).2
    rfl rfl).2.1
  exact absurd hmark (by decide)

theorem ofText_of_index {t : Text} {shape : Shape} (h : index? t = some shape) :
    ofText t = .ok shape := by
  obtain ⟨receiver, inside, rfl, hlower, -⟩ := index?_eq_some_iff.mp h
  have hmember : member? (receiver ++ '[' :: inside ++ [']']) = none := by
    rw [List.append_assoc, List.cons_append]
    exact member?_eq_none_of_index hlower
  rw [ofText_of_mark (c := '[') (by simp) rfl rfl, hmember, h]
  rfl

theorem ofText_of_remainder {t : Text} {shape : Shape} (hmember : member? t = none)
    (hindex : index? t = none) (h : remainder? t = some shape) : ofText t = .ok shape := by
  obtain ⟨c, left, right, rfl, -⟩ := remainder?_eq_some_iff.mp h
  rw [ofText_of_mark (c := '%') (by simp) rfl rfl, hmember, hindex, h]
  rfl

theorem ofText_of_call {t function inside : Text} (hmember : member? t = none)
    (hindex : index? t = none) (hremainder : remainder? t = none)
    (h : callParts? t = some (function, inside)) :
    ofText t = ((Text.pieces ',' inside).mapM (Argument.ofText t)).map (.call function) := by
  obtain ⟨rfl, -⟩ := callParts?_eq_some_iff.mp h
  rw [ofText_of_mark (c := '(') (by simp) rfl rfl, hmember, hindex, hremainder, h]
  rfl

/-- Where a shape can come from. -/
theorem ofText_eq_ok_cases {t : Text} {shape : Shape} (h : ofText t = .ok shape) :
    (Decimal.isDigits t = true ∧ ∃ n, shape = .integer n) ∨
    (Text.isAll Char.isAlpha t = true ∧ shape = .name t) ∨
    member? t = some shape ∨ index? t = some shape ∨ remainder? t = some shape ∨
    ∃ function inside arguments, callParts? t = some (function, inside) ∧
      shape = .call function arguments := by
  unfold ofText at h
  split at h
  · rename_i hdigits
    cases hn : readDigits t with
    | error reason => simp [hn, Except.map] at h
    | ok n =>
      simp only [hn, Except.map, Except.ok.injEq] at h
      exact .inl ⟨hdigits, n, h.symm⟩
  split at h
  · rename_i halpha
    exact .inr (.inl ⟨halpha, (Except.ok.inj h).symm⟩)
  split at h
  · rename_i found hfound
    obtain rfl := Except.ok.inj h
    simp only [Option.orElse_eq_orElse, Option.orElse_eq_or, Option.or_eq_some_iff] at hfound
    rcases hfound with hmember | ⟨-, hindex | ⟨-, hremainder⟩⟩
    · exact .inr (.inr (.inl hmember))
    · exact .inr (.inr (.inr (.inl hindex)))
    · exact .inr (.inr (.inr (.inr (.inl hremainder))))
  split at h
  · rename_i function inside hcall
    cases harguments : (Text.pieces ',' inside).mapM (Argument.ofText t) with
    | error reason => simp [harguments, Except.map] at h
    | ok arguments =>
      simp only [harguments, Except.map, Except.ok.injEq] at h
      exact .inr (.inr (.inr (.inr (.inr ⟨function, inside, arguments, hcall, h.symm⟩))))
  · cases h

end Shape

end Scriptlet
