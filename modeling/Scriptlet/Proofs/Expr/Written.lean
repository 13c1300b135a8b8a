import Scriptlet.Expr.Basic
import Scriptlet.Proofs.Expr.Legible
import Scriptlet.Proofs.Text.Cut

namespace Scriptlet

theorem Argument.all_of_writable {a : Argument} (h : a.Writable) :
    Text.isAll Shape.isArgumentChar a.render = true ∧ ',' ∉ a.render := by
  cases a with
  | integer n =>
    obtain ⟨hne, hdigits⟩ := Text.isAll_iff.mp (Decimal.isDigits_ofNat n)
    refine ⟨Text.isAll_iff.mpr ⟨hne, ?_⟩, ?_⟩
    · intro c hc
      simp [Shape.isArgumentChar, hdigits c hc]
    · exact Text.not_mem_decimal rfl n
  | name x =>
    obtain ⟨hne, hlower⟩ := Text.isAll_iff.mp h
    refine ⟨Text.isAll_iff.mpr ⟨hne, ?_⟩, ?_⟩
    · intro c hc
      simp [Shape.isArgumentChar, hlower c hc]
    · exact Text.not_mem_of_isAll h rfl

theorem readDigits_ofNat {n : Nat} (h : InRange n) : readDigits (Decimal.ofNat n) = .ok n := by
  simp only [readDigits, Decimal.value_ofNat, if_pos h]

/-- A writable argument is read back from its text. -/
theorem Argument.ofText_render {a : Argument} (h : a.Writable) (call : Text) :
    Argument.ofText call a.render = .ok a := by
  have hne : a.render ≠ [] := (Text.isAll_iff.mp (Argument.all_of_writable h).1).1
  rw [Argument.ofText, if_neg hne]
  cases a with
  | integer n =>
    rw [Argument.render, if_pos (Decimal.isDigits_ofNat n), readDigits_ofNat h]
    rfl
  | name x =>
    obtain ⟨c, rest, rfl⟩ := List.exists_cons_of_ne_nil hne
    have hlower : c.isLower = true := (Text.isAll_iff.mp h).2 c List.mem_cons_self
    have hdigit : c.isDigit = false := by
      delta Char.isLower at hlower
      delta Char.isDigit
      grind
    have hdigits : Decimal.isDigits (c :: rest) = false := by
      simp [Decimal.isDigits, Text.isAll, hdigit]
    rw [Argument.render, hdigits]
    rfl

def argumentText (arguments : List Argument) : Text :=
  [','].intercalate (arguments.map Argument.render)

theorem isAll_argumentText {arguments : List Argument} (hne : arguments ≠ [])
    (h : ∀ a ∈ arguments, a.Writable) :
    Text.isAll Shape.isArgumentChar (argumentText arguments) = true := by
  apply Text.isAll_intercalate rfl (by simpa using hne)
  intro piece hpiece
  obtain ⟨a, ha, rfl⟩ := List.mem_map.mp hpiece
  exact (Argument.all_of_writable (h a ha)).1

/-- Writable arguments are read back from the text between the parentheses. -/
theorem mapM_ofText_argumentText {arguments : List Argument} (hne : arguments ≠ [])
    (h : ∀ a ∈ arguments, a.Writable) (call : Text) :
    (Text.pieces ',' (argumentText arguments)).mapM (Argument.ofText call) = .ok arguments := by
  have hcomma : ∀ piece ∈ arguments.map Argument.render, ',' ∉ piece := by
    intro piece hpiece
    obtain ⟨a, ha, rfl⟩ := List.mem_map.mp hpiece
    exact (Argument.all_of_writable (h a ha)).2
  have hpieces : Text.pieces ',' (argumentText arguments) = arguments.map Argument.render :=
    List.splitOn_intercalate ',' hcomma (by simpa using hne)
  rw [hpieces]
  clear hcomma hpieces hne
  induction arguments with
  | nil => rfl
  | cons a rest ih =>
    have hrest := ih fun b hb => h b (List.mem_cons_of_mem a hb)
    rw [List.map_cons, List.mapM_cons, Argument.ofText_render (h a List.mem_cons_self), hrest]
    rfl

namespace Expr

theorem render_index (receiver : Text) (position : Expr) :
    (index receiver position).render = receiver ++ '[' :: position.render ++ [']'] := by
  simp [render]

theorem render_slice (receiver : Text) (start : Expr) :
    (slice receiver start).render = receiver ++ '.' :: ("slice(".toList ++ start.render ++ [')']) := by
  simp [render]

theorem render_remainder (left right : Expr) :
    (remainder left right).render = left.render ++ '%' :: right.render := by
  simp [render]

theorem render_call (function : Text) (arguments : List Argument) :
    (call function arguments).render = function ++ '(' :: argumentText arguments ++ [')'] := by
  simp [render, argumentText]

theorem render_ne_nil {e : Expr} (h : e.Writable) : e.render ≠ [] := by
  cases e with
  | integer n => exact Nat.toDigits_ne_nil
  | name x => exact (Text.isAll_iff.mp h).1
  | remainder left right => simp [render]
  | malformed reason => exact absurd h id
  | _ => simp [render]

theorem paired_render {e : Expr} (h : e.Writable) : e.render.Paired := by
  induction e with
  | integer n => exact Text.paired_of_isAll (Decimal.isDigits_ofNat n) rfl
  | name x => exact Text.paired_of_isAll h rfl
  | split receiver => exact Text.paired_member h (Text.paired_constantMember (.head _))
  | join receiver => exact Text.paired_member h (Text.paired_constantMember (.tail _ (.head _)))
  | length receiver =>
    exact Text.paired_member h (Text.paired_constantMember (.tail _ (.tail _ (.head _))))
  | reverse receiver =>
    exact Text.paired_member h (Text.paired_constantMember (.tail _ (.tail _ (.tail _ (.head _)))))
  | slice receiver start ih =>
    rw [render_slice]
    exact Text.paired_member h.1 (Text.paired_slice (ih h.2))
  | index receiver position ih =>
    rw [render_index]
    exact Text.paired_index h.1 (ih h.2)
  | remainder left right ihl ihr =>
    rw [render_remainder]
    exact Text.paired_remainder (ihl h.2.1) (ihr h.2.2)
  | call function arguments =>
    rw [render_call]
    have hinside := isAll_argumentText h.2.1 h.2.2
    exact Text.paired_call h.1 (Text.paired_of_isAll hinside rfl)
  | malformed reason => exact absurd h id

theorem newline_not_mem_render {e : Expr} (h : e.Writable) : '\n' ∉ e.render := by
  induction e with
  | integer n => exact Text.not_mem_decimal rfl n
  | name x => exact Text.not_mem_of_isAll h rfl
  | split receiver | join receiver | length receiver | reverse receiver =>
    have hreceiver : '\n' ∉ receiver := Text.not_mem_of_isAll h rfl
    simp [render, hreceiver]
  | slice receiver start ih | index receiver start ih =>
    have hreceiver : '\n' ∉ receiver := Text.not_mem_of_isAll h.1 rfl
    simp [render, hreceiver, ih h.2]
  | remainder left right ihl ihr =>
    simp [render, ihl h.2.1, ihr h.2.2]
  | call function arguments =>
    have hfunction : '\n' ∉ function := Text.not_mem_of_isAll h.1 rfl
    have hinside : '\n' ∉ argumentText arguments :=
      Text.not_mem_of_isAll (isAll_argumentText h.2.1 h.2.2) rfl
    simp [render_call, hfunction, hinside]
  | malformed reason => exact absurd h id

/-- Trees whose text has no percent sign of its own, and no text inside. -/
theorem percent_not_mem_render {e : Expr} (h : e.Writable) (hremainder : e.isRemainder = false)
    (hindex : e.isIndex = false) (hslice : e.isSlice = false) : '%' ∉ e.render := by
  cases e with
  | integer n => exact Text.not_mem_decimal rfl n
  | name x => exact Text.not_mem_of_isAll h rfl
  | split receiver | join receiver | length receiver | reverse receiver =>
    have hreceiver : '%' ∉ receiver := Text.not_mem_of_isAll h rfl
    simp [render, hreceiver]
  | slice receiver start => cases hslice
  | index receiver position => cases hindex
  | remainder left right => cases hremainder
  | call function arguments =>
    have hfunction : '%' ∉ function := Text.not_mem_of_isAll h.1 rfl
    have hinside : '%' ∉ argumentText arguments :=
      Text.not_mem_of_isAll (isAll_argumentText h.2.1 h.2.2) rfl
    simp [render_call, hfunction, hinside]
  | malformed reason => exact absurd h id

end Expr

end Scriptlet
