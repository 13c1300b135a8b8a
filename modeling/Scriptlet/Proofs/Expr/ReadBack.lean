import Scriptlet.Proofs.Expr.Written

/-!
Reading a tree back from its text. Every form but a remainder is read back at its outermost level,
whatever stands inside it. The text of a remainder may also look like a member access or an index,
or have a percent sign further left; each of these readings cuts a pair of brackets in two, so it has
no legible tree. Hence a writable tree is read back as it is exactly if it is clear, and otherwise its
text has no value at all.
-/

namespace Scriptlet

namespace Shape

/-- A mark that ends a run of letters is the first character outside the run. -/
private theorem mark_of_run {isIn : Char → Bool} {front back run rest : Text} {mark other : Char}
    (h : front ++ other :: back = run ++ mark :: rest) (hrun : ∀ x ∈ run, isIn x = true)
    (hother : isIn other = false) (hfront : mark ∉ front) : other = mark := by
  rcases List.append_eq_append_iff.mp h with ⟨u, rfl, hu⟩ | ⟨u, rfl, hu⟩
  · cases u with
    | nil => exact (List.cons.inj hu).1
    | cons x u =>
      obtain rfl : other = x := (List.cons.inj hu).1
      have hin : isIn other = true := hrun other (by simp)
      rw [hother] at hin
      cases hin
  · cases u with
    | nil => exact (List.cons.inj hu).1.symm
    | cons x u =>
      obtain rfl : mark = x := (List.cons.inj hu).1
      simp at hfront

theorem member?_eq_none_of_mark {front back : Text} {other : Char} (hother : other.isLower = false)
    (hne : other ≠ '.') (hfront : '.' ∉ front) : member? (front ++ other :: back) = none := by
  rw [Option.eq_none_iff_forall_ne_some]
  intro shape h
  obtain ⟨receiver, member, ht, hlower, -⟩ := member?_eq_some_iff.mp h
  exact hne (mark_of_run ht (Text.isAll_iff.mp hlower).2 hother hfront)

theorem index?_eq_none_of_mark {front back : Text} {other : Char} (hother : other.isLower = false)
    (hne : other ≠ '[') (hfront : '[' ∉ front) : index? (front ++ other :: back) = none := by
  rw [Option.eq_none_iff_forall_ne_some]
  intro shape h
  obtain ⟨receiver, inside, ht, hlower, -⟩ := index?_eq_some_iff.mp h
  rw [List.append_assoc, List.cons_append] at ht
  exact hne (mark_of_run ht (Text.isAll_iff.mp hlower).2 hother hfront)

theorem remainder?_eq_none_of_no_percent {t : Text} (h : '%' ∉ t) : remainder? t = none := by
  rw [Option.eq_none_iff_forall_ne_some]
  intro shape hshape
  obtain ⟨c, left, right, rfl, -⟩ := remainder?_eq_some_iff.mp hshape
  simp at h

/-- What the text after a receiver and a dot is read as. -/
theorem member?_of_receiver {receiver member : Text} {shape : Shape}
    (hlower : Text.isAll Char.isLower receiver = true) :
    member? (receiver ++ '.' :: member) = some shape ↔
      '\n' ∉ member ∧ ofMember? receiver member = some shape := by
  rw [member?_eq_some_iff]
  constructor
  · rintro ⟨other, name, ht, hother, hline, h⟩
    obtain ⟨rfl, -, rfl⟩ := Text.run_unique ht (Text.isAll_iff.mp hlower).2
      (Text.isAll_iff.mp hother).2 rfl rfl
    exact ⟨hline, h⟩
  · rintro ⟨hline, h⟩
    exact ⟨receiver, member, rfl, hlower, hline, h⟩

end Shape

namespace Expr

/-- A tree in which the texts of the parts are read again. -/
def reread : Expr → Expr
  | .slice r start => .slice r (ofText start.render)
  | .index r position => .index r (ofText position.render)
  | .remainder left right => .remainder (ofText left.render) (ofText right.render)
  | e => e

private theorem ofText_of_member (receiver member : Text) {shape : Shape}
    (hlower : Text.isAll Char.isLower receiver = true) (hline : '\n' ∉ member)
    (h : Shape.ofMember? receiver member = some shape) :
    ofText (receiver ++ '.' :: member) = shape.toExpr :=
  ofText_of_shape (Shape.ofText_of_member ((Shape.member?_of_receiver hlower).mpr ⟨hline, h⟩))

/-- Every form but a remainder is read back at its outermost level. -/
theorem ofText_render_eq_reread {e : Expr} (h : e.Writable) (hremainder : e.isRemainder = false) :
    ofText e.render = e.reread := by
  cases e with
  | integer n =>
    have hdigits : Decimal.isDigits (Decimal.ofNat n) = true := Decimal.isDigits_ofNat n
    have hshape : Shape.ofText (Decimal.ofNat n) = .ok (.integer n) := by
      simp only [Shape.ofText, hdigits, if_true, readDigits_ofNat h]
      rfl
    exact ofText_of_shape hshape
  | name x =>
    obtain ⟨hne, hall⟩ := Text.isAll_iff.mp h
    have hdigits : Decimal.isDigits x = false := by
      obtain ⟨c, rest, rfl⟩ := List.exists_cons_of_ne_nil hne
      have hletter : c.isAlpha = true := hall c List.mem_cons_self
      have hdigit : c.isDigit = false := by
        delta Char.isAlpha Char.isUpper Char.isLower at hletter
        delta Char.isDigit
        grind
      simp [Decimal.isDigits, Text.isAll, hdigit]
    have hletters : Text.isAll Char.isAlpha x = true := h
    have hshape : Shape.ofText x = .ok (.name x) := by
      simp only [Shape.ofText, hdigits, hletters, if_true]
      rfl
    exact ofText_of_shape hshape
  | split receiver =>
    exact ofText_of_member receiver "split(\"\")".toList h (by decide) rfl
  | join receiver =>
    exact ofText_of_member receiver "join(\"\")".toList h (by decide) rfl
  | length receiver =>
    exact ofText_of_member receiver "length".toList h (by decide) rfl
  | reverse receiver =>
    exact ofText_of_member receiver "reverse()".toList h (by decide) rfl
  | slice receiver start =>
    have hline : '\n' ∉ "slice(".toList ++ start.render ++ [')'] := by
      simp [newline_not_mem_render h.2]
    rw [render_slice]
    exact ofText_of_member receiver _ h.1 hline (Shape.ofMember?_slice receiver start.render)
  | index receiver position =>
    rw [render_index]
    exact ofText_of_shape (Shape.ofText_of_index (Shape.index?_eq_some_iff.mpr
      ⟨receiver, position.render, rfl, h.1, render_ne_nil h.2, newline_not_mem_render h.2, rfl⟩))
  | remainder left right => cases hremainder
  | call function arguments =>
    have hpercent := percent_not_mem_render (e := call function arguments) h rfl rfl rfl
    rw [render_call] at hpercent ⊢
    have hsplit : function ++ '(' :: argumentText arguments ++ [')']
        = function ++ '(' :: (argumentText arguments ++ [')']) := by simp
    have hmember : Shape.member? (function ++ '(' :: argumentText arguments ++ [')']) = none := by
      rw [hsplit]
      exact Shape.member?_eq_none_of_mark rfl (by decide)
        (Text.not_mem_of_isAll h.1 rfl)
    have hindex : Shape.index? (function ++ '(' :: argumentText arguments ++ [')']) = none := by
      rw [hsplit]
      exact Shape.index?_eq_none_of_mark rfl (by decide)
        (Text.not_mem_of_isAll h.1 rfl)
    have hparts := Shape.callParts?_eq_some_iff.mpr ⟨rfl, h.1, isAll_argumentText h.2.1 h.2.2⟩
    have hshape :
        Shape.ofText (function ++ '(' :: argumentText arguments ++ [')'])
          = .ok (.call function arguments) := by
      rw [Shape.ofText_of_call hmember hindex
        (Shape.remainder?_eq_none_of_no_percent hpercent) hparts,
        mapM_ofText_argumentText h.2.1 h.2.2]
      rfl
    exact ofText_of_shape hshape
  | malformed reason => exact absurd h id

private theorem last_of_append (front : Text) {back whole : Text} {c d : Char} (hback : back ≠ [])
    (h : front ++ d :: back = whole ++ [c]) :
    ∃ rest, back = rest ++ [c] ∧ whole = front ++ d :: rest := by
  obtain ⟨rest, last, rfl⟩ : ∃ rest last, back = rest ++ [last] :=
    ⟨back.dropLast, back.getLast hback, (List.dropLast_append_getLast hback).symm⟩
  have hjoined : (front ++ d :: rest) ++ [last] = whole ++ [c] := by simpa using h
  obtain ⟨hwhole, hlast⟩ := List.append_inj' hjoined rfl
  obtain rfl : last = c := by simpa using hlast
  exact ⟨rest, rfl, hwhole.symm⟩

private theorem ofMember?_constant_percent {receiver member r : Text}
    (h : member ∈ Shape.constantMembers) :
    Shape.ofMember? receiver (member ++ '%' :: r) = none := by
  rw [Option.eq_none_iff_forall_ne_some]
  intro shape hshape
  rcases Shape.constant_or_slice_of_ofMember? hshape with hconstant | ⟨start, hslice, -⟩
  · simp only [Shape.constantMembers, List.mem_cons, List.not_mem_nil, or_false] at h hconstant
    rcases h with rfl | rfl | rfl | rfl <;> simp at hconstant
  · simp only [Shape.constantMembers, List.mem_cons, List.not_mem_nil, or_false] at h
    rcases h with rfl | rfl | rfl | rfl <;> simp at hslice

/-- Only a slice before the percent sign and a parenthesis at the very end make a remainder look like
a member access. -/
theorem member?_of_remainder {left : Expr} {r : Text} {shape : Shape} (h : left.Writable)
    (hremainder : left.isRemainder = false) (hr : r ≠ [])
    (hshape : Shape.member? (left.render ++ '%' :: r) = some shape) :
    ∃ receiver start rest, left = .slice receiver start ∧ r = rest ++ [')'] ∧
      shape = .slice receiver (start.render ++ ')' :: '%' :: rest) := by
  have constant : ∀ receiver member : Text, Text.isAll Char.isLower receiver = true →
      member ∈ Shape.constantMembers → left.render = receiver ++ '.' :: member → False := by
    intro receiver member hlower hmember hrender
    rw [hrender, List.append_assoc, List.cons_append, Shape.member?_of_receiver hlower,
      ofMember?_constant_percent hmember] at hshape
    cases hshape.2
  cases left with
  | integer n =>
    have hdot : '.' ∉ Decimal.ofNat n := Text.not_mem_decimal rfl n
    rw [render, Shape.member?_eq_none_of_mark rfl (by decide) hdot] at hshape
    cases hshape
  | name x =>
    have hdot : '.' ∉ x := Text.not_mem_of_isAll h rfl
    rw [render, Shape.member?_eq_none_of_mark rfl (by decide) hdot] at hshape
    cases hshape
  | split receiver => exact (constant receiver _ h (.head _) rfl).elim
  | join receiver => exact (constant receiver _ h (.tail _ (.head _)) rfl).elim
  | length receiver => exact (constant receiver _ h (.tail _ (.tail _ (.head _))) rfl).elim
  | reverse receiver =>
    exact (constant receiver _ h (.tail _ (.tail _ (.tail _ (.head _)))) rfl).elim
  | slice receiver start =>
    rw [render_slice, List.append_assoc, List.cons_append, Shape.member?_of_receiver h.1] at hshape
    rcases Shape.constant_or_slice_of_ofMember? hshape.2 with hconstant | ⟨whole, hm, rfl⟩
    · simp [Shape.constantMembers] at hconstant
    · have hjoined : start.render ++ ')' :: '%' :: r = whole ++ [')'] := by simpa using hm
      obtain ⟨tail, htail, rfl⟩ := last_of_append _ (List.cons_ne_nil _ _) hjoined
      obtain ⟨rest, rfl, rfl⟩ := last_of_append [] hr htail
      exact ⟨receiver, start, rest, rfl, rfl, rfl⟩
  | index receiver position =>
    rw [render_index, List.append_assoc, List.append_assoc, List.cons_append,
      Shape.member?_eq_none_of_index h.1] at hshape
    cases hshape
  | remainder left right => cases hremainder
  | call function arguments =>
    have hdot : '.' ∉ function := Text.not_mem_of_isAll h.1 rfl
    rw [render_call, List.append_assoc, List.append_assoc, List.cons_append,
      Shape.member?_eq_none_of_mark rfl (by decide) hdot] at hshape
    cases hshape
  | malformed reason => exact absurd h id

/-- Only an index before the percent sign and a bracket at the very end make a remainder look like an
index. -/
theorem index?_of_remainder {left : Expr} {r : Text} {shape : Shape} (h : left.Writable)
    (hremainder : left.isRemainder = false) (hr : r ≠ [])
    (hshape : Shape.index? (left.render ++ '%' :: r) = some shape) :
    ∃ receiver position rest, left = .index receiver position ∧ r = rest ++ [']'] ∧
      shape = .index receiver (position.render ++ ']' :: '%' :: rest) := by
  have noBracket : ∀ front back : Text, ∀ other : Char, other.isLower = false → other ≠ '[' →
      '[' ∉ front → left.render ++ '%' :: r = front ++ other :: back → False := by
    intro front back other hother hne hfront hrender
    rw [hrender, Shape.index?_eq_none_of_mark hother hne hfront] at hshape
    cases hshape
  have ofMember : ∀ receiver member : Text, Text.isAll Char.isLower receiver = true →
      left.render = receiver ++ '.' :: member → False := by
    intro receiver member hlower hrender
    have hbracket : '[' ∉ receiver := Text.not_mem_of_isAll hlower rfl
    exact noBracket receiver (member ++ '%' :: r) '.' rfl (by decide) hbracket
      (by rw [hrender, List.append_assoc, List.cons_append])
  cases left with
  | integer n =>
    have hbracket : '[' ∉ Decimal.ofNat n := Text.not_mem_decimal rfl n
    exact (noBracket _ r '%' rfl (by decide) hbracket rfl).elim
  | name x =>
    have hbracket : '[' ∉ x := Text.not_mem_of_isAll h rfl
    exact (noBracket _ r '%' rfl (by decide) hbracket rfl).elim
  | split receiver | join receiver | length receiver | reverse receiver =>
    exact (ofMember receiver _ h rfl).elim
  | slice receiver start => exact (ofMember receiver _ h.1 (render_slice receiver start)).elim
  | index receiver position =>
    obtain ⟨other, whole, ht, hlower, -, -, rfl⟩ := Shape.index?_eq_some_iff.mp hshape
    rw [render_index, List.append_assoc, List.append_assoc, List.append_assoc, List.cons_append,
      List.cons_append] at ht
    obtain ⟨rfl, -, hinside⟩ := Text.run_unique ht (Text.isAll_iff.mp h.1).2
      (Text.isAll_iff.mp hlower).2 rfl rfl
    have hjoined : position.render ++ ']' :: '%' :: r = whole ++ [']'] := by simpa using hinside
    obtain ⟨tail, htail, rfl⟩ := last_of_append _ (List.cons_ne_nil _ _) hjoined
    obtain ⟨rest, rfl, rfl⟩ := last_of_append [] hr htail
    exact ⟨receiver, position, rest, rfl, rfl, rfl⟩
  | remainder left right => cases hremainder
  | call function arguments =>
    have hbracket : '[' ∉ function := Text.not_mem_of_isAll h.1 rfl
    exact (noBracket function (argumentText arguments ++ [')'] ++ '%' :: r) '(' rfl
      (by decide) hbracket (by simp [render_call])).elim
  | malformed reason => exact absurd h id

theorem remainder?_of_cut {front back : Text} (hne : front ≠ []) (hfront : '%' ∉ front)
    (hback : back ≠ []) (hline : '\n' ∉ front ++ '%' :: back) :
    Shape.remainder? (front ++ '%' :: back) = some (.remainder front back) := by
  obtain ⟨c, front, rfl⟩ := List.exists_cons_of_ne_nil hne
  have hrest : '%' ∉ front := fun h => hfront (List.mem_cons_of_mem c h)
  exact Shape.remainder?_eq_some_iff.mpr ⟨c, front, back, rfl, hrest, hback, hline, rfl⟩

/-- Reading the text of a remainder as a member access leaves a parenthesis to close. -/
theorem not_legible_of_member {left : Expr} {r : Text} {shape : Shape} (h : left.Writable)
    (hremainder : left.isRemainder = false) (hr : r ≠ [])
    (hshape : Shape.member? (left.render ++ '%' :: r) = some shape) :
    ¬ (ofText (left.render ++ '%' :: r)).Legible := by
  intro hlegible
  rw [ofText_of_shape (Shape.ofText_of_member hshape)] at hlegible
  obtain ⟨receiver, start, rest, rfl, -, rfl⟩ := member?_of_remainder h hremainder hr hshape
  have hinside := (paired_of_legible _ hlegible).round
  exact Text.not_balanced_of_surplus (by decide) (paired_render h.2).round hinside

/-- Reading the text of a remainder as an index leaves a bracket to close. -/
theorem not_legible_of_index {left : Expr} {r : Text} {shape : Shape} (h : left.Writable)
    (hremainder : left.isRemainder = false) (hr : r ≠ [])
    (hshape : Shape.index? (left.render ++ '%' :: r) = some shape) :
    ¬ (ofText (left.render ++ '%' :: r)).Legible := by
  intro hlegible
  rw [ofText_of_shape (Shape.ofText_of_index hshape)] at hlegible
  obtain ⟨receiver, position, rest, rfl, -, rfl⟩ := index?_of_remainder h hremainder hr hshape
  have hinside := (paired_of_legible _ hlegible).square
  exact Text.not_balanced_of_surplus (by decide) (paired_render h.2).square hinside

/-- What stands before the first percent sign is paired if the text is legible. -/
theorem paired_before_percent {left : Expr} {r front back : Text} (h : left.Writable)
    (hremainder : left.isRemainder = false) (hr : r ≠ []) (hline : '\n' ∉ r)
    (hlegible : (ofText (left.render ++ '%' :: r)).Legible)
    (hcut : left.render = front ++ '%' :: back) (hne : front ≠ []) (hfront : '%' ∉ front) :
    front.Paired := by
  have hmember : Shape.member? (left.render ++ '%' :: r) = none := by
    rw [Option.eq_none_iff_forall_ne_some]
    intro shape hshape
    exact not_legible_of_member h hremainder hr hshape hlegible
  have hindex : Shape.index? (left.render ++ '%' :: r) = none := by
    rw [Option.eq_none_iff_forall_ne_some]
    intro shape hshape
    exact not_legible_of_index h hremainder hr hshape hlegible
  have hwhole : '\n' ∉ left.render ++ '%' :: r := by
    simp [newline_not_mem_render h, hline]
  have hjoined : left.render ++ '%' :: r = front ++ '%' :: (back ++ '%' :: r) := by
    simp [hcut]
  rw [hjoined] at hmember hindex hwhole hlegible
  have hremainder? := remainder?_of_cut hne hfront (by simp) hwhole
  rw [ofText_of_shape (Shape.ofText_of_remainder hmember hindex hremainder?)] at hlegible
  exact paired_of_legible front hlegible.1

/-- A percent sign within the brackets of the left side is where the reading cuts first, and it
leaves a bracket open. -/
theorem percent_not_mem_of_legible {left : Expr} {r : Text} (h : left.Writable)
    (hremainder : left.isRemainder = false) (hr : r ≠ []) (hline : '\n' ∉ r)
    (hlegible : (ofText (left.render ++ '%' :: r)).Legible) : '%' ∉ left.render := by
  intro hpercent
  cases hleft : left with
  | slice receiver start =>
    subst hleft
    have hreceiver : '%' ∉ receiver := Text.not_mem_of_isAll h.1 rfl
    have hclose : ')' ∉ receiver := Text.not_mem_of_isAll h.1 rfl
    have hstart : '%' ∈ start.render := by simpa [render, hreceiver] using hpercent
    obtain ⟨front, back, hcut, hfront⟩ := List.eq_append_cons_of_mem hstart
    have hwhole : (slice receiver start).render
        = (receiver ++ ".slice".toList ++ '(' :: front) ++ '%' :: (back ++ [')']) := by
      simp [render, hcut]
    have hopen : (receiver ++ ".slice".toList ++ '(' :: front).Paired :=
      paired_before_percent h hremainder hr hline hlegible hwhole (by simp)
        (by simp [hreceiver, hfront])
    have hbalanced := (paired_render h.2).round
    rw [hcut] at hbalanced
    exact Text.not_balanced_of_pending (by decide) (by simp [hclose]) hbalanced hopen.round
  | index receiver position =>
    subst hleft
    have hreceiver : '%' ∉ receiver := Text.not_mem_of_isAll h.1 rfl
    have hclose : ']' ∉ receiver := Text.not_mem_of_isAll h.1 rfl
    have hposition : '%' ∈ position.render := by simpa [render, hreceiver] using hpercent
    obtain ⟨front, back, hcut, hfront⟩ := List.eq_append_cons_of_mem hposition
    have hwhole : (index receiver position).render
        = (receiver ++ '[' :: front) ++ '%' :: (back ++ [']']) := by
      simp [render, hcut]
    have hopen : (receiver ++ '[' :: front).Paired :=
      paired_before_percent h hremainder hr hline hlegible hwhole (by simp)
        (by simp [hreceiver, hfront])
    have hbalanced := (paired_render h.2).square
    rw [hcut] at hbalanced
    exact Text.not_balanced_of_pending (by decide) hclose hbalanced hopen.square
  | _ =>
    subst hleft
    exact percent_not_mem_render h hremainder rfl rfl hpercent

/-- The text of a remainder is read as one if neither a member access, an index nor a percent sign
further left comes first. -/
theorem ofText_remainder {left : Expr} {r : Text} (h : left.Writable)
    (hremainder : left.isRemainder = false) (hr : r ≠ []) (hline : '\n' ∉ r)
    (hpercent : '%' ∉ left.render) (hindex : ¬ (left.isIndex = true ∧ r.getLast? = some ']'))
    (hslice : ¬ (left.isSlice = true ∧ r.getLast? = some ')')) :
    ofText (left.render ++ '%' :: r) = .remainder (ofText left.render) (ofText r) := by
  have hmember? : Shape.member? (left.render ++ '%' :: r) = none := by
    rw [Option.eq_none_iff_forall_ne_some]
    intro shape hshape
    obtain ⟨receiver, start, rest, rfl, rfl, -⟩ := member?_of_remainder h hremainder hr hshape
    exact hslice ⟨rfl, by simp⟩
  have hindex? : Shape.index? (left.render ++ '%' :: r) = none := by
    rw [Option.eq_none_iff_forall_ne_some]
    intro shape hshape
    obtain ⟨receiver, position, rest, rfl, rfl, -⟩ := index?_of_remainder h hremainder hr hshape
    exact hindex ⟨rfl, by simp⟩
  have hwhole : '\n' ∉ left.render ++ '%' :: r := by
    simp [newline_not_mem_render h, hline]
  have hcut := remainder?_of_cut (render_ne_nil h) hpercent hr hwhole
  exact ofText_of_shape (Shape.ofText_of_remainder hmember? hindex? hcut)

/-- Where a remainder also looks like an index, the index wins, and the text is not legible. -/
theorem not_index_of_legible {left : Expr} {r : Text} (h : left.Writable)
    (hremainder : left.isRemainder = false) (hr : r ≠ []) (hline : '\n' ∉ r)
    (hlegible : (ofText (left.render ++ '%' :: r)).Legible) :
    ¬ (left.isIndex = true ∧ r.getLast? = some ']') := by
  rintro ⟨hindex, hlast⟩
  obtain ⟨rest, rfl⟩ := List.getLast?_eq_some_iff.mp hlast
  cases left with
  | index receiver position =>
    have hinside : '\n' ∉ position.render ++ ']' :: '%' :: rest := by
      have hrest : '\n' ∉ rest := fun hmem => hline (List.mem_append_left _ hmem)
      simp [newline_not_mem_render h.2, hrest]
    have hshape := Shape.index?_eq_some_iff.mpr
      ⟨receiver, position.render ++ ']' :: '%' :: rest, rfl, h.1, by simp, hinside, rfl⟩
    have htext : (index receiver position).render ++ '%' :: (rest ++ [']'])
        = receiver ++ '[' :: (position.render ++ ']' :: '%' :: rest) ++ [']'] := by
      simp [render]
    rw [← htext] at hshape
    exact not_legible_of_index h hremainder hr hshape hlegible
  | _ => cases hindex

/-- Where a remainder also looks like a slice, the slice wins, and the text is not legible. -/
theorem not_slice_of_legible {left : Expr} {r : Text} (h : left.Writable)
    (hremainder : left.isRemainder = false) (hr : r ≠ []) (hline : '\n' ∉ r)
    (hlegible : (ofText (left.render ++ '%' :: r)).Legible) :
    ¬ (left.isSlice = true ∧ r.getLast? = some ')') := by
  rintro ⟨hslice, hlast⟩
  obtain ⟨rest, rfl⟩ := List.getLast?_eq_some_iff.mp hlast
  cases left with
  | slice receiver start =>
    have hinside : '\n' ∉ "slice(".toList ++ (start.render ++ ')' :: '%' :: rest) ++ [')'] := by
      have hrest : '\n' ∉ rest := fun hmem => hline (List.mem_append_left _ hmem)
      simp [newline_not_mem_render h.2, hrest]
    have hmember : Shape.ofMember? receiver
        ("slice(".toList ++ (start.render ++ ')' :: '%' :: rest) ++ [')'])
          = some (.slice receiver (start.render ++ ')' :: '%' :: rest)) :=
      Shape.ofMember?_slice receiver _
    have hshape := (Shape.member?_of_receiver h.1).mpr ⟨hinside, hmember⟩
    have htext : (slice receiver start).render ++ '%' :: (rest ++ [')'])
        = receiver ++ '.' :: ("slice(".toList ++ (start.render ++ ')' :: '%' :: rest) ++ [')']) := by
      simp [render]
    rw [← htext] at hshape
    exact not_legible_of_member h hremainder hr hshape hlegible
  | _ => cases hslice

/-- A clear tree is read back as it is. -/
theorem ofText_render {e : Expr} (h : e.Writable) (hclear : e.Clear) : ofText e.render = e := by
  induction e with
  | slice receiver start ih =>
    rw [ofText_render_eq_reread h rfl, reread, ih h.2 hclear]
  | index receiver position ih =>
    rw [ofText_render_eq_reread h rfl, reread, ih h.2 hclear]
  | remainder left right ihl ihr =>
    obtain ⟨hremainder, hleft, hright⟩ := h
    obtain ⟨hclearLeft, hclearRight, hpercent, hindex, hslice⟩ := hclear
    rw [render_remainder, ofText_remainder hleft hremainder (render_ne_nil hright)
      (newline_not_mem_render hright) hpercent hindex hslice, ihl hleft hclearLeft,
      ihr hright hclearRight]
  | malformed reason => exact absurd h id
  | _ => exact ofText_render_eq_reread h rfl

/-- Only clear trees have a legible text: the induction goes down the tree that was written, and at
each remainder the three misreadings are excluded one after the other. -/
theorem clear_of_legible {e : Expr} (h : e.Writable) (hlegible : (ofText e.render).Legible) :
    e.Clear := by
  induction e with
  | slice receiver start ih =>
    rw [ofText_render_eq_reread h rfl] at hlegible
    exact ih h.2 hlegible
  | index receiver position ih =>
    rw [ofText_render_eq_reread h rfl] at hlegible
    exact ih h.2 hlegible
  | remainder left right ihl ihr =>
    obtain ⟨hremainder, hleft, hright⟩ := h
    rw [render_remainder] at hlegible
    have hne := render_ne_nil hright
    have hline := newline_not_mem_render hright
    have hpercent := percent_not_mem_of_legible hleft hremainder hne hline hlegible
    have hindex := not_index_of_legible hleft hremainder hne hline hlegible
    have hslice := not_slice_of_legible hleft hremainder hne hline hlegible
    rw [ofText_remainder hleft hremainder hne hline hpercent hindex hslice] at hlegible
    exact ⟨ihl hleft hlegible.1, ihr hright hlegible.2, hpercent, hindex, hslice⟩
  | _ => trivial

end Expr

/-- Running the text of a writable tree never gives a value that running the tree itself does not
give. If the tree is clear, both runs are the same in every state, with the same errors and effects.
If it is not, the text is misread at some remainder, and the run of the text ends without a value. -/
theorem Run.expression_render {e : Expr} (h : e.Writable) (frame : Frame) (budget : Int) :
    (e.Clear → Run.expression frame budget e.render = e.eval Function.call frame budget) ∧
    (¬ e.Clear → ∀ s, ∃ halt t, Run.expression frame budget e.render s = .error halt t) ∧
    ∀ s t v, Run.expression frame budget e.render s = .ok v t →
      e.eval Function.call frame budget s = .ok v t := by
  have same : e.Clear →
      Run.expression frame budget e.render = e.eval Function.call frame budget := by
    intro hclear
    rw [Run.expression, Expr.ofText_render h hclear]
  have clear : ∀ s t v, Run.expression frame budget e.render s = .ok v t → e.Clear := by
    intro s t v hvalue
    exact Expr.clear_of_legible h (Expr.legible_of_eval hvalue)
  refine ⟨same, ?_, ?_⟩
  · intro hunclear s
    cases hrun : Run.expression frame budget e.render s with
    | ok v t => exact absurd (clear s t v hrun) hunclear
    | error halt t => exact ⟨halt, t, rfl⟩
  · intro s t v hvalue
    rw [← same (clear s t v hvalue)]
    exact hvalue

/-- In `c%a[7%b.length]` the percent signs are read where they were written; `a[0]%b[1]` is read as an
index with the text `0]%b[1` inside, and has no value. -/
theorem Run.expression_render_samples :
    Run.expression {} 20 "c%a[7%b.length]".toList
      = (Expr.remainder (.name ['c'])
          (.index ['a'] (.remainder (.integer 7) (.length ['b'])))).eval Function.call {} 20 ∧
    ∃ halt t, Run.expression {} 20 "a[0]%b[1]".toList ⟨{}, .empty⟩ = .error halt t := by
  constructor
  · have hclear := (Run.expression_render
      (e := .remainder (.name ['c']) (.index ['a'] (.remainder (.integer 7) (.length ['b']))))
      (by decide) {} 20).1
    exact hclear (by decide)
  · have hunclear := (Run.expression_render
      (e := .remainder (.index ['a'] (.integer 0)) (.index ['b'] (.integer 1)))
      (by decide) {} 20).2.1
    exact hunclear (by decide) ⟨{}, .empty⟩

end Scriptlet
