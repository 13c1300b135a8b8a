import Mathlib.Data.List.Infix
import Scriptlet.Proofs.Expr.Recognition
import Scriptlet.Proofs.Run.Outcome
import Scriptlet.Text.Basic

/-!
Legible trees: those in which every text had a shape. A run that has a value has looked at every
part of its expression, so only legible trees have values (`legible_of_eval`). And only texts with
balanced brackets have legible trees (`paired_of_legible`). Together: an expression text whose
brackets are out of balance never has a value.
-/

namespace Scriptlet

namespace Text

/-! ### Balanced brackets -/

/-- The brackets of one kind come in pairs, each opened before it is closed. -/
structure Balanced (opening closing : Char) (t : Text) : Prop where
  covered : ∀ n, (t.take n).count closing ≤ (t.take n).count opening
  settled : t.count closing = t.count opening

variable {opening closing : Char} {s t : Text}

theorem balanced_of_absent (hopen : opening ∉ t) (hclose : closing ∉ t) :
    Balanced opening closing t where
  covered := by
    intro n
    have hnone : closing ∉ t.take n := fun h => hclose (List.mem_of_mem_take h)
    simp [List.count_eq_zero.mpr hnone]
  settled := by
    rw [List.count_eq_zero.mpr hopen, List.count_eq_zero.mpr hclose]

theorem Balanced.append (hs : Balanced opening closing s) (ht : Balanced opening closing t) :
    Balanced opening closing (s ++ t) where
  covered := by
    intro n
    have hfront := hs.covered n
    have hback := ht.covered (n - s.length)
    simp only [List.take_append, List.count_append]
    omega
  settled := by
    simp only [List.count_append, hs.settled, ht.settled]

/-- A balanced text between the brackets of its own kind. -/
theorem Balanced.enclose (hne : opening ≠ closing) (ht : Balanced opening closing t) :
    Balanced opening closing (opening :: t ++ [closing]) where
  covered := by
    intro n
    cases n with
    | zero => simp
    | succ n =>
      have hinside := ht.covered n
      have hlast : ([closing].take (n - t.length)).count closing ≤ 1 :=
        List.count_le_length.trans (List.length_take_le' _ _)
      simp only [List.cons_append, List.take_succ_cons, List.take_append, List.count_cons_self,
        List.count_cons_of_ne hne, List.count_append]
      omega
  settled := by
    have hsettled := ht.settled
    simp only [List.cons_append, List.count_cons_self, List.count_cons_of_ne hne,
      List.count_append, List.count_cons_of_ne hne.symm, List.count_nil]
    omega

/-- A balanced text has nothing left to close. -/
theorem not_balanced_of_surplus (hne : opening ≠ closing) (hs : Balanced opening closing s) :
    ¬ Balanced opening closing (s ++ closing :: t) := by
  intro h
  have hcovered := h.covered (s.length + 1)
  have hsettled := hs.settled
  have htake : (s ++ closing :: t).take (s.length + 1) = s ++ [closing] := by
    simp [List.take_append]
  simp only [htake, List.count_append, List.count_cons_self, List.count_cons_of_ne hne.symm,
    List.count_nil] at hcovered
  omega

/-- A bracket that is opened before a piece of a balanced text stays open throughout that piece. -/
theorem not_balanced_of_pending (hne : opening ≠ closing) (hclose : closing ∉ s) {p rest : Text}
    (ht : Balanced opening closing (p ++ rest)) : ¬ Balanced opening closing (s ++ opening :: p) := by
  intro h
  have hsettled := h.settled
  have hcovered := ht.covered p.length
  rw [List.take_left] at hcovered
  simp only [List.count_append, List.count_cons_self, List.count_cons_of_ne hne,
    List.count_eq_zero.mpr hclose] at hsettled
  omega

end Text

/-! ### Legible trees -/

namespace Expr

/-- A tree without a malformed leaf. -/
def Legible : Expr → Prop
  | .slice _ start => start.Legible
  | .index _ position => position.Legible
  | .remainder left right => left.Legible ∧ right.Legible
  | .malformed _ => False
  | _ => True

theorem legible_of_eval {invoke : Invocation} {frame : Frame} {e : Expr} {budget : Int}
    {s t : State} {v : Value} (h : e.eval invoke frame budget s = .ok v t) : e.Legible := by
  induction e generalizing budget s t v with
  | slice receiver start ih =>
    rw [eval] at h
    split at h
    · exact absurd h Run.fail_ne_ok
    · simp only [Run.bind_eq_ok] at h
      obtain ⟨_, _, -, _, _, hstart, -⟩ := h
      exact ih hstart
  | index receiver position ih =>
    rw [eval] at h
    split at h
    · exact absurd h Run.fail_ne_ok
    · simp only [Run.bind_eq_ok] at h
      obtain ⟨_, _, -, _, _, -, _, _, hposition, -⟩ := h
      exact ih hposition
  | remainder left right ihl ihr =>
    rw [eval] at h
    split at h
    · exact absurd h Run.fail_ne_ok
    · simp only [Run.bind_eq_ok] at h
      obtain ⟨_, _, hleft, _, _, -, _, _, hright, -⟩ := h
      exact ⟨ihl hleft, ihr hright⟩
  | malformed reason =>
    rw [eval] at h
    split at h
    · exact absurd h Run.fail_ne_ok
    · exact absurd h Run.fail_ne_ok
  | _ => trivial

end Expr

namespace Text

def brackets : List Char := ['[', ']', '(', ')']

structure Paired (t : Text) : Prop where
  square : Balanced '[' ']' t
  round : Balanced '(' ')' t

theorem paired_of_absent {t : Text} (h : brackets.all (fun c => !t.contains c) = true) :
    Paired t := by
  have habsent : ∀ c ∈ brackets, c ∉ t := by
    intro c hc
    simpa using List.all_eq_true.mp h c hc
  constructor
  · exact balanced_of_absent (habsent '[' (by simp [brackets])) (habsent ']' (by simp [brackets]))
  · exact balanced_of_absent (habsent '(' (by simp [brackets])) (habsent ')' (by simp [brackets]))

theorem paired_of_isAll {isIn : Char → Bool} {t : Text} (hall : isAll isIn t = true)
    (hout : brackets.all (fun c => !isIn c) = true) : Paired t := by
  apply paired_of_absent
  apply List.all_eq_true.mpr
  intro c hc
  have hnot : isIn c = false := by simpa using List.all_eq_true.mp hout c hc
  have habsent : c ∉ t := not_mem_of_isAll hall hnot
  simpa using habsent

theorem Paired.append {s t : Text} (hs : Paired s) (ht : Paired t) : Paired (s ++ t) where
  square := hs.square.append ht.square
  round := hs.round.append ht.round

theorem Paired.inSquare {t : Text} (ht : Paired t) : Paired ('[' :: t ++ [']']) where
  square := ht.square.enclose (by decide)
  round := by
    have hopen : Balanced '(' ')' ['['] := balanced_of_absent (by decide) (by decide)
    have hclose : Balanced '(' ')' [']'] := balanced_of_absent (by decide) (by decide)
    exact (hopen.append ht.round).append hclose

theorem Paired.inRound {t : Text} (ht : Paired t) : Paired ('(' :: t ++ [')']) where
  square := by
    have hopen : Balanced '[' ']' ['('] := balanced_of_absent (by decide) (by decide)
    have hclose : Balanced '[' ']' [')'] := balanced_of_absent (by decide) (by decide)
    exact (hopen.append ht.square).append hclose
  round := ht.round.enclose (by decide)

theorem paired_constantMember {member : Text} (h : member ∈ Shape.constantMembers) :
    Paired member := by
  have hquotes : Paired ['"', '"'] := paired_of_absent rfl
  have hnothing : Paired [] := paired_of_absent rfl
  simp only [Shape.constantMembers, List.mem_cons, List.not_mem_nil, or_false] at h
  rcases h with rfl | rfl | rfl | rfl
  · have hname : Paired "split".toList := paired_of_absent rfl
    exact hname.append hquotes.inRound
  · have hname : Paired "join".toList := paired_of_absent rfl
    exact hname.append hquotes.inRound
  · exact paired_of_absent rfl
  · have hname : Paired "reverse".toList := paired_of_absent rfl
    exact hname.append hnothing.inRound

theorem paired_member {receiver member : Text} (hlower : isAll Char.isLower receiver = true)
    (hmember : Paired member) : Paired (receiver ++ '.' :: member) := by
  have hreceiver : Paired receiver := paired_of_isAll hlower rfl
  have hdot : Paired ['.'] := paired_of_absent rfl
  exact hreceiver.append (hdot.append hmember)

theorem paired_slice {start : Text} (hstart : Paired start) :
    Paired ("slice(".toList ++ start ++ [')']) := by
  have hname : Paired "slice".toList := paired_of_absent rfl
  exact hname.append hstart.inRound

theorem paired_index {receiver inside : Text} (hlower : isAll Char.isLower receiver = true)
    (hinside : Paired inside) : Paired (receiver ++ '[' :: inside ++ [']']) := by
  have hreceiver : Paired receiver := paired_of_isAll hlower rfl
  rw [List.append_assoc]
  exact hreceiver.append hinside.inSquare

theorem paired_remainder {left right : Text} (hleft : Paired left) (hright : Paired right) :
    Paired (left ++ '%' :: right) := by
  have hsign : Paired ['%'] := paired_of_absent rfl
  exact hleft.append (hsign.append hright)

theorem paired_call {function inside : Text} (halpha : isAll Char.isAlpha function = true)
    (hinside : Paired inside) : Paired (function ++ '(' :: inside ++ [')']) := by
  have hfunction : Paired function := paired_of_isAll halpha rfl
  rw [List.append_assoc]
  exact hfunction.append hinside.inRound

end Text

namespace Expr

theorem paired_of_member {t : Text} {shape : Shape} (h : Shape.member? t = some shape)
    (ih : ∀ u ∈ shape.inner, u.Paired) : t.Paired := by
  obtain ⟨receiver, member, rfl, hlower, -, hmember⟩ := Shape.member?_eq_some_iff.mp h
  apply Text.paired_member hlower
  rcases Shape.constant_or_slice_of_ofMember? hmember with hconstant | ⟨start, rfl, rfl⟩
  · exact Text.paired_constantMember hconstant
  · exact Text.paired_slice (ih start (by simp [Shape.inner]))

/-- A text with a shape has paired brackets as soon as the texts inside it have. -/
theorem paired_of_shape {t : Text} {shape : Shape} (h : Shape.ofText t = .ok shape)
    (ih : ∀ u ∈ shape.inner, u.Paired) : t.Paired := by
  rcases Shape.ofText_eq_ok_cases h with
    ⟨hdigits, -⟩ | ⟨halpha, -⟩ | hmember | hindex | hremainder | ⟨function, inside, -, hcall, -⟩
  · exact Text.paired_of_isAll hdigits rfl
  · exact Text.paired_of_isAll halpha rfl
  · exact paired_of_member hmember ih
  · obtain ⟨receiver, inside, rfl, hlower, -, -, rfl⟩ := Shape.index?_eq_some_iff.mp hindex
    exact Text.paired_index hlower (ih inside (by simp [Shape.inner]))
  · obtain ⟨c, left, right, rfl, -, -, -, rfl⟩ := Shape.remainder?_eq_some_iff.mp hremainder
    exact Text.paired_remainder (ih _ (by simp [Shape.inner])) (ih right (by simp [Shape.inner]))
  · obtain ⟨rfl, halpha, hinside⟩ := Shape.callParts?_eq_some_iff.mp hcall
    exact Text.paired_call halpha (Text.paired_of_isAll hinside rfl)

/-- The parts of a legible tree are legible. -/
theorem legible_inner {t : Text} {shape : Shape} (h : Shape.ofText t = .ok shape)
    (hlegible : (ofText t).Legible) : ∀ u ∈ shape.inner, (ofText u).Legible := by
  rw [ofText_of_shape h] at hlegible
  intro u hu
  cases shape with
  | slice receiver start =>
    obtain rfl : u = start := by simpa [Shape.inner] using hu
    exact hlegible
  | index receiver inside =>
    obtain rfl : u = inside := by simpa [Shape.inner] using hu
    exact hlegible
  | remainder left right =>
    obtain rfl | rfl : u = left ∨ u = right := by simpa [Shape.inner] using hu
    · exact hlegible.1
    · exact hlegible.2
  | _ => simp [Shape.inner] at hu

/-- Reading never gets past a bracket that is out of place: the induction is on the length of the
text, and each shape adds its brackets in pairs. -/
theorem paired_of_legible (t : Text) (h : (ofText t).Legible) : t.Paired := by
  induction hn : t.length using Nat.strongRecOn generalizing t with
  | ind n ih =>
    cases hshape : Shape.ofText t with
    | error reason =>
      rw [ofText_of_error hshape] at h
      exact absurd h id
    | ok shape =>
      apply paired_of_shape hshape
      intro u hu
      have hshorter : u.length < n := hn ▸ Shape.ofText_inner hshape u hu
      exact ih u.length hshorter u (legible_inner hshape h u hu) rfl

end Expr

end Scriptlet
