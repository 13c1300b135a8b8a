import Scriptlet.Heap.Basic

/-!
The contents of a value: what it looks like when every array in it is written out. Two values are
equal when their contents are (`equal?_of_contents?`), so arrays are compared element by element; but
the comparison itself writes nothing out, and ends at the first difference. Functions are compared
with their identities; two that contexts give out are equal just if they are the same one
(`World.Minted.same_iff`). Contents and comparison go one level deeper than the arrays of a heap can be
nested without a cycle; `none` says that the nesting is deeper still, which is to say cyclic.
-/

namespace Scriptlet

inductive Contents where
  | integer (n : Int)
  | text (t : Text)
  | array (items : List Contents)
  | function (f : BoundFunction)
  deriving Repr

namespace Contents

mutual

def decEq (c d : Contents) : Decidable (c = d) :=
  match c, d with
  | .integer m, .integer n => decidable_of_iff (m = n) (by simp)
  | .text s, .text t => decidable_of_iff (s = t) (by simp)
  | .function f, .function g => decidable_of_iff (f = g) (by simp)
  | .array cs, .array ds =>
    match decEqItems cs ds with
    | .isTrue h => .isTrue (by rw [h])
    | .isFalse h => .isFalse (by simpa using h)
  | .integer _, .text _ | .integer _, .array _ | .integer _, .function _
  | .text _, .integer _ | .text _, .array _ | .text _, .function _
  | .array _, .integer _ | .array _, .text _ | .array _, .function _
  | .function _, .integer _ | .function _, .text _ | .function _, .array _ => .isFalse (by simp)

def decEqItems (cs ds : List Contents) : Decidable (cs = ds) :=
  match cs, ds with
  | [], [] => .isTrue rfl
  | [], _ :: _ | _ :: _, [] => .isFalse (by simp)
  | c :: cs, d :: ds =>
    match decEq c d, decEqItems cs ds with
    | .isTrue h, .isTrue hs => .isTrue (by rw [h, hs])
    | .isFalse h, _ => .isFalse (by simp [h])
    | _, .isFalse hs => .isFalse (by simp [hs])

end

instance : DecidableEq Contents :=
  decEq

mutual

def render : Contents → Text
  | .integer n => Decimal.ofInt n
  | .text t => t
  | .array items => '[' :: [','].intercalate (renderEach items) ++ [']']
  | .function f => f.function.signature

def renderEach : List Contents → List Text
  | [] => []
  | c :: cs => render c :: renderEach cs

end

end Contents

namespace Heap

/-- The contents of a value whose arrays are nested at most `depth` deep. -/
def contentsWithin (h : Heap) : (depth : Nat) → Value → Option Contents
  | _, .integer n => some (.integer n)
  | _, .text t => some (.text t)
  | _, .function f => some (.function f)
  | 0, .array _ => none
  | depth + 1, .array a => ((h.elements a).mapM (contentsWithin h depth)).map .array

def contents? (h : Heap) (v : Value) : Option Contents :=
  h.contentsWithin (h.size + 1) v

def render? (h : Heap) (v : Value) : Option Text :=
  (h.contents? v).map Contents.render

/-- Whether a relation holds of two lists place by place. The first place where it fails, or where
it is not known, settles the answer. -/
def allSame? {α : Type} (same? : α → α → Option Bool) : List α → List α → Option Bool
  | [], [] => some true
  | x :: xs, y :: ys =>
    match same? x y with
    | some true => allSame? same? xs ys
    | answer => answer
  | _, _ => some false

/-- Whether two values whose arrays are nested at most `depth` deep have the same contents. Arrays
of different lengths differ whatever they hold; otherwise nothing is looked at beyond the first
difference. -/
def equalWithin? (h : Heap) : (depth : Nat) → Value → Value → Option Bool
  | _, .integer m, .integer n => some (m = n)
  | _, .text s, .text t => some (s = t)
  | _, .function f, .function g => some (f = g)
  | 0, .array _, .array _ => none
  | depth + 1, .array a, .array b =>
    if (h.elements a).length = (h.elements b).length then
      allSame? (equalWithin? h depth) (h.elements a) (h.elements b)
    else some false
  | _, _, _ => some false

def equal? (h : Heap) (v w : Value) : Option Bool :=
  h.equalWithin? (h.size + 1) v w

theorem length_of_mapM {f : Value → Option Contents} {vs : List Value} {cs : List Contents}
    (h : vs.mapM f = some cs) : cs.length = vs.length := by
  induction vs generalizing cs with
  | nil =>
    obtain rfl : [] = cs := by simpa using h
    rfl
  | cons v vs ih =>
    simp only [List.mapM_cons, Option.bind_eq_bind, Option.bind_eq_some_iff, Option.pure_def,
      Option.some.injEq] at h
    obtain ⟨c, -, cs, hcs, rfl⟩ := h
    simp [ih hcs]

theorem allSame?_of_mapM {f : Value → Option Contents} {same? : Value → Value → Option Bool}
    (same : ∀ {v w c d}, f v = some c → f w = some d → same? v w = some (decide (c = d)))
    {vs ws : List Value} {cs ds : List Contents} (hv : vs.mapM f = some cs)
    (hw : ws.mapM f = some ds) : allSame? same? vs ws = some (decide (cs = ds)) := by
  induction vs generalizing ws cs ds with
  | nil =>
    obtain rfl : [] = cs := by simpa using hv
    cases ws with
    | nil =>
      obtain rfl : [] = ds := by simpa using hw
      rfl
    | cons w ws =>
      simp only [List.mapM_cons, Option.bind_eq_bind, Option.bind_eq_some_iff, Option.pure_def,
        Option.some.injEq] at hw
      obtain ⟨d, -, ds, -, rfl⟩ := hw
      rfl
  | cons v vs ih =>
    simp only [List.mapM_cons, Option.bind_eq_bind, Option.bind_eq_some_iff, Option.pure_def,
      Option.some.injEq] at hv
    obtain ⟨c, hc, cs, hcs, rfl⟩ := hv
    cases ws with
    | nil =>
      obtain rfl : [] = ds := by simpa using hw
      rfl
    | cons w ws =>
      simp only [List.mapM_cons, Option.bind_eq_bind, Option.bind_eq_some_iff, Option.pure_def,
        Option.some.injEq] at hw
      obtain ⟨d, hd, ds, hds, rfl⟩ := hw
      simp only [allSame?, same hc hd]
      by_cases h : c = d
      · simp [h, ih hcs hds]
      · simp [h]

theorem equalWithin?_of_contents {h : Heap} {depth : Nat} {v w : Value} {c d : Contents}
    (hv : h.contentsWithin depth v = some c) (hw : h.contentsWithin depth w = some d) :
    h.equalWithin? depth v w = some (decide (c = d)) := by
  induction depth generalizing v w c d with
  | zero =>
    cases v <;> cases w <;>
      simp only [contentsWithin, Option.some.injEq, reduceCtorEq] at hv hw <;>
      simp only [equalWithin?, Option.some.injEq, decide_eq_decide, false_eq_decide_iff] <;>
      grind
  | succ depth ih =>
    cases v <;> cases w
    case array.array a b =>
      simp only [contentsWithin, Option.map_eq_some_iff] at hv hw
      obtain ⟨cs, hcs, rfl⟩ := hv
      obtain ⟨ds, hds, rfl⟩ := hw
      rw [equalWithin?]
      split
      · simp [allSame?_of_mapM ih hcs hds]
      · rename_i hlength
        have : cs ≠ ds := by
          rintro rfl
          exact hlength ((length_of_mapM hcs).symm.trans (length_of_mapM hds))
        simp [this]
    all_goals
      simp only [contentsWithin, Option.some.injEq, Option.map_eq_some_iff] at hv hw
      simp only [equalWithin?, Option.some.injEq, decide_eq_decide, false_eq_decide_iff]
      grind

/-- Values that can be written out are compared as what they look like. -/
theorem equal?_of_contents? {h : Heap} {v w : Value} {c d : Contents}
    (hv : h.contents? v = some c) (hw : h.contents? w = some d) :
    h.equal? v w = some (decide (c = d)) :=
  equalWithin?_of_contents hv hw

end Heap

end Scriptlet
