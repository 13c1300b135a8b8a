import Scriptlet.Proofs.Run.Outcome
import Scriptlet.Proofs.Run.Trace

/-!
Rules that runs keep to. Rules say which names may be bound, which values variables and arrays may
hold, which functions may be called and which errors a run may end with. Where a value is not bounded
by the script, as with the length of a text, they may rest on an assumption about the moments that a
run goes through; then they hold at every moment up to the first one at which the assumption fails.
Rules only have to be given for the few places where something new comes from: literals, remainders
and lengths, the parameters of functions, and names that are looked up.
-/

namespace Scriptlet

/-- That a condition on the points of a list holds up to the first one at which an assumption fails. -/
def Upheld {σ : Type} (Given Kept : σ → Prop) : List σ → Prop
  | [] => True
  | m :: rest => Given m → Kept m ∧ Upheld Given Kept rest

namespace Upheld

variable {σ : Type} {Given Kept : σ → Prop} {points more : List σ} {m : σ}

theorem append (h : Upheld Given Kept points)
    (hmore : (∀ x ∈ points, Given x) → Upheld Given Kept more) :
    Upheld Given Kept (points ++ more) := by
  induction points with
  | nil => exact hmore (by simp)
  | cons x points ih =>
    intro hx
    obtain ⟨hkept, hrest⟩ := h hx
    refine ⟨hkept, ih hrest fun hgiven => hmore ?_⟩
    exact List.forall_mem_cons.mpr ⟨hx, hgiven⟩

theorem snoc (h : Upheld Given Kept points) (hm : (∀ x ∈ points, Given x) → Given m → Kept m) :
    Upheld Given Kept (points ++ [m]) :=
  h.append fun hgiven hlast => ⟨hm hgiven hlast, trivial⟩

/-- A point keeps to the condition if the assumption holds there and at all points before it. -/
theorem kept {before after : List σ} (h : Upheld Given Kept (before ++ m :: after))
    (hbefore : ∀ x ∈ before, Given x) (hm : Given m) : Kept m := by
  induction before with
  | nil => exact (h hm).1
  | cons x before ih =>
    obtain ⟨hx, hrest⟩ := List.forall_mem_cons.mp hbefore
    exact ih (h hx).2 hrest

theorem of_mem (h : Upheld Given Kept points) (hgiven : ∀ x ∈ points, Given x) (hm : m ∈ points) :
    Kept m := by
  obtain ⟨before, after, rfl⟩ := List.append_of_mem hm
  exact h.kept (fun x hx => hgiven x (by simp [hx])) (hgiven m hm)

end Upheld

namespace Run

/-- What runs keep to, with what has to be known of the places where something new comes from. -/
structure Rules where
  /-- The names that may be bound. -/
  Binds : Text → Prop
  /-- The values that variables and arrays may hold. -/
  Holds : Value → Prop
  /-- What a context may be like. -/
  Knows : Context → Prop
  /-- The functions that may be called. -/
  Calls : Function → Prop
  /-- The errors that a run may end with. -/
  Fails : Error → Prop
  /-- What may be assumed of a moment. -/
  Assumes : Scope → Prop
  binds_lower : ∀ {x}, Text.isAll Char.isLower x = true → Binds x
  binds_param : ∀ {f : Function}, Calls f → ∀ x ∈ f.params, Binds x
  holds_text : ∀ t, Holds (.text t)
  holds_array : ∀ a, Holds (.array a)
  holds_literal : ∀ {n : Nat}, InRange n → Holds (.integer n)
  holds_remainder : ∀ {m n r}, Holds (.integer m) → Value.remainder m n = .ok r → Holds (.integer r)
  holds_length : ∀ {m : Scope} {x v n}, Assumes m → m.frame.fetch x = .ok v →
    m.state.heap.length v = .ok n → Holds (.integer n)
  knows_resolve : ∀ {c} name, Knows c → Knows (c.resolve name).2
  calls_resolve : ∀ {c name f}, Knows c → (c.resolve name).1 = .ok f → Calls f
  fails_resolve : ∀ {c name reason}, Knows c → (c.resolve name).1 = .error reason → Fails reason
  fails_emptyBody : ∀ {f : Function}, Calls f → f.statements = [] →
    Fails (.declaration (.emptyBody f.name))
  fails_other : ∀ {reason}, (∀ d, reason ≠ .declaration d) → Fails reason

namespace Rules

structure Sound (R : Rules) (s : State) : Prop where
  elements : ∀ a, ∀ v ∈ s.heap.elements a, R.Holds v
  context : R.Knows s.context

def Tidy (R : Rules) (frame : Frame) : Prop :=
  ∀ entry ∈ frame.bindings, R.Binds entry.1 ∧ R.Holds entry.2

structure Good (R : Rules) (m : Scope) : Prop where
  frame : R.Tidy m.frame
  state : R.Sound m.state

/-- A run that ends as it may: in a sound state, and with a value as said or an error as allowed. -/
def Ends {α : Type} (R : Rules) (Result : α → Prop) : EStateM.Result Halt State α → Prop
  | .ok a t => R.Sound t ∧ Result a
  | .error halt t => R.Sound t ∧ ∀ reason, halt = .error reason → R.Fails reason

structure Obeys {α : Type} (R : Rules) (s : State) (x : Run α) (moments : List Scope)
    (Result : α → Prop) : Prop where
  upheld : Upheld R.Assumes R.Good moments
  ends : (∀ m ∈ moments, R.Assumes m) → R.Ends Result (x s)

variable {R : Rules} {α β : Type} {s t : State} {x : Run α} {moments : List Scope}
variable {Result : α → Prop} {Next : β → Prop}

theorem Ends.mono {Result' : α → Prop} {r : EStateM.Result Halt State α} (h : R.Ends Result r)
    (himp : ∀ a, Result a → Result' a) : R.Ends Result' r := by
  cases r with
  | ok a t => exact ⟨h.1, himp a h.2⟩
  | error halt t => exact h

theorem Ends.sound_finish (h : R.Ends Result (x s)) : R.Sound (x.finish s) := by
  unfold finish
  cases hrun : x s with
  | ok a t =>
    rw [hrun] at h
    exact h.1
  | error halt t =>
    rw [hrun] at h
    exact h.1

namespace Obeys

/-- A run step by step: the second keeps to the rules wherever the first may lead. -/
theorem bind {f : α → Run β} {next : α → Moments} (hx : R.Obeys s x moments Result)
    (hf : ∀ {a t}, R.Sound t → Result a → R.Obeys t (f a) (next a t) Next) :
    R.Obeys s (x >>= f) (moments ++ x.followedBy next s) Next := by
  have hends := hx.ends
  cases hrun : x s with
  | error halt t =>
    have hbind : (x >>= f) s = .error halt t := bind_of_error hrun
    have hnone : x.followedBy next s = [] := by simp only [followedBy, hrun]
    rw [hrun] at hends
    rw [hnone, List.append_nil]
    refine ⟨hx.upheld, fun hgiven => ?_⟩
    rw [hbind]
    exact hends hgiven
  | ok a t =>
    have hbind : (x >>= f) s = f a t := bind_of_ok hrun
    have hmore : x.followedBy next s = next a t := by simp only [followedBy, hrun]
    rw [hrun] at hends
    rw [hmore]
    have hnext (hgiven : ∀ m ∈ moments, R.Assumes m) : R.Obeys t (f a) (next a t) Next :=
      hf (hends hgiven).1 (hends hgiven).2
    refine ⟨hx.upheld.append fun hgiven => (hnext hgiven).upheld, fun hgiven => ?_⟩
    rw [hbind]
    obtain ⟨hfirst, hrest⟩ := List.forall_mem_append.mp hgiven
    exact (hnext hfirst).ends hrest

/-- What comes before a run may go through no moment of its own. -/
theorem before {f : α → Run β} {next : α → Moments} (hx : R.Obeys s x [] Result)
    (hf : ∀ {a t}, R.Sound t → Result a → R.Obeys t (f a) (next a t) Next) :
    R.Obeys s (x >>= f) (x.followedBy next s) Next :=
  hx.bind hf

/-- What comes after a run may go through no moment of its own. -/
theorem andThen {f : α → Run β} (hx : R.Obeys s x moments Result)
    (hf : ∀ {a t}, R.Sound t → Result a → R.Obeys t (f a) [] Next) :
    R.Obeys s (x >>= f) moments Next := by
  have h : R.Obeys s (x >>= f) (moments ++ x.followedBy (fun _ _ => []) s) Next := hx.bind hf
  simpa using h

theorem pure {a : α} (h : R.Sound s) (ha : Result a) : R.Obeys s (pure a) [] Result :=
  ⟨trivial, fun _ => ⟨h, ha⟩⟩

theorem tooDeep (h : R.Sound s) : R.Obeys s (throw .tooDeep : Run α) [] Result :=
  ⟨trivial, fun _ => ⟨h, fun _ hreason => by cases hreason⟩⟩

theorem fail {reason : Error} (h : R.Sound s) (hreason : R.Fails reason) :
    R.Obeys s (Run.fail reason : Run α) [] Result := by
  refine ⟨trivial, fun _ => ⟨h, ?_⟩⟩
  rintro _ ⟨⟩
  exact hreason

theorem ofExcept {r : Except Error α} (h : R.Sound s) (hok : ∀ a, r = .ok a → Result a)
    (herror : ∀ reason, r = .error reason → R.Fails reason) :
    R.Obeys s (Run.ofExcept r) [] Result := by
  cases r with
  | ok a => exact pure h (hok a rfl)
  | error reason => exact fail h (herror reason rfl)

theorem ofValue {r : Except ValueError α} (h : R.Sound s) (hok : ∀ a, r = .ok a → Result a) :
    R.Obeys s (Run.ofValue r) [] Result := by
  cases r with
  | ok a => exact pure h (hok a rfl)
  | error reason => exact fail h (R.fails_other (by simp))

theorem reading {f : Heap → Except ValueError α} (h : R.Sound s)
    (hok : ∀ a, f s.heap = .ok a → Result a) : R.Obeys s (Run.reading f) [] Result :=
  ⟨trivial, (ofValue h hok).ends⟩

theorem changing {f : Heap → α × Heap} (h : R.Sound s)
    (helements : ∀ a, ∀ v ∈ (f s.heap).2.elements a, R.Holds v) (hr : Result (f s.heap).1) :
    R.Obeys s (Run.changing f) [] Result :=
  ⟨trivial, fun _ => ⟨⟨helements, h.context⟩, hr⟩⟩

theorem limits (h : R.Sound s) : R.Obeys s Run.limits [] (fun _ => True) :=
  ⟨trivial, fun _ => ⟨h, trivial⟩⟩

theorem resolve {name : Text} (h : R.Sound s) : R.Obeys s (Run.resolve name) [] R.Calls := by
  have hafter : R.Sound { s with context := (s.context.resolve name).2 } :=
    ⟨h.elements, R.knows_resolve name h.context⟩
  have hrest : R.Obeys { s with context := (s.context.resolve name).2 }
      (Run.ofExcept (s.context.resolve name).1) [] R.Calls :=
    ofExcept hafter (fun f hf => R.calls_resolve h.context hf)
      (fun reason hreason => R.fails_resolve h.context hreason)
  exact ⟨trivial, hrest.ends⟩

/-- The moment at which a run ends may be added to the others. -/
theorem noted {frame : Frame} (hframe : R.Tidy frame) (h : R.Obeys s x moments Result) :
    R.Obeys s x (moments ++ [⟨x.finish s, frame⟩]) Result := by
  refine ⟨h.upheld.snoc fun hgiven _ => ⟨hframe, (h.ends hgiven).sound_finish⟩, fun hgiven => ?_⟩
  exact h.ends (List.forall_mem_append.mp hgiven).1

/-- The moment at which a run begins may be added to the others. -/
theorem begun {frame : Frame} (hs : R.Sound s) (hframe : R.Tidy frame)
    (h : R.Obeys s x moments Result) : R.Obeys s x (⟨s, frame⟩ :: moments) Result := by
  refine ⟨fun _ => ⟨⟨hframe, hs⟩, h.upheld⟩, fun hgiven => ?_⟩
  exact h.ends (List.forall_mem_cons.mp hgiven).2

theorem mono {Result' : α → Prop} (h : R.Obeys s x moments Result)
    (himp : ∀ a, Result a → Result' a) : R.Obeys s x moments Result' :=
  ⟨h.upheld, fun hgiven => (h.ends hgiven).mono himp⟩

/-- What is assumed of a moment of the run may be used for its value. -/
theorem imp {Result' : α → Prop} {m : Scope} (h : R.Obeys s x moments Result) (hm : m ∈ moments)
    (himp : R.Assumes m → ∀ a, Result a → Result' a) : R.Obeys s x moments Result' :=
  ⟨h.upheld, fun hgiven => (h.ends hgiven).mono (himp (hgiven m hm))⟩

end Obeys

end Rules

end Run

end Scriptlet
