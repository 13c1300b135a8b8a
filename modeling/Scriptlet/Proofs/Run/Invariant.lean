import Scriptlet.Proofs.Run.Outcome
import Scriptlet.Proofs.Run.Trace

/-!
Invariants of runs. What a run does to the heap comes down to two things: making an array and writing
an element; besides, it may compile a function. So an invariant that these three keep holds in every
state that a run goes through, whatever the script and however the run ends. Next to what holds of a
state, an invariant says which values may be held there, and how a state relates to later ones.
-/

namespace Scriptlet

/-- What holds at every point of a course of events, and how each point relates to later ones. -/
structure Course (σ : Type) where
  Holds : σ → Prop
  Later : σ → σ → Prop
  later_refl : ∀ s, Later s s
  later_trans : ∀ {s t u}, Later s t → Later t u → Later s u

namespace Course

variable {σ τ : Type}

def through (C : Course σ) (view : τ → σ) : Course τ where
  Holds s := C.Holds (view s)
  Later s t := C.Later (view s) (view t)
  later_refl s := C.later_refl (view s)
  later_trans := C.later_trans

inductive Path (C : Course σ) : σ → List σ → σ → Prop where
  | done {s t : σ} : C.Holds t → C.Later s t → Path C s [] t
  | visit {s t u : σ} {points : List σ} :
    C.Holds u → C.Later s u → Path C u points t → Path C s (u :: points) t

namespace Path

variable {C : Course σ} {s t u : σ} {points more : List σ}

theorem stay (h : C.Holds s) : C.Path s [] s :=
  .done h (C.later_refl s)

theorem holds (h : C.Path s points t) : C.Holds t := by
  induction h with
  | done hholds => exact hholds
  | visit _ _ _ ih => exact ih

theorem later (h : C.Path s points t) : C.Later s t := by
  induction h with
  | done _ hlater => exact hlater
  | visit _ hlater _ ih => exact C.later_trans hlater ih

theorem shift (hlater : C.Later s t) (h : C.Path t points u) : C.Path s points u := by
  cases h with
  | done hholds hrest => exact .done hholds (C.later_trans hlater hrest)
  | visit hholds hrest hpath => exact .visit hholds (C.later_trans hlater hrest) hpath

theorem append (h : C.Path s points t) (hmore : C.Path t more u) :
    C.Path s (points ++ more) u := by
  induction h with
  | done _ hlater => exact hmore.shift hlater
  | visit hholds hlater _ ih => exact .visit hholds hlater (ih hmore)

/-- The end of a way may be noted as its last point. -/
theorem noted (h : C.Path s points t) : C.Path s (points ++ [t]) t :=
  h.append (.visit h.holds (C.later_refl t) (.stay h.holds))

theorem view {view : τ → σ} {s t : τ} {points : List τ} (h : (C.through view).Path s points t) :
    C.Path (view s) (points.map view) (view t) := by
  induction h with
  | done hholds hlater => exact .done hholds hlater
  | visit hholds hlater _ ih => exact .visit hholds hlater ih

theorem holds_of_mem (h : C.Path s points t) : ∀ u ∈ points, C.Holds u := by
  induction h with
  | done => simp
  | visit hholds _ _ ih =>
    intro v hv
    rcases List.mem_cons.mp hv with rfl | hv
    · exact hholds
    · exact ih v hv

theorem later_of_mem (h : C.Path s points t) : ∀ u ∈ points, C.Later s u := by
  induction h with
  | done => simp
  | visit _ hlater _ ih =>
    intro v hv
    rcases List.mem_cons.mp hv with rfl | hv
    · exact hlater
    · exact C.later_trans hlater (ih v hv)

/-- Any two points of a way are related, not only those next to each other. -/
theorem pairwise (h : C.Path s points t) : points.Pairwise C.Later := by
  induction h with
  | done => exact List.Pairwise.nil
  | visit _ _ hpath ih => exact List.Pairwise.cons hpath.later_of_mem ih

end Path

end Course

namespace Run

structure Invariant extends Course State where
  /-- The values that a variable may have in a state. -/
  Held : State → Value → Prop
  held_later : ∀ {s t v}, Later s t → Held s v → Held t v
  held_scalar : ∀ {s v}, v.array? = none → Held s v
  held_element : ∀ {s a v}, Holds s → Held s (.array a) → v ∈ s.heap.elements a → Held s v
  make : ∀ {s items}, Holds s → (∀ v ∈ items, Held s v) →
    let made := s.heap.alloc items
    let t := { s with heap := made.2 }
    Holds t ∧ Later s t ∧ Held t (.array made.1)
  write : ∀ {s a index v}, Holds s → Held s (.array a) → Held s v →
    s.heap.checkWrite a index v = .ok () →
    let t := { s with heap := s.heap.put a index.toNat v }
    Holds t ∧ Later s t
  compile : ∀ {s} (name : Text), Holds s →
    let t := { s with context := (s.context.resolve name).2 }
    Holds t ∧ Later s t

namespace Invariant

/-- A run from a state keeps the invariant on its way through the given states, and its value, if
it has one, is as said. -/
structure Keeps {α : Type} (I : Invariant) (s : State) (x : Run α) (states : List State)
    (Result : State → α → Prop) : Prop where
  path : I.toCourse.Path s states (x.finish s)
  result : ∀ {a t}, x s = .ok a t → Result t a

namespace Keeps

variable {I : Invariant} {α β : Type} {s t : State} {x : Run α} {states : List State}
variable {Result : State → α → Prop} {Next : State → β → Prop}

/-- A run step by step: the second keeps the invariant wherever the first may lead. -/
theorem bind {f : α → Run β} {next : α → Trace} (hx : I.Keeps s x states Result)
    (hf : ∀ {a t}, I.Holds t → I.Later s t → Result t a → I.Keeps t (f a) (next a t) Next) :
    I.Keeps s (x >>= f) (states ++ x.onward next s) Next := by
  have hpath := hx.path
  cases hrun : x s with
  | error halt t =>
    have hbind : (x >>= f) s = .error halt t := bind_of_error hrun
    simp only [finish, hrun] at hpath
    constructor
    · simpa [finish, onward, hbind, hrun] using hpath
    · intro b u hb
      rw [hbind] at hb
      cases hb
  | ok a t =>
    have hbind : (x >>= f) s = f a t := bind_of_ok hrun
    simp only [finish, hrun] at hpath
    have hnext := hf hpath.holds hpath.later (hx.result hrun)
    constructor
    · have hwhole := hpath.append hnext.path
      simpa only [finish, onward, hbind, hrun] using hwhole
    · intro b u hb
      rw [hbind] at hb
      exact hnext.result hb

/-- What comes before a run may go through no state worth noting. -/
theorem before {f : α → Run β} {next : α → Trace} (hx : I.Keeps s x [] Result)
    (hf : ∀ {a t}, I.Holds t → I.Later s t → Result t a → I.Keeps t (f a) (next a t) Next) :
    I.Keeps s (x >>= f) (x.onward next s) Next :=
  hx.bind hf

/-- What comes after a run may go through no state worth noting. -/
theorem andThen {f : α → Run β} (hx : I.Keeps s x states Result)
    (hf : ∀ {a t}, I.Holds t → I.Later s t → Result t a → I.Keeps t (f a) [] Next) :
    I.Keeps s (x >>= f) states Next := by
  have h : I.Keeps s (x >>= f) (states ++ x.onward (fun _ _ => []) s) Next := hx.bind hf
  simpa using h

/-- The last state of a run may be noted with the others. -/
theorem noted (h : I.Keeps s x states Result) :
    I.Keeps s x (states ++ [x.finish s]) Result :=
  ⟨h.path.noted, h.result⟩

theorem pure {a : α} (h : I.Holds s) (ha : Result s a) : I.Keeps s (pure a) [] Result := by
  refine ⟨.stay h, ?_⟩
  intro b t hb
  obtain ⟨rfl, rfl⟩ := pure_eq_ok.mp hb
  exact ha

theorem throw {halt : Halt} (h : I.Holds s) : I.Keeps s (throw halt : Run α) [] Result := by
  refine ⟨.stay h, ?_⟩
  intro a t ha
  cases ha

theorem fail {reason : Error} (h : I.Holds s) : I.Keeps s (fail reason : Run α) [] Result :=
  throw h

theorem ofExcept {r : Except Error α} (h : I.Holds s) (hr : ∀ a, r = .ok a → Result s a) :
    I.Keeps s (ofExcept r) [] Result := by
  cases r with
  | ok a => exact pure h (hr a rfl)
  | error reason => exact fail h

theorem ofValue {r : Except ValueError α} (h : I.Holds s) (hr : ∀ a, r = .ok a → Result s a) :
    I.Keeps s (ofValue r) [] Result := by
  cases r with
  | ok a => exact pure h (hr a rfl)
  | error reason => exact fail h

theorem ofValue_any {r : Except ValueError α} (h : I.Holds s) :
    I.Keeps s (Run.ofValue r) [] (fun _ _ => True) :=
  ofValue h fun _ _ => trivial

/-- Only what a run does from this state on matters. -/
theorem of_eq {y : Run α} (h : I.Keeps s y states Result) (hrun : x s = y s) :
    I.Keeps s x states Result := by
  have hpath := h.path
  constructor
  · simpa only [finish, hrun] using hpath
  · intro a t ha
    exact h.result (hrun.symm.trans ha)

theorem reading {f : Heap → Except ValueError α} (h : I.Holds s)
    (hr : ∀ a, f s.heap = .ok a → Result s a) : I.Keeps s (reading f) [] Result :=
  (ofValue h hr).of_eq rfl

theorem reading_any {f : Heap → Except ValueError α} (h : I.Holds s) :
    I.Keeps s (Run.reading f) [] (fun _ _ => True) :=
  reading h fun _ _ => trivial

theorem changing {f : Heap → α × Heap} (h : I.Holds { s with heap := (f s.heap).2 })
    (hlater : I.Later s { s with heap := (f s.heap).2 })
    (hr : Result { s with heap := (f s.heap).2 } (f s.heap).1) :
    I.Keeps s (changing f) [] Result := by
  refine ⟨.done h hlater, ?_⟩
  intro a t ha
  cases ha
  exact hr

theorem changing_any {f : Heap → α × Heap} (h : I.Holds { s with heap := (f s.heap).2 })
    (hlater : I.Later s { s with heap := (f s.heap).2 }) :
    I.Keeps s (Run.changing f) [] (fun _ _ => True) :=
  changing h hlater trivial

theorem limits (h : I.Holds s) : I.Keeps s limits [] (fun _ _ => True) := by
  refine ⟨.stay h, ?_⟩
  intro a t _
  trivial

theorem resolve {name : Text} (h : I.Holds s) :
    I.Keeps s (resolve name) [] (fun _ _ => True) := by
  obtain ⟨hholds, hlater⟩ := I.compile name h
  have hrest : I.Keeps { s with context := (s.context.resolve name).2 }
      (Run.ofExcept (s.context.resolve name).1) [] (fun _ _ => True) :=
    ofExcept hholds fun _ _ => trivial
  refine ⟨hrest.path.shift hlater, ?_⟩
  intro a t _
  trivial

end Keeps

end Invariant

end Run

end Scriptlet
