import Mathlib.Data.List.Nodup
import Scriptlet.Context
import Scriptlet.Proofs.Function.Extraction

namespace Scriptlet.Context

variable {c d : Context} {name : Text} {f : Function} {g : CompiledFunction}

/-! ### One lookup -/

/-- What becomes of looking up a name, and the context after it. -/
inductive Resolution (c : Context) (name : Text) : Except Error CompiledFunction → Context → Prop where
  | known {g : CompiledFunction} : c.cached? name = some g → Resolution c name (.ok g) c
  | released : c.cached? name = none → c.script = none →
    Resolution c name (.error (.contextReleased name)) c
  | refused {script : Text} {reason : DeclarationError} : c.cached? name = none →
    c.script = some script → Function.extract script name = .error reason →
    Resolution c name (.error (.declaration reason)) { c with extractions := c.extractions + 1 }
  | compiled {script : Text} {f : Function} : c.cached? name = none → c.script = some script →
    Function.extract script name = .ok f →
    Resolution c name (.ok ⟨⟨c.id, c.extractions + 1⟩, f⟩)
      { c with
        extractions := c.extractions + 1
        compiled := (name, ⟨⟨c.id, c.extractions + 1⟩, f⟩) :: c.compiled }

theorem resolution_compile (c : Context) (name : Text) :
    c.Resolution name (c.compile name).1 (c.compile name).2 := by
  unfold compile
  split
  · rename_i g hknown
    exact .known hknown
  · rename_i hunknown
    split
    · rename_i hscript
      exact .released hunknown hscript
    · rename_i script hscript
      dsimp only
      split
      · rename_i reason hextract
        exact .refused hunknown hscript hextract
      · rename_i f hextract
        exact .compiled hunknown hscript hextract

theorem resolution (c : Context) (name : Text) :
    ∃ r d, c.compile name = (r, d) ∧ c.resolve name = (r.map (·.function), d) ∧
      c.Resolution name r d :=
  ⟨_, _, rfl, rfl, c.resolution_compile name⟩

theorem compiled?_of_cached? (h : c.cached? name = some g) : c.compiled? name = some g.function := by
  rw [compiled?, h, Option.map_some]

theorem compiled?_eq_none : c.compiled? name = none ↔ c.cached? name = none :=
  Option.map_eq_none_iff

/-- What one context has compiled, the other has too. -/
def Grows (c d : Context) : Prop :=
  ∀ name f, c.compiled? name = some f → d.compiled? name = some f

theorem Grows.refl (c : Context) : c.Grows c :=
  fun _ _ h => h

theorem Grows.trans {e : Context} (hcd : c.Grows d) (hde : d.Grows e) : c.Grows e :=
  fun name f h => hde name f (hcd name f h)

/-- A name that is compiled only now leaves the others as they are. -/
theorem grows_resolve (c : Context) (name : Text) : c.Grows (c.resolve name).2 := by
  obtain ⟨r, d, -, hrun, h⟩ := c.resolution name
  rw [hrun]
  cases h with
  | known | released | refused => exact Grows.refl c
  | compiled hunknown _ _ =>
    -- The new entry comes first, but no entry under its name was there to be hidden by it.
    intro other g hg
    have hne : other ≠ name := by
      rintro rfl
      rw [compiled?_eq_none.mpr hunknown] at hg
      cases hg
    simpa [compiled?, cached?, List.lookup_cons, beq_eq_false_iff_ne.mpr hne] using hg

/-- A name that was looked up with success is compiled from then on. -/
theorem cached?_of_compile (h : (c.compile name).1 = .ok g) :
    (c.compile name).2.cached? name = some g := by
  obtain ⟨r, d, hrun, -, hr⟩ := c.resolution name
  rw [hrun] at h ⊢
  cases hr with
  | known hknown =>
    cases h
    exact hknown
  | released | refused => cases h
  | compiled _ _ _ =>
    cases h
    simp [cached?]

theorem resolve_eq_ok :
    (c.resolve name).1 = .ok f ↔ ∃ g, (c.compile name).1 = .ok g ∧ g.function = f := by
  show (c.compile name).1.map (·.function) = .ok f ↔ _
  cases (c.compile name).1 <;> simp [Except.map]

theorem resolve_eq_error {reason : Error} :
    (c.resolve name).1 = .error reason ↔ (c.compile name).1 = .error reason := by
  show (c.compile name).1.map (·.function) = .error reason ↔ _
  cases (c.compile name).1 <;> simp [Except.map]

theorem resolve_of_compiled? (h : c.compiled? name = some f) : c.resolve name = (.ok f, c) := by
  obtain ⟨g, hg, rfl⟩ := Option.map_eq_some_iff.mp h
  simp [resolve, compile, hg, Except.map]

/-- Without its text a context can tell of an unknown name only that it is too late. -/
theorem compile_of_released (hscript : c.script = none) (hunknown : c.compiled? name = none) :
    c.compile name = (.error (.contextReleased name), c) := by
  simp [compile, compiled?_eq_none.mp hunknown, hscript]

theorem resolve_of_released (hscript : c.script = none) (hunknown : c.compiled? name = none) :
    c.resolve name = (.error (.contextReleased name), c) := by
  simp [resolve, compile_of_released hscript hunknown, Except.map]

theorem compiled?_of_resolve (h : (c.resolve name).1 = .ok f) :
    (c.resolve name).2.compiled? name = some f := by
  obtain ⟨g, hg, rfl⟩ := resolve_eq_ok.mp h
  exact compiled?_of_cached? (cached?_of_compile hg)

/-! ### What a context knows of its script -/

/-- A context made from a script text knows nothing else than what the text says. -/
structure Faithful (script : Text) (limits : Limits) (c : Context) : Prop where
  text : c.script = some script ∨ c.script = none
  compiled : ∀ entry ∈ c.compiled, Function.extract script entry.1 = .ok entry.2.function
  /-- No name is compiled twice. -/
  nodup : (c.compiled.map Prod.fst).Nodup
  limits : c.limits = limits

theorem mem_compiled_of_cached? (h : c.cached? name = some g) : (name, g) ∈ c.compiled := by
  obtain ⟨before, after, hentries, -⟩ := List.lookup_eq_some_iff.mp h
  rw [hentries]
  simp

theorem cached?_eq_none_iff : c.cached? name = none ↔ name ∉ c.compiled.map Prod.fst := by
  simp only [cached?, List.lookup_eq_none_iff, List.mem_map, bne_iff_ne]
  constructor
  · rintro h ⟨entry, hentry, rfl⟩
    exact h entry hentry rfl
  · intro h entry hentry hname
    exact h ⟨entry, hentry, hname.symm⟩

namespace Faithful

variable {script : Text} {limits : Limits}

theorem ofScript (script : Text) (limits : Limits) :
    (ofScript script limits).Faithful script limits where
  text := .inl rfl
  compiled := by simp [Context.ofScript]
  nodup := List.nodup_nil
  limits := rfl

/-- The place of a context says nothing about its functions. -/
theorem place (hc : c.Faithful script limits) (id : ContextId) :
    { c with id }.Faithful script limits :=
  { hc with }

theorem extract_of_cached? (hc : c.Faithful script limits) (h : c.cached? name = some g) :
    Function.extract script name = .ok g.function :=
  hc.compiled _ (mem_compiled_of_cached? h)

theorem extract_eq (hc : c.Faithful script limits) (h : c.compiled? name = some f) :
    Function.extract script name = .ok f := by
  obtain ⟨g, hg, rfl⟩ := Option.map_eq_some_iff.mp h
  exact hc.extract_of_cached? hg

theorem script_eq {text : Text} (hc : c.Faithful script limits) (h : c.script = some text) :
    text = script := by
  rcases hc.text with hsome | hnone
  · exact Option.some_injective _ (h.symm.trans hsome)
  · rw [hnone] at h
    cases h

theorem release (hc : c.Faithful script limits) : c.release.Faithful script limits :=
  { hc with text := .inr rfl }

theorem resolve (hc : c.Faithful script limits) (name : Text) :
    (c.resolve name).2.Faithful script limits := by
  obtain ⟨r, d, -, hrun, h⟩ := c.resolution name
  rw [hrun]
  cases h with
  | known | released => exact hc
  | refused => exact { hc with }
  | @compiled text f hunknown hscript hextract =>
    obtain rfl := hc.script_eq hscript
    refine { hc with compiled := ?_, nodup := ?_ }
    · intro entry hentry
      rcases List.mem_cons.mp hentry with rfl | hold
      · exact hextract
      · exact hc.compiled entry hold
    · exact List.nodup_cons.mpr ⟨cached?_eq_none_iff.mp hunknown, hc.nodup⟩

/-- With the text at hand, what is already compiled makes no difference to a lookup. -/
theorem resolve_eq_extract (hc : c.Faithful script limits) (htext : c.script = some script)
    (name : Text) :
    (c.resolve name).1 = (Function.extract script name).mapError .declaration := by
  obtain ⟨r, d, -, hrun, h⟩ := c.resolution name
  rw [hrun]
  cases h with
  | known hknown => rw [hc.extract_of_cached? hknown]; rfl
  | released _ hscript => rw [htext] at hscript; cases hscript
  | refused _ hscript hextract | compiled _ hscript hextract =>
    obtain rfl := hc.script_eq hscript
    rw [hextract]
    rfl

/-- A lookup that succeeds gives the function that the text declares. -/
theorem extract_of_resolve (hc : c.Faithful script limits) (h : (c.resolve name).1 = .ok f) :
    Function.extract script name = .ok f :=
  (hc.resolve name).extract_eq (compiled?_of_resolve h)

end Faithful

/-! ### Histories -/

inductive Event where
  | lookup (name : Text)
  | release
  deriving DecidableEq, Repr

def apply (c : Context) : Event → Context
  | .lookup name => (c.resolve name).2
  | .release => c.release

def after (c : Context) (events : List Event) : Context :=
  events.foldl apply c

theorem after_append (c : Context) (events more : List Event) :
    c.after (events ++ more) = (c.after events).after more :=
  List.foldl_append

theorem grows_apply (c : Context) (event : Event) : c.Grows (c.apply event) := by
  cases event with
  | lookup name => exact c.grows_resolve name
  | release => exact Grows.refl c

theorem grows_after (c : Context) (events : List Event) : c.Grows (c.after events) :=
  List.foldlRecOn events apply (Grows.refl c) fun d h event _ => h.trans (d.grows_apply event)

theorem Faithful.after {script : Text} {limits : Limits} (hc : c.Faithful script limits)
    (events : List Event) : (c.after events).Faithful script limits := by
  refine List.foldlRecOn events apply hc fun d hd event _ => ?_
  cases event with
  | lookup name => exact hd.resolve name
  | release => exact hd.release

/-- Entries are only ever added. -/
theorem suffix_apply (c : Context) (event : Event) : c.compiled <:+ (c.apply event).compiled := by
  cases event with
  | release => exact List.suffix_rfl
  | lookup name =>
    obtain ⟨r, d, -, hrun, h⟩ := c.resolution name
    simp only [apply, hrun]
    cases h with
    | known | released | refused => exact List.suffix_rfl
    | compiled => exact List.suffix_cons _ _

theorem suffix_after (c : Context) (events : List Event) :
    c.compiled <:+ (c.after events).compiled :=
  List.foldlRecOn (motive := fun d => c.compiled <:+ d.compiled) events apply List.suffix_rfl
    fun d h event _ => h.trans (d.suffix_apply event)

/-- A released context stays as it is. -/
theorem after_of_released (h : c.script = none) (events : List Event) : c.after events = c := by
  induction events with
  | nil => rfl
  | cons event events ih =>
    have hsame : c.apply event = c := by
      cases event with
      | release =>
        obtain ⟨id, script, compiled, extractions, limits⟩ := c
        cases h
        rfl
      | lookup name =>
        obtain ⟨r, d, -, hrun, hr⟩ := c.resolution name
        simp only [apply, hrun]
        cases hr with
        | known | released => rfl
        | refused _ hscript | compiled _ hscript =>
          rw [h] at hscript
          cases hscript
    show (c.apply event).after events = c
    rw [hsame, ih]

/-! ### The count of searches -/

/-- Whether an event is a lookup for which the text was searched in vain. -/
def refuses (c : Context) : Event → Bool
  | .lookup name => match (c.resolve name).1 with
    | .error (.declaration _) => true
    | _ => false
  | .release => false

def refusals (c : Context) : List Event → Nat
  | [] => 0
  | event :: events => (c.refuses event).toNat + (c.apply event).refusals events

theorem extractions_apply (c : Context) (event : Event) :
    (c.apply event).extractions + c.compiled.length =
      c.extractions + (c.apply event).compiled.length + (c.refuses event).toNat := by
  cases event with
  | release => simp [apply, release, refuses]
  | lookup name =>
    obtain ⟨r, d, -, hrun, h⟩ := c.resolution name
    simp only [apply, refuses, hrun]
    cases h <;> simp [Except.map] <;> omega

theorem extractions_after (c : Context) (events : List Event) :
    (c.after events).extractions + c.compiled.length =
      c.extractions + (c.after events).compiled.length + c.refusals events := by
  induction events generalizing c with
  | nil => simp [after, refusals]
  | cons event events ih =>
    have hfirst := c.extractions_apply event
    have hrest := ih (c.apply event)
    simp only [after, refusals, List.foldl_cons] at hrest ⊢
    omega

/-! ### The identity of a compiled function -/

theorem id_apply (c : Context) (event : Event) : (c.apply event).id = c.id := by
  cases event with
  | release => rfl
  | lookup name =>
    obtain ⟨r, d, -, hrun, h⟩ := c.resolution name
    simp only [apply, hrun]
    cases h <;> rfl

/-- Every compiled function is told from all others by where and when it was compiled. -/
structure Minted (c : Context) : Prop where
  home : ∀ entry ∈ c.compiled, entry.2.id.context = c.id
  earlier : ∀ entry ∈ c.compiled, entry.2.id.search ≤ c.extractions
  unique : (c.compiled.map (·.2.id)).Nodup

namespace Minted

theorem of_compiled_eq_nil (h : c.compiled = []) : c.Minted := by
  constructor <;> simp [h]

/-- A new function has the number of a search that comes after all those of the functions there. -/
theorem apply (hc : c.Minted) (event : Event) : (c.apply event).Minted := by
  cases event with
  | release => exact ⟨hc.home, hc.earlier, hc.unique⟩
  | lookup name =>
    obtain ⟨r, d, -, hrun, h⟩ := c.resolution name
    simp only [Context.apply, hrun]
    have hlater : ∀ entry ∈ c.compiled, entry.2.id.search ≤ c.extractions + 1 :=
      fun entry hentry => Nat.le_succ_of_le (hc.earlier entry hentry)
    cases h with
    | known | released => exact hc
    | refused => exact ⟨hc.home, hlater, hc.unique⟩
    | compiled =>
      refine ⟨List.forall_mem_cons.mpr ⟨rfl, hc.home⟩,
        List.forall_mem_cons.mpr ⟨Nat.le_refl _, hlater⟩, List.nodup_cons.mpr ⟨?_, hc.unique⟩⟩
      intro hmem
      obtain ⟨entry, hentry, hsame⟩ := List.mem_map.mp hmem
      have hle := hc.earlier entry hentry
      rw [hsame] at hle
      exact Nat.not_succ_le_self _ hle

theorem after (hc : c.Minted) (events : List Event) : (c.after events).Minted :=
  List.foldlRecOn events Context.apply hc fun _ hd event _ => hd.apply event

/-- In one context the identity of a function settles it, and its name. -/
theorem eq_of_id {other : Text} {g' : CompiledFunction} (hc : c.Minted)
    (hg : (name, g) ∈ c.compiled) (hg' : (other, g') ∈ c.compiled) (hid : g.id = g'.id) :
    name = other ∧ g = g' := by
  have hsame := List.inj_on_of_nodup_map hc.unique hg hg' hid
  exact ⟨congrArg Prod.fst hsame, congrArg Prod.snd hsame⟩

end Minted

theorem id_after (c : Context) (events : List Event) : (c.after events).id = c.id :=
  List.foldlRecOn (motive := fun d => d.id = c.id) events apply rfl
    fun d h event _ => (d.id_apply event).trans h

/-! ### Release -/

/-- A context is released by a release, and by nothing else. -/
theorem isReleased_apply (c : Context) (event : Event) :
    (c.apply event).isReleased = (c.isReleased || event == .release) := by
  cases event with
  | release => simp [apply, release, isReleased]
  | lookup name =>
    obtain ⟨r, d, -, hrun, h⟩ := c.resolution name
    simp only [apply, hrun]
    cases h <;> simp [isReleased]

theorem isReleased_after (c : Context) (events : List Event) :
    (c.after events).isReleased = true ↔ c.isReleased = true ∨ .release ∈ events := by
  induction events generalizing c with
  | nil => simp [after]
  | cons event events ih =>
    have hrest := ih (c.apply event)
    rw [isReleased_apply, Bool.or_eq_true, beq_iff_eq] at hrest
    rw [List.mem_cons, ← or_assoc, eq_comm (b := event)]
    exact hrest

end Scriptlet.Context
