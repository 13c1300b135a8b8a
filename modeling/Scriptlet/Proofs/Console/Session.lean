import Scriptlet.Console.Prompt
import Scriptlet.Proofs.World.Stateless

/-!
A session at the prompt, in which nothing is cleared away between the lines: every line finds the
arrays and the contexts that the lines before it left behind, those that failed midway included. It
shows nowhere. The replies are those of a prompt that starts anew with every line.
-/

namespace Scriptlet

namespace Renaming.Relates

open Console

mutual

/-- A typed value that is built in two heaps is the same in both. -/
theorem build {ρ : Renaming} {h g : Heap} (hρ : ρ.Relates h g) (literal : Literal) :
    ∃ σ, ρ.Extends σ ∧ σ.Relates (literal.build h).2 (literal.build g).2 ∧
      σ.Same (literal.build h).1 (literal.build g).1 := by
  cases literal with
  | integer n => exact ⟨ρ, ρ.extends_refl, hρ, .scalar rfl⟩
  | text t => exact ⟨ρ, ρ.extends_refl, hρ, .scalar rfl⟩
  | array items =>
    obtain ⟨σ, hσ, hheaps, hvalues⟩ := buildEach hρ items
    obtain ⟨τ, hτ, hmade, hpair⟩ := hheaps.alloc hvalues
    exact ⟨τ, hσ.trans hτ, hmade, .array hpair⟩

theorem buildEach {ρ : Renaming} {h g : Heap} (hρ : ρ.Relates h g) (literals : List Literal) :
    ∃ σ, ρ.Extends σ ∧
      σ.Relates (Literal.buildEach h literals).2 (Literal.buildEach g literals).2 ∧
      σ.SameEach (Literal.buildEach h literals).1 (Literal.buildEach g literals).1 := by
  cases literals with
  | nil => exact ⟨ρ, ρ.extends_refl, hρ, .nil⟩
  | cons item items =>
    obtain ⟨σ, hσ, hheaps, hvalue⟩ := build hρ item
    obtain ⟨τ, hτ, hmade, hvalues⟩ := buildEach hheaps items
    exact ⟨τ, hσ.trans hτ, hmade, .cons (hvalue.extend hτ) hvalues⟩

end

end Renaming.Relates

namespace Console

/-! ### Evaluations one after the other -/

def shown (h : Heap) (v : Value) : Except Halt Contents :=
  match h.contents? v with
  | some contents => .ok contents
  | none => .error .tooDeep

/-- An evaluation at the console in a world that holds what others left behind. -/
def evaluateIn (w : World) (script name : Text) (args : List Literal) :
    Except Halt Contents × World :=
  World.goOn (fun r w =>
      let (values, heap) := Literal.buildEach w.heap args
      World.goOn (fun v w => (shown w.heap v, w)) (r.eval { w with heap } values))
    (Routine.ofScript w script name {})

/-- An evaluation at the console is one in the empty world. -/
theorem evaluate_eq (script name : Text) (args : List Literal) :
    evaluate script name args = (evaluateIn {} script name args).1 := by
  unfold evaluate evaluateIn
  generalize Routine.ofScript {} script name {} = made
  obtain ⟨routine, w⟩ := made
  cases routine with
  | error halt => rfl
  | ok r =>
    let values := Literal.buildEach w.heap args
    let done := r.eval { w with heap := values.2 } values.1
    show (done.1 >>= shown done.2.heap) = (World.goOn (fun v w => (shown w.heap v, w)) done).1
    obtain ⟨outcome, after⟩ := done
    cases outcome <;> rfl

theorem goOn_shown (done : Except Halt Value × World) :
    (World.goOn (fun v w => (shown w.heap v, w)) done).1 = done.1 >>= shown done.2.heap := by
  obtain ⟨outcome, w⟩ := done
  cases outcome <;> rfl

/-- What values look like does not tell the worlds apart that evaluations end in. -/
theorem shown_eq {ρ : Renaming} {p q : Except Halt Value × World} (h : World.EndAlike ρ p q) :
    p.1 >>= shown p.2.heap = q.1 >>= shown q.2.heap := by
  obtain ⟨σ, -, houtcome, -, hlooks⟩ := h
  obtain ⟨outcome, w⟩ := p
  obtain ⟨outcome', w'⟩ := q
  cases houtcome with
  | ok hvw =>
    show shown w.heap _ = shown w'.heap _
    unfold shown
    rw [(hlooks _ _ hvw).1]
  | error halt => rfl

/-- What others left behind makes no difference to an evaluation. -/
theorem evaluateIn_fst (w : World) (script name : Text) (args : List Literal) :
    (evaluateIn w script name args).1 = evaluate script name args := by
  rw [evaluate_eq]
  unfold evaluateIn
  cases h : Function.extract script name with
  | error reason =>
    obtain ⟨u, hmade, -⟩ := Routine.ofScript_of_error w {} h
    obtain ⟨u', hmade', -⟩ := Routine.ofScript_of_error {} {} h
    rw [hmade, hmade']
    rfl
  | ok f =>
    obtain ⟨r, u, hmade, -, hbuilt, hscript⟩ := Routine.ofScript_of_extract w {} h
    obtain ⟨r', u', hmade', -, hbuilt', htext⟩ := Routine.ofScript_of_extract {} {} h
    obtain ⟨ρ, -, hheaps, hvalues⟩ := (Renaming.none_relates u.heap u'.heap).buildEach args
    rw [hmade, hmade']
    show (World.goOn _ (r.eval { u with heap := _ } _)).1 =
      (World.goOn _ (r'.eval { u' with heap := _ } _)).1
    rw [goOn_shown, goOn_shown]
    have hbuilt := hbuilt.with_heap (Literal.buildEach u.heap args).2
    have hbuilt' := hbuilt'.with_heap (Literal.buildEach u'.heap args).2
    exact shown_eq (hbuilt.eval_alike hbuilt' hscript htext hheaps hvalues)

/-! ### Lines one after the other -/

namespace Prompt

variable {script : Text} {w : World} {event : Event} {call : CallLine}

def Event.call? : Event → Option CallLine
  | .line text =>
    match Text.trim text with
    | [] => none
    | ':' :: _ => none
    | typed => CallLine.ofText? typed
  | _ => none

def outcomeLine : Except Halt Contents → String
  | .ok value => valueLine value
  | .error halt => failureLine halt.message

/-- The reply to an event in a world that holds what earlier lines left behind, and the world after
it. -/
def respond (script : Text) (w : World) (event : Event) : Reply × World :=
  match event.call? with
  | some call =>
    let (outcome, w) := evaluateIn w script call.function call.args
    ({ output := outcomeLine outcome }, w)
  | none => (reply script event, w)

def leaveCommands : List Text :=
  [":exit".toList, ":quit".toList, ":q".toList]

theorem mem_leaveCommands {command : Text} : command ∈ leaveCommands ↔
    command = ":exit".toList ∨ command = ":quit".toList ∨ command = ":q".toList := by
  simp only [leaveCommands, List.mem_cons, List.not_mem_nil, or_false]

def Event.leaves : Event → Bool
  | .line text => Text.trim text ∈ leaveCommands
  | .interrupt => false
  | .endOfInput => true
  | .failure _ => true

/-- The events that a prompt reads with its replies, in a world that it goes on changing. The input
ends after the last event. -/
def session (script : Text) (w : World) : List Event → List (Event × Reply) × World
  | [] =>
    let (answer, w) := respond script w .endOfInput
    ([(.endOfInput, answer)], w)
  | event :: events =>
    let (answer, w) := respond script w event
    if answer.ends then ([(event, answer)], w)
    else
      let (rest, w) := session script w events
      ((event, answer) :: rest, w)

theorem reply_line {text : Text} (hsome : Text.trim text ≠ [])
    (hcommand : ∀ name, Text.trim text ≠ ':' :: name) :
    reply script (.line text) = { output := callOutput script (Text.trim text) } := by
  unfold reply
  dsimp only
  split
  · rename_i htrim
    exact (hsome htrim).elim
  · rename_i name htrim
    exact (hcommand name htrim).elim
  · rfl

theorem reply_of_call? (h : event.call? = some call) :
    reply script event = { output := outcomeLine (evaluate script call.function call.args) } := by
  cases event with
  | line text =>
    unfold Event.call? at h
    dsimp only at h
    split at h
    · cases h
    · cases h
    · rename_i hsome hcommand
      rw [reply_line hsome hcommand]
      unfold callOutput
      rw [h]
      dsimp only
      cases evaluate script call.function call.args <;> rfl
  | _ => cases h

theorem respond_fst (script : Text) (w : World) (event : Event) :
    (respond script w event).1 = reply script event := by
  unfold respond
  cases h : event.call? with
  | none => rfl
  | some call =>
    rw [reply_of_call? h, ← evaluateIn_fst w]

theorem commandReply_ends (script command : Text) :
    (commandReply script command).ends = decide (command ∈ leaveCommands) := by
  unfold commandReply
  split
  · rename_i hhelp
    rcases hhelp with rfl | rfl <;> decide
  split
  · rename_i hfuncs
    have hnot : command ∉ leaveCommands := by
      rcases hfuncs with rfl | rfl <;> decide
    exact (decide_eq_false hnot).symm
  split
  · rename_i hleave
    exact (decide_eq_true (mem_leaveCommands.mpr hleave)).symm
  · rename_i hother
    exact (decide_eq_false (mt mem_leaveCommands.mp hother)).symm

/-- A reply ends the prompt just when the event is one to leave. -/
theorem reply_ends (script : Text) (event : Event) : (reply script event).ends = event.leaves := by
  cases event with
  | line text =>
    unfold reply Event.leaves
    dsimp only
    generalize Text.trim text = typed
    split
    · decide
    · exact commandReply_ends script _
    · rename_i hcommand
      have hnot : typed ∉ leaveCommands := by
        intro hmem
        rcases mem_leaveCommands.mp hmem with rfl | rfl | rfl <;> exact hcommand _ rfl
      exact (decide_eq_false hnot).symm
  | _ => rfl

/-- A session reads up to the first event that ends it, and gives to each event the reply that it has
by itself. The induction is on the events; the world that a line starts from is whatever the lines
before it made of the first one. -/
theorem session_eq (script : Text) (w : World) (events : List Event) :
    ∃ before last unread, events ++ [.endOfInput] = before ++ last :: unread ∧
      (∀ event ∈ before, event.leaves = false) ∧ last.leaves = true ∧
      (session script w events).1 =
        (before ++ [last]).map fun event => (event, reply script event) := by
  induction events generalizing w with
  | nil => exact ⟨[], .endOfInput, [], rfl, by simp, rfl, rfl⟩
  | cons event events ih =>
    have hanswer := respond_fst script w event
    have hends := reply_ends script event
    cases hleaves : event.leaves with
    | true =>
      refine ⟨[], event, events ++ [.endOfInput], rfl, by simp, hleaves, ?_⟩
      simp only [session, hanswer, hends, hleaves, if_true]
      rfl
    | false =>
      obtain ⟨before, last, unread, hread, hstay, hlast, hrest⟩ := ih (respond script w event).2
      refine ⟨event :: before, last, unread, by rw [List.cons_append, hread]; rfl, ?_, hlast, ?_⟩
      · exact List.forall_mem_cons.mpr ⟨hleaves, hstay⟩
      · simp only [session, hanswer, hends, hleaves, hrest]
        rfl

/-- The prompt that keeps nothing replies as one that clears nothing away. -/
theorem replies_eq (script : Text) (w : World) (events : List Event) :
    replies script events = (session script w events).1.map Prod.snd := by
  induction events generalizing w with
  | nil => rfl
  | cons event events ih =>
    simp only [replies, session, respond_fst]
    split
    · rfl
    · rw [ih]
      rfl

def sessionTranscript (script : Text) (w : World) (events : List Event) : Transcript :=
  let answers := (session script w events).1.map Prod.snd
  ⟨banner :: answers.map (·.output), String.join (answers.map (·.errorOutput))⟩

theorem join_eq_empty {parts : List String} (h : ∀ part ∈ parts, part = "") :
    String.join parts = "" := by
  induction parts with
  | nil => rfl
  | cons part parts ih =>
    rw [List.forall_mem_cons] at h
    rw [String.join_cons, h.1, ih h.2]
    rfl

/-- Only a failure to read goes to the error output. -/
theorem errorOutput_reply (script : Text) (event : Event) :
    (reply script event).errorOutput = "" ∨ ∃ reason, event = .failure reason := by
  cases event with
  | line text =>
    left
    unfold reply commandReply
    dsimp only
    split
    · rfl
    · split_ifs <;> rfl
    · rfl
  | failure reason => exact .inr ⟨reason, rfl⟩
  | _ => exact .inl rfl

/-- A session at the prompt has no memory. Whatever the world that it starts in, it reads the events up
to and including the first that ends it: the end of the input, a failure to read, or a line that is a
command to leave. What is printed is the banner and, for every event that was read, what the script
and that event alone call for, whatever the lines before it built, changed or failed at. Nothing goes
to the error output unless it ended with a failure to read. -/
theorem session_has_no_memory (script : Text) (w : World) (events : List Event) :
    ∃ before last unread, events ++ [.endOfInput] = before ++ last :: unread ∧
      (∀ event ∈ before, event.leaves = false) ∧ last.leaves = true ∧
      (session script w events).1 =
        ((before ++ [last]).map fun event => (event, reply script event)) ∧
      sessionTranscript script w events = transcript script events ∧
      (transcript script events).output =
        banner :: (before ++ [last]).map (fun event => (reply script event).output) ∧
      ((transcript script events).errorOutput = "" ∨ ∃ reason, last = .failure reason) := by
  obtain ⟨before, last, unread, hread, hstay, hlast, hsession⟩ := session_eq script w events
  have hreplies : replies script events = (before ++ [last]).map (reply script) := by
    rw [replies_eq script w, hsession, List.map_map]
    rfl
  refine ⟨before, last, unread, hread, hstay, hlast, hsession, ?_, ?_, ?_⟩
  · unfold sessionTranscript transcript
    rw [replies_eq script w]
  · show banner :: (replies script events).map (·.output) = _
    rw [hreplies, List.map_map]
    rfl
  · refine (errorOutput_reply script last).imp_left fun hnone => ?_
    apply join_eq_empty
    rw [hreplies, List.map_map]
    intro part hpart
    obtain ⟨event, hevent, rfl⟩ := List.mem_map.mp hpart
    rcases List.mem_append.mp hevent with hbefore | hlast'
    · -- A failure would have ended the session before.
      rcases errorOutput_reply script event with hempty | ⟨reason, rfl⟩
      · exact hempty
      · cases hstay _ hbefore
    · rw [List.mem_singleton.mp hlast']
      exact hnone

end Prompt

end Console

end Scriptlet
