import PreferenceLogic.Menu
import PreferenceLogic.Proofs.Dialogue

/-!
# Sessions from position to position

The two loops of a session, one inside the other, do what one recursion over the lines of the input
does that keeps the position in the menu: whether a logic is to be chosen, or a task in some logic.
Every line is used up by one choice, so both end when the lines do.

Definitions:
* `Menu.respond`: what a line of input leads to at a position.
* `Menu.converse`: a session from a position on, over some lines.
* `Menu.loopsFrom`: what the loops do from a position on.

Results:
* `Menu.taskMenu_eq`, `Menu.logicMenu_eq`: one round of each loop.
* `Menu.run_loopsFrom`: the loops do what the recursion does.
* `Menu.session_eq_converse`: a session is a greeting and a walk from the first position on.
-/

namespace PreferenceLogic.Menu

/-! ## Positions -/

/-- Where in the menu a session is. -/
inductive Position where
  /-- A logic is to be chosen. -/
  | logics
  /-- A task in a logic is to be chosen. -/
  | tasks (logic : Logic)
deriving DecidableEq, Repr

/-- What can be chosen, line by line. -/
def Position.offers : Position → List Text
  | .logics => logicOffers
  | .tasks _ => taskOffers

/-- What is written before a choice. -/
def prompt (position : Position) : Text := position.offers.flatten ++ question

/-- What is written after the prompt at the end of the input. -/
def closing : Text := '\n' :: farewell

section

variable (sampler : Sampler) (p : Problem)

/-- What a choice leads to: the next position, or none at the end of the session. -/
def answer : Position → Text → Dialogue (Option Position)
  | .logics, t =>
    match logicChoice t with
    | .enter logic => return some (.tasks logic)
    | .exit => do
      Dialogue.write farewell
      return none
    | .invalid => do
      Dialogue.write rejection
      return some .logics
  | .tasks logic, t =>
    match taskChoice t with
    | .perform task => do
      attempt sampler p logic task
      return some (.tasks logic)
    | .back => return some .logics
    | .invalid => do
      Dialogue.write rejection
      return some (.tasks logic)

/-- What a line of input leads to. -/
def respond (position : Position) (line : List UInt8) : Dialogue (Option Position) :=
  match Utf8.decode? line with
  | none => throw .undecodable
  | some t => answer sampler p position (Text.trim t)

/-- A session from a position on, over some lines of input. The result is the lines that were not
used. -/
def converse : Position → List (List UInt8) → Dialogue (List (List UInt8))
  | position, [] => do
    Dialogue.write (prompt position)
    Dialogue.write closing
    return []
  | position, line :: rest => do
    Dialogue.write (prompt position)
    match ← respond sampler p position line with
    | none => return rest
    | some next => converse next rest

end

/-! ## Rounds of the loops -/

section

variable (sampler : Sampler) (p : Problem)

theorem taskMenu_eq (logic : Logic) : taskMenu script sampler p logic = (do
    script.hold (Dialogue.print taskOffers)
    match (← readChoice script).map taskChoice with
    | some (.perform task) =>
      script.hold (attempt sampler p logic task)
      taskMenu script sampler p logic
    | some .back => return true
    | none => return false
    | some .invalid =>
      script.hold (Dialogue.write rejection)
      taskMenu script sampler p logic) := by
  conv_lhs => rw [taskMenu, repeatM_eq_of_monadTail, repeatM.body]
  simp only [bind_assoc]
  refine bind_congr fun _ => bind_congr fun chosen => ?_
  rcases chosen.map taskChoice with _ | ⟨task⟩ | _ | _
  · simp only [pure_bind]
  · simp only [bind_assoc, pure_bind]
    rfl
  · simp only [pure_bind]
  · simp only [bind_assoc, pure_bind]
    rfl

theorem logicMenu_eq : logicMenu script sampler p = (do
    script.hold (Dialogue.print logicOffers)
    match (← readChoice script).map logicChoice with
    | some (.enter logic) =>
      if ← taskMenu script sampler p logic then logicMenu script sampler p
    | some .exit | none => return ()
    | some .invalid =>
      script.hold (Dialogue.write rejection)
      logicMenu script sampler p) := by
  conv_lhs => rw [logicMenu, repeatM_eq_of_monadTail, repeatM.body]
  simp only [bind_assoc]
  refine bind_congr fun _ => bind_congr fun chosen => ?_
  rcases chosen.map logicChoice with _ | ⟨logic⟩ | _ | _
  · simp only [pure_bind]
  · simp only [bind_assoc]
    refine bind_congr fun goesOn => ?_
    cases goesOn
    · simp only [Bool.false_eq_true, if_false, pure_bind]
    · simp only [if_true, pure_bind]
      rfl
  · simp only [pure_bind]
  · simp only [bind_assoc, pure_bind]
    rfl

end

/-! ## Dialogues over a script -/

section

variable {α β : Type}

theorem hold_pure (a : α) : script.hold (pure a) = pure a := rfl

theorem hold_bind (d : Dialogue β) (f : β → Dialogue α) :
    script.hold (d >>= f) = (do script.hold (f (← script.hold d)) : Scripted α) := by
  funext lines
  show (do let a ← d >>= f; pure (a, lines)) = _
  rw [bind_assoc]
  show _ = (do let (b, lines) ← (do let b ← d; pure (b, lines)); (script.hold (f b)).run lines)
  simp only [bind_assoc, pure_bind]
  rfl

theorem run_hold (d : Dialogue β) (f : β → Scripted α) (lines : List (List UInt8)) :
    (do f (← script.hold d) : Scripted α).run lines = (do (f (← d)).run lines) := by
  rw [StateT.run_bind, script, StateT.run_lift, bind_assoc]
  simp only [pure_bind]

/-- At the end of the input the line of the prompt is ended. -/
theorem run_readChoice_nil (f : Option Text → Scripted α) :
    (do f (← readChoice script) : Scripted α).run [] =
      (do Dialogue.write question
          Dialogue.write "\n".toList
          (f none).run []) := by
  have hnone : ∀ next : Option (List UInt8) → Scripted α,
      (do next (← script.readLine) : Scripted α).run [] = (next none).run [] := fun _ => rfl
  simp only [readChoice, bind_assoc, run_hold, hnone, pure_bind]

/-- A choice takes a line of the input. -/
theorem run_readChoice_cons (f : Option Text → Scripted α) (line : List UInt8)
    (rest : List (List UInt8)) :
    (do f (← readChoice script) : Scripted α).run (line :: rest) =
      (do Dialogue.write question
          match Utf8.decode? line with
          | none => throw .undecodable
          | some t => (f (some (Text.trim t))).run rest) := by
  have hline : ∀ next : Option (List UInt8) → Scripted α,
      (do next (← script.readLine) : Scripted α).run (line :: rest) =
        (next (some line)).run rest := fun _ => rfl
  simp only [readChoice, bind_assoc, run_hold, hline]
  cases Utf8.decode? line with
  | none =>
    simp only [run_hold]
    rfl
  | some t => simp only [pure_bind]

end

/-! ## Sessions -/

section

variable (sampler : Sampler) (p : Problem)

/-- What the loops do from a position on. -/
def loopsFrom : Position → Scripted Unit
  | .logics => do
    logicMenu script sampler p
    script.hold (Dialogue.write farewell)
  | .tasks logic => do
    if ← taskMenu script sampler p logic then
      logicMenu script sampler p
    script.hold (Dialogue.write farewell)

/-- One round of the loop at a position: the session goes on from the next position. -/
theorem loopsFrom_eq (position : Position) : loopsFrom sampler p position = (do
    script.hold (Dialogue.print position.offers)
    match ← readChoice script with
    | none => script.hold (Dialogue.write farewell)
    | some t =>
      match ← script.hold (answer sampler p position t) with
      | none => return ()
      | some next => loopsFrom sampler p next) := by
  cases position with
  | logics =>
    conv_lhs => rw [loopsFrom, logicMenu_eq]
    simp only [bind_assoc]
    refine bind_congr fun _ => bind_congr fun chosen => ?_
    cases chosen with
    | none => rfl
    | some t =>
      simp only [answer, Option.map_some]
      cases logicChoice t with
      | enter logic =>
        simp only [hold_pure, pure_bind, bind_assoc, loopsFrom]
        refine bind_congr fun goesOn => ?_
        cases goesOn with
        | false => simp only [Bool.false_eq_true, if_false, pure_bind]
        | true => simp only [if_true]
      | exit => simp only [hold_bind, hold_pure, bind_assoc, pure_bind, bind_pure_unit]
      | invalid => simp only [hold_bind, hold_pure, bind_assoc, pure_bind, loopsFrom]
  | tasks logic =>
    conv_lhs => rw [loopsFrom, taskMenu_eq]
    simp only [bind_assoc]
    refine bind_congr fun _ => bind_congr fun chosen => ?_
    cases chosen with
    | none => simp only [Option.map_none, pure_bind, Bool.false_eq_true, if_false]
    | some t =>
      simp only [answer, Option.map_some]
      cases taskChoice t with
      | perform task => simp only [hold_bind, hold_pure, bind_assoc, pure_bind, loopsFrom]
      | back => simp only [hold_pure, pure_bind, if_true, loopsFrom]
      | invalid => simp only [hold_bind, hold_pure, bind_assoc, pure_bind, loopsFrom]

theorem write_prompt (position : Position) : Dialogue.write (prompt position) = (do
    Dialogue.print position.offers
    Dialogue.write question) := by
  rw [prompt, Dialogue.write_append, Dialogue.print_eq_write]

theorem write_closing :
    Dialogue.write closing = (do Dialogue.write "\n".toList; Dialogue.write farewell) :=
  Dialogue.write_append ['\n'] farewell

/-- The loops do what the recursion over the lines does. -/
theorem run_loopsFrom (lines : List (List UInt8)) (position : Position) :
    Prod.snd <$> (loopsFrom sampler p position).run lines = converse sampler p position lines := by
  induction lines generalizing position with
  | nil =>
    rw [loopsFrom_eq, converse, write_prompt, write_closing]
    simp only [run_hold, run_readChoice_nil, bind_assoc, map_bind]
    refine bind_congr fun _ => bind_congr fun _ => bind_congr fun _ => ?_
    rw [script, StateT.run_lift, map_bind]
    simp only [map_pure]
  | cons line rest ih =>
    rw [loopsFrom_eq, converse, write_prompt, respond]
    simp only [run_hold, run_readChoice_cons, bind_assoc, map_bind]
    refine bind_congr fun _ => bind_congr fun _ => ?_
    cases Utf8.decode? line with
    | none => rfl
    | some t =>
      simp only [map_bind]
      refine bind_congr fun next => ?_
      cases next with
      | none => rfl
      | some next => exact ih next

/-- A session greets and goes on from the first position. -/
theorem session_eq_converse (input : List UInt8) : session sampler p input = (do
    Dialogue.print greeting
    converse sampler p .logics (Utf8.lines input)) := by
  have hrun : run script sampler p = (do
      script.hold (Dialogue.print greeting)
      loopsFrom sampler p .logics) := rfl
  rw [session, hrun, run_hold, bind_assoc]
  refine bind_congr fun _ => ?_
  rw [← run_loopsFrom, ← bind_pure_comp]

end

end PreferenceLogic.Menu
