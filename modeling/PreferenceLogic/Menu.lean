import PreferenceLogic.Console

/-!
# The interactive menu

A session is a loop in which a logic is chosen, and inside it a loop in which reasoning tasks in
that logic are chosen. Every choice takes one line of input. The inner loop ends with the way back
to the outer one or with the end of the input, and the outer one with the choice to exit or with the
end of the input.

Definitions:
* `Terminal`: where lines are read and dialogues are held.
* `Menu.taskMenu`, `Menu.logicMenu`: the two loops.
* `Menu.run`: a session at a terminal.
* `Menu.session`: a session over some lines of input.
-/

namespace PreferenceLogic

/-- A place where lines are read and dialogues are held. -/
structure Terminal (m : Type → Type) where
  /-- Takes the next line of the input, or nothing at its end. -/
  readLine : m (Option (List UInt8))
  /-- Takes part in a dialogue. -/
  hold {α : Type} : Dialogue α → m α

namespace Menu

/-! ## Texts -/

/-- Opens a session. -/
def greeting : List Text := ["Welcome to PrefAgent!\n".toList, "\n".toList]

/-- Closes a session. -/
def farewell : Text := "Bye!\n".toList

/-- Follows a choice that is not on offer. -/
def rejection : Text := "Invalid Choice! Please try again.\n".toList

/-- The choice of a logic, line by line. -/
def logicOffers : List Text :=
  ["Choose the preference logic to use:\n".toList, "1. Penalty Logic\n".toList,
    "2. Qualitative Choice Logic\n".toList, "3. Exit\n".toList]

/-- The choice of a task, line by line. -/
def taskOffers : List Text :=
  ["Choose the reasoning task to perform:\n".toList, "1. Encoding\n".toList,
    "2. Feasibility Checking\n".toList, "3. Show the Table\n".toList,
    "4. Exemplification\n".toList, "5. Omni-optimization\n".toList,
    "6. Back to previous menu\n".toList]

/-- Asks for a choice. -/
def question : Text := "Your Choice: ".toList

/-! ## Choices -/

/-- What can be chosen where a logic is asked for. -/
inductive LogicChoice where
  | enter (logic : Logic)
  | exit
  | invalid
deriving DecidableEq, Repr

/-- What can be chosen where a task is asked for. -/
inductive TaskChoice where
  | perform (task : Task)
  | back
  | invalid
deriving DecidableEq, Repr

/-- What a line without the blanks around it stands for where a logic is asked for. -/
def logicChoice : Text → LogicChoice
  | ['1'] => .enter .penalty
  | ['2'] => .enter .qualitative
  | ['3'] => .exit
  | _ => .invalid

/-- What a line without the blanks around it stands for where a task is asked for. -/
def taskChoice : Text → TaskChoice
  | ['1'] => .perform .encoding
  | ['2'] => .perform .feasibility
  | ['3'] => .perform .table
  | ['4'] => .perform .exemplification
  | ['5'] => .perform .optimization
  | ['6'] => .back
  | _ => .invalid

/-- Performs a task. If the problem has no answer, the reason is written instead. -/
def attempt (sampler : Sampler) (p : Problem) (logic : Logic) (task : Task) : Dialogue Unit :=
  tryCatch (task.perform sampler p logic) fun
    | .problem cause => Dialogue.print [cause.message, "\n".toList]
    | e => throw e

/-! ## Loops -/

section

variable {m : Type → Type} [Monad m] (terminal : Terminal m) (sampler : Sampler) (p : Problem)

/-- Asks for a choice. Gives the line without the blanks around it, or nothing at the end of the
input. -/
def readChoice : m (Option Text) := do
  terminal.hold (Dialogue.write question)
  match ← terminal.readLine with
  | none =>
    terminal.hold (Dialogue.write "\n".toList)
    return none
  | some line =>
    match Utf8.decode? line with
    | none => terminal.hold (throw .undecodable)
    | some t => return some (Text.trim t)

/-- Performs tasks until the way back is chosen. Tells whether there may be more input. -/
def taskMenu (logic : Logic) : m Bool :=
  repeatM (fun _ : Unit => do
    terminal.hold (Dialogue.print taskOffers)
    match (← readChoice terminal).map taskChoice with
    | some (.perform task) =>
      terminal.hold (attempt sampler p logic task)
      return .inl ()
    | some .back => return .inr true
    | none => return .inr false
    | some .invalid =>
      terminal.hold (Dialogue.write rejection)
      return .inl ()) ()

/-- Lets logics be chosen until the exit is chosen or the input ends. -/
def logicMenu : m Unit :=
  repeatM (fun _ : Unit => do
    terminal.hold (Dialogue.print logicOffers)
    match (← readChoice terminal).map logicChoice with
    | some (.enter logic) =>
      if ← taskMenu terminal sampler p logic then return .inl () else return .inr ()
    | some .exit | none => return .inr ()
    | some .invalid =>
      terminal.hold (Dialogue.write rejection)
      return .inl ()) ()

/-- A session at a terminal. -/
def run : m Unit := do
  terminal.hold (Dialogue.print greeting)
  logicMenu terminal sampler p
  terminal.hold (Dialogue.write farewell)

end

/-! ## Sessions over given input -/

/-- A dialogue that reads lines; its state is the lines that are left. -/
abbrev Scripted : Type → Type := StateT (List (List UInt8)) Dialogue

/-- Reads the lines that are left. -/
def script : Terminal Scripted where
  readLine := modifyGet fun
    | [] => (none, [])
    | line :: rest => (some line, rest)
  hold := StateT.lift

/-- A session over some input. The result is the lines that were not used. -/
def session (sampler : Sampler) (p : Problem) (input : List UInt8) :
    Dialogue (List (List UInt8)) := do
  let ((), unread) ← (run script sampler p).run (Utf8.lines input)
  return unread

end Menu

end PreferenceLogic
