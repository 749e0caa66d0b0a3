import PreferenceLogic.CommandLine.Run
import PreferenceLogic.File.Tree

/-!
# The program

Reads the command line and the files it names, and runs it. The journal goes to the error stream.
Without a task the menu answers each line of input as it comes.
-/

namespace PreferenceLogic

/-- The number of an error, which may be given as its negative in 32 bits. -/
def errorNumber (code : UInt32) : Nat :=
  if code.toNat < 2147483648 then code.toNat else 4294967296 - code.toNat

/-- Why the system refused something. -/
def systemError : IO.Error → SystemError
  | .alreadyExists _ code reason | .otherError code reason | .resourceBusy code reason
  | .resourceVanished code reason | .unsupportedOperation code reason
  | .hardwareFault code reason | .unsatisfiedConstraints code reason
  | .illegalOperation code reason | .protocolError code reason | .timeExpired code reason
  | .interrupted _ code reason | .noFileOrDirectory _ code reason
  | .invalidArgument _ code reason | .permissionDenied _ code reason
  | .resourceExhausted _ code reason | .inappropriateType _ code reason
  | .noSuchThing _ code reason => .ofCode (errorNumber code) reason.toList
  | .unexpectedEof => ⟨0, "unexpected end of file".toList⟩
  | .userError reason => ⟨0, reason.toList⟩

/-- What a path leads to. A directory is known by the refusal to read it. -/
def openPath (path : Text) : IO (Except SystemError Source) := do
  if FileTree.inputPaths.contains path then return .ok .input
  try
    return .ok (.content (← IO.FS.readBinFile (String.ofList path)).data.toList)
  catch e =>
    let error := systemError e
    return if error = .isDirectory then .ok .directory else .error error

/-- Opens paths, of which the given ones have been looked up. -/
def openPaths (paths : List Text) : IO Invocation.Opener := do
  let sources ← paths.mapM fun path => return (path, ← openPath path)
  return fun path => (sources.lookup path).getD (.error .missing)

/-- The input, if a path leads to it. Otherwise it is left for a session. -/
def inputFor (paths : List Text) : IO (List UInt8) :=
  match paths.find? FileTree.inputPaths.contains with
  | none => return []
  | some path => return (← IO.FS.readBinFile (String.ofList path)).data.toList

/-- Writes bytes to the output. -/
def writeBytes (bytes : Array UInt8) : IO Unit := do
  let out ← IO.getStdout
  out.write ⟨bytes⟩
  out.flush

/-- Shows the records of a journal. -/
def showJournal (journal : Array Record) : IO Unit :=
  (journal.filter CommandLine.isShown).forM fun r => IO.eprintln (String.ofList r.shown)

/-- What a task or a session does at the terminal of the program. -/
abbrev Interaction : Type → Type := StateT Generator (ExceptT Dialogue.Error IO)

/-- Reads a line with its end, or nothing at the end of the input. -/
def readInputLine : IO (Option (List UInt8)) := do
  let input ← IO.getStdin
  let line ← repeatM (fun (before : Array UInt8) => do
    let next ← input.read 1
    let line := before ++ next.data
    return if next.isEmpty || next.data.contains Utf8.newline then .inr line else .inl line) #[]
  return if line.isEmpty then none else some line.toList

/-- Takes part in a dialogue with an empty sink and writes what it has written. -/
def holdDialogue {α : Type} (d : Dialogue α) : Interaction α := do
  let (result, console) := d.run.run { generator := ← get }
  writeBytes console.sink.written
  set console.generator
  liftM (m := Except Dialogue.Error) result

/-- The terminal of the program. -/
def terminal : Terminal Interaction where
  readLine := readInputLine
  hold := holdDialogue

/-- Performs the task of an invocation, or holds a session. -/
def performTask (i : Invocation) (p : Problem) : Interaction Unit :=
  match i.task with
  | some (task, logic) => terminal.hold (task.perform .standard p logic)
  | none => Menu.run terminal .standard p

/-- Runs an invocation and gives the exit code. -/
def runProgram (i : Invocation) : IO UInt32 := do
  let opener ← openPaths i.paths
  let input ← inputFor i.paths
  let (result, session) := (i.prepare Oracle.exact opener input).start 0
  showJournal session.journal
  match result with
  | .error failure =>
    showJournal #[⟨.error, failure.fullText⟩]
    return 1
  | .ok prepared =>
    let chance ← IO.rand 0 (UInt64.size - 1)
    let generator := Invocation.generator prepared.config (UInt64.ofNat chance)
    match ← ((performTask i prepared.problem).run' generator).run with
    | .ok () => return 0
    | .error cause =>
      showJournal #[⟨.error, (Invocation.Failure.dialogue cause).fullText⟩]
      return 1

end PreferenceLogic

open PreferenceLogic in
/-- The program. -/
def main (args : List String) : IO UInt32 := do
  match Invocation.parse? (args.map String.toList) with
  | none =>
    IO.eprintln "The command line cannot be read."
    return 1
  | some i =>
    if i.asksForHelp then
      writeBytes (Utf8.encode Config.help).toArray
      return 0
    runProgram i
