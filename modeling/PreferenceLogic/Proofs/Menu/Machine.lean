import Mathlib.Logic.Relation
import PreferenceLogic.Proofs.Menu.Positions
import PreferenceLogic.Proofs.Problem.Evaluation

/-!
# Sessions as runs of a machine

A session goes through the states of a machine with two levels: at the first a logic is chosen, at
the second a task in this logic. Every step of the machine shows a prompt and takes one line of the
input, unless there is none left. What a step writes for a task is the report that the task writes
to a sink of its own.

Definitions:
* `Menu.State`, `Menu.Step`: the states and the steps of the machine.
* `Menu.State.start`: the state in which a session begins.
* `Menu.State.remainder`: what is left of a session in a state.

Results:
* `Menu.Step.adds`: what a step writes is what the session writes there.
* `Menu.adds_of_run`: what a complete run writes is what the session writes.
* `Menu.exists_run`: lines of text lead to the end of the session.
* `Menu.session_refines_machine`: a session is the only complete run of the machine.
-/

namespace PreferenceLogic

/-! ## Choices -/

/-- The choice that stands for a logic. -/
def Logic.choice : Logic → Text
  | penalty => "1".toList
  | qualitative => "2".toList

/-- The choice that stands for a task. -/
def Task.choice : Task → Text
  | encoding => "1".toList
  | feasibility => "2".toList
  | table => "3".toList
  | exemplification => "4".toList
  | optimization => "5".toList

namespace Menu

/-- The choices on offer at a position. -/
def offers : Position → List Text
  | .logics => ["1".toList, "2".toList, "3".toList]
  | .tasks _ => ["1".toList, "2".toList, "3".toList, "4".toList, "5".toList, "6".toList]

/-- What is chosen with a line: its text without the blanks around it. -/
def chosen? (line : List UInt8) : Option Text := (Utf8.decode? line).map Text.trim

/-! ## The machine -/

/-- A state of the machine. -/
@[ext]
structure State where
  /-- Where in the menu the session is, or nothing if it has ended. -/
  position : Option Position
  generator : Generator
  /-- The lines of the input that are left. -/
  unread : List (List UInt8)
  /-- What has been written. -/
  written : List UInt8

/-- The steps of the machine. -/
inductive Step (sampler : Sampler) (p : Problem) : State → State → Prop where
  /-- The end of the input ends the line of the prompt and then the session. -/
  | inputEnds {position : Position} {g : Generator} {out : List UInt8} :
    Step sampler p ⟨some position, g, [], out⟩
      ⟨none, g, [], out ++ (Utf8.encode (prompt position) ++ Utf8.encode "\nBye!\n".toList)⟩
  /-- A logic is chosen, and its tasks are on offer. -/
  | entersLogic {g : Generator} {line : List UInt8} {rest : List (List UInt8)} {out : List UInt8}
    (logic : Logic) (h : chosen? line = some logic.choice) :
    Step sampler p ⟨some .logics, g, line :: rest, out⟩
      ⟨some (.tasks logic), g, rest, out ++ Utf8.encode (prompt .logics)⟩
  /-- The session ends with the choice to exit. -/
  | exits {g : Generator} {line : List UInt8} {rest : List (List UInt8)} {out : List UInt8}
    (h : chosen? line = some "3".toList) :
    Step sampler p ⟨some .logics, g, line :: rest, out⟩
      ⟨none, g, rest, out ++ (Utf8.encode (prompt .logics) ++ Utf8.encode "Bye!\n".toList)⟩
  /-- A task is chosen and writes its report. Only the exemplification uses the generator. -/
  | reports {logic : Logic} {g g' : Generator} {line : List UInt8} {rest : List (List UInt8)}
    {out report : List UInt8} (task : Task) (h : chosen? line = some task.choice)
    (halone : (task.perform sampler p logic).Alone g (.ok ()) report g')
    (hdraws : task = .exemplification ∨ g' = g) :
    Step sampler p ⟨some (.tasks logic), g, line :: rest, out⟩
      ⟨some (.tasks logic), g', rest, out ++ (Utf8.encode (prompt (.tasks logic)) ++ report)⟩
  /-- A task is chosen for which the problem has no answer. The reason is written as a line. -/
  | explains {logic : Logic} {g g' : Generator} {line : List UInt8} {rest : List (List UInt8)}
    {out : List UInt8} {cause : Problem.Error} (task : Task) (h : chosen? line = some task.choice)
    (halone : (task.perform sampler p logic).Alone g (.error (.problem cause)) [] g')
    (hdraws : task = .exemplification ∨ g' = g) :
    Step sampler p ⟨some (.tasks logic), g, line :: rest, out⟩
      ⟨some (.tasks logic), g', rest,
        out ++ (Utf8.encode (prompt (.tasks logic)) ++ Utf8.encode (cause.message ++ ['\n']))⟩
  /-- The logics are on offer again. -/
  | goesBack {logic : Logic} {g : Generator} {line : List UInt8} {rest : List (List UInt8)}
    {out : List UInt8} (h : chosen? line = some "6".toList) :
    Step sampler p ⟨some (.tasks logic), g, line :: rest, out⟩
      ⟨some .logics, g, rest, out ++ Utf8.encode (prompt (.tasks logic))⟩
  /-- What is not on offer is rejected. -/
  | rejects {position : Position} {g : Generator} {line : List UInt8} {rest : List (List UInt8)}
    {out : List UInt8} (t : Text) (h : chosen? line = some t) (hnot : t ∉ offers position) :
    Step sampler p ⟨some position, g, line :: rest, out⟩
      ⟨some position, g, rest, out ++ (Utf8.encode (prompt position) ++
        Utf8.encode "Invalid Choice! Please try again.\n".toList)⟩

/-- The state in which a session begins. -/
def State.start (g : Generator) (input : List UInt8) : State where
  position := some .logics
  generator := g
  unread := Utf8.lines input
  written := Utf8.encode "Welcome to PrefAgent!\n\n".toList

variable {sampler : Sampler} {p : Problem} {position : Position} {line : List UInt8} {t : Text}
  {g g' g'' : Generator} {w w' : List UInt8} {r : Except Dialogue.Error (List (List UInt8))}

/-! ## Choices -/

theorem logicChoice_choice (logic : Logic) : logicChoice logic.choice = .enter logic := by
  cases logic <;> rfl

theorem taskChoice_choice (task : Task) : taskChoice task.choice = .perform task := by
  cases task <;> rfl

theorem answer_logic (logic : Logic) :
    answer sampler p .logics logic.choice = pure (some (.tasks logic)) := by
  rw [answer, logicChoice_choice]

theorem answer_task (logic : Logic) (task : Task) :
    answer sampler p (.tasks logic) task.choice = (do
      attempt sampler p logic task
      return some (.tasks logic)) := by
  rw [answer, taskChoice_choice]

theorem answer_of_not_offered (h : t ∉ offers position) :
    answer sampler p position t = (do
      Dialogue.write rejection
      return some position) := by
  cases position with
  | logics =>
    have hinvalid : logicChoice t = .invalid := by
      unfold logicChoice
      split <;> first | rfl | exact absurd (by simp [offers]) h
    rw [answer, hinvalid]
  | tasks logic =>
    have hinvalid : taskChoice t = .invalid := by
      unfold taskChoice
      split <;> first | rfl | exact absurd (by simp [offers]) h
    rw [answer, hinvalid]

theorem eq_choice_of_offered_logics (h : t ∈ offers .logics) :
    (∃ logic : Logic, t = logic.choice) ∨ t = "3".toList := by
  simp only [offers, List.mem_cons, List.not_mem_nil, or_false] at h
  rcases h with rfl | rfl | rfl
  · exact .inl ⟨.penalty, rfl⟩
  · exact .inl ⟨.qualitative, rfl⟩
  · exact .inr rfl

theorem eq_choice_of_offered_tasks {logic : Logic} (h : t ∈ offers (.tasks logic)) :
    (∃ task : Task, t = task.choice) ∨ t = "6".toList := by
  simp only [offers, List.mem_cons, List.not_mem_nil, or_false] at h
  rcases h with rfl | rfl | rfl | rfl | rfl | rfl
  · exact .inl ⟨.encoding, rfl⟩
  · exact .inl ⟨.feasibility, rfl⟩
  · exact .inl ⟨.table, rfl⟩
  · exact .inl ⟨.exemplification, rfl⟩
  · exact .inl ⟨.optimization, rfl⟩
  · exact .inr rfl

/-! ## What is written for a line -/

/-- What is made of a line depends on what is chosen with it. -/
theorem respond_of_chosen (h : chosen? line = some t) :
    respond sampler p position line = answer sampler p position t := by
  obtain ⟨text, hdecode, rfl⟩ := Option.map_eq_some_iff.mp h
  rw [respond, hdecode]

/-- A task for which there is no answer ends as one with a report does, with the reason written. -/
theorem adds_attempt_error {logic : Logic} {task : Task} {cause : Problem.Error}
    (h : (task.perform sampler p logic).Adds g (.error (.problem cause)) [] g') :
    (attempt sampler p logic task).Adds g (.ok ()) (Utf8.encode (cause.message ++ ['\n'])) g' := by
  have hwrite := Dialogue.adds_print [cause.message, "\n".toList] g'
  rw [List.flatten_cons, List.flatten_singleton] at hwrite
  exact h.tryCatch_error hwrite

theorem adds_respond_task {logic : Logic} {task : Task} (h : chosen? line = some task.choice)
    (hattempt : (attempt sampler p logic task).Adds g (.ok ()) w g') :
    (respond sampler p (.tasks logic) line).Adds g (.ok (some (.tasks logic))) w g' := by
  rw [respond_of_chosen h, answer_task]
  exact hattempt.map fun _ => some (Position.tasks logic)

/-! ## What is left of a session -/

/-- What is left of a session in a state. -/
def State.remainder (sampler : Sampler) (p : Problem) (s : State) :
    Dialogue (List (List UInt8)) :=
  match s.position with
  | none => pure s.unread
  | some position => converse sampler p position s.unread

/-- The prompt is written first, then what is made of the line, and then the rest. -/
theorem adds_remainder_line {next : Option Position} {rest : List (List UInt8)}
    {out out' : List UInt8} (hrespond : (respond sampler p position line).Adds g (.ok next) w g')
    (hrest : (State.remainder sampler p ⟨next, g', rest, out'⟩).Adds g' r w' g'') :
    (State.remainder sampler p ⟨some position, g, line :: rest, out⟩).Adds g r
      (Utf8.encode (prompt position) ++ w ++ w') g'' := by
  rw [List.append_assoc]
  cases next with
  | none => exact (Dialogue.adds_write _ g).bind (hrespond.bind hrest)
  | some next => exact (Dialogue.adds_write _ g).bind (hrespond.bind hrest)

/-- What a step writes stands before what is written after it. -/
theorem Step.adds {s u : State} (h : Step sampler p s u)
    (hrest : (u.remainder sampler p).Adds u.generator r w g') :
    ∃ w₀, u.written = s.written ++ w₀ ∧
      (s.remainder sampler p).Adds s.generator r (w₀ ++ w) g' := by
  cases h with
  | inputEnds =>
    refine ⟨_, rfl, ?_⟩
    rw [List.append_assoc]
    exact (Dialogue.adds_write _ _).bind ((Dialogue.adds_write _ _).bind hrest)
  | entersLogic logic h =>
    refine ⟨_ ++ [], by rw [List.append_nil], adds_remainder_line ?_ hrest⟩
    rw [respond_of_chosen h, answer_logic]
    exact Dialogue.adds_pure _ _
  | exits h =>
    refine ⟨_, rfl, adds_remainder_line ?_ hrest⟩
    rw [respond_of_chosen h]
    exact (Dialogue.adds_write _ _).map fun _ => none
  | reports task h halone =>
    have hreport := Task.adds_of_alone halone
    exact ⟨_, rfl, adds_remainder_line (adds_respond_task h hreport.tryCatch) hrest⟩
  | explains task h halone =>
    have hreason := adds_attempt_error (Task.adds_of_alone halone)
    exact ⟨_, rfl, adds_remainder_line (adds_respond_task h hreason) hrest⟩
  | goesBack h =>
    refine ⟨_ ++ [], by rw [List.append_nil], adds_remainder_line ?_ hrest⟩
    rw [respond_of_chosen h]
    exact Dialogue.adds_pure _ _
  | rejects t h hnot =>
    refine ⟨_, rfl, adds_remainder_line ?_ hrest⟩
    rw [respond_of_chosen h, answer_of_not_offered hnot]
    exact (Dialogue.adds_write _ _).map fun _ => some _

/-- What a complete run writes is what is written by the rest of the session. -/
theorem adds_of_run {s u : State} (h : Relation.ReflTransGen (Step sampler p) s u)
    (hended : u.position = none) :
    ∃ w, u.written = s.written ++ w ∧
      (s.remainder sampler p).Adds s.generator (.ok u.unread) w u.generator := by
  -- The run is gone through from its end, since what is left of a session is known there first.
  induction h using Relation.ReflTransGen.head_induction_on with
  | refl =>
    refine ⟨[], (List.append_nil _).symm, ?_⟩
    rw [State.remainder, hended]
    exact Dialogue.adds_pure _ _
  | head hstep _ ih =>
    obtain ⟨w, hw, hrest⟩ := ih
    obtain ⟨w₀, hw₀, hadds⟩ := hstep.adds hrest
    exact ⟨w₀ ++ w, by rw [hw, hw₀, List.append_assoc], hadds⟩

/-! ## Complete runs -/

theorem exists_step_task {logic : Logic} {task : Task} (h : chosen? line = some task.choice)
    (g : Generator) (rest : List (List UInt8)) (out : List UInt8) :
    ∃ g' out', Step sampler p ⟨some (.tasks logic), g, line :: rest, out⟩
      ⟨some (.tasks logic), g', rest, out'⟩ := by
  obtain ⟨g', hdraws, ⟨w, hreport⟩ | ⟨cause, hreason⟩⟩ := Task.exists_adds sampler p logic task g
  · exact ⟨g', _, .reports task h hreport.alone hdraws⟩
  · exact ⟨g', _, .explains task h hreason.alone hdraws⟩

/-- A line of text is a step of the machine. -/
theorem exists_step (h : chosen? line = some t) (position : Position) (g : Generator)
    (rest : List (List UInt8)) (out : List UInt8) :
    ∃ next g' out',
      Step sampler p ⟨some position, g, line :: rest, out⟩ ⟨next, g', rest, out'⟩ := by
  by_cases hoffered : t ∈ offers position
  · cases position with
    | logics =>
      obtain ⟨logic, rfl⟩ | rfl := eq_choice_of_offered_logics hoffered
      · exact ⟨_, _, _, .entersLogic logic h⟩
      · exact ⟨_, _, _, .exits h⟩
    | tasks logic =>
      obtain ⟨task, rfl⟩ | rfl := eq_choice_of_offered_tasks hoffered
      · exact ⟨_, exists_step_task h g rest out⟩
      · exact ⟨_, _, _, .goesBack h⟩
  · exact ⟨_, _, _, .rejects t h hoffered⟩

/-- Lines of text lead to the end of the session. -/
theorem exists_run {unread : List (List UInt8)} (h : ∀ line ∈ unread, (Utf8.decode? line).isSome)
    (position : Option Position) (g : Generator) (out : List UInt8) :
    ∃ u : State, u.position = none ∧
      Relation.ReflTransGen (Step sampler p) ⟨position, g, unread, out⟩ u := by
  induction unread generalizing position g out with
  | nil =>
    cases position with
    | none => exact ⟨_, rfl, .refl⟩
    | some position => exact ⟨_, rfl, .single .inputEnds⟩
  | cons line rest ih =>
    cases position with
    | none => exact ⟨_, rfl, .refl⟩
    | some position =>
      rw [List.forall_mem_cons] at h
      obtain ⟨text, htext⟩ := Option.isSome_iff_exists.mp h.1
      have hchosen : chosen? line = some text.trim := by rw [chosen?, htext]; rfl
      obtain ⟨next, g', out', hstep⟩ := exists_step hchosen position g rest out
      obtain ⟨u, hended, hrun⟩ := ih h.2 next g' out'
      exact ⟨u, hended, hrun.head hstep⟩

/-! ## Sessions -/

/-- A session over lines of text does not fail on a sink that takes everything, and it is the only
complete run of the machine. -/
theorem session_refines_machine (sampler : Sampler) (p : Problem) (g : Generator)
    (input : List UInt8) (h : ∀ line ∈ Utf8.lines input, (Utf8.decode? line).isSome)
    (before : Array UInt8) :
    ∃ final : State,
      (∀ s : State, s.position = none ∧
        Relation.ReflTransGen (Step sampler p) (State.start g input) s ↔ s = final) ∧
      (session sampler p input).outcome { sink := { written := before }, generator := g } =
        (.ok final.unread,
          { sink := { written := before ++ final.written }, generator := final.generator }) := by
  obtain ⟨final, hended, hrun⟩ := exists_run h (some .logics) g (State.start g input).written
  obtain ⟨w, hw, hadds⟩ := adds_of_run hrun hended
  refine ⟨final, fun s => ⟨fun ⟨hs, hto⟩ => ?_, ?_⟩, ?_⟩
  · -- Two complete runs are both what the session does with a sink of its own.
    obtain ⟨w', hw', hadds'⟩ := adds_of_run hto hs
    obtain ⟨hunread, hwritten, hgenerator⟩ := hadds'.alone.unique hadds.alone
    have hposition : s.position = final.position := hs.trans hended.symm
    exact State.ext hposition hgenerator (Except.ok.inj hunread) (by rw [hw', hw, hwritten])
  · rintro rfl
    exact ⟨hended, hrun⟩
  · have hsession := (Dialogue.adds_print greeting g).bind (f := fun _ => _) hadds
    rw [hw, session_eq_converse]
    exact hsession before

/-- Chooses penalty logic, feasibility, what is not on offer, the way back and the exit. A line is
left over. -/
def visit : List UInt8 := Problem.bytes "1\n2\n9\n6\n 3 \r\n4\n"

theorem session_refines_machine_dinner :
    ∃ p t, (Problem.load Oracle.exact {} (Problem.dinner "fish OR NOT white\n")).Returns
        { oracle := 0 } p t ∧
      (∀ line ∈ Utf8.lines visit, (Utf8.decode? line).isSome) ∧
      ∃ final : State,
        (∀ s : State, s.position = none ∧
          Relation.ReflTransGen (Step .standard p) (State.start (.seeded 7) visit) s ↔ s = final) ∧
        final.unread = [Problem.bytes "4"] ∧ final.generator = .seeded 7 := by
  obtain ⟨p, t, hload, -⟩ := Problem.exists_load_dinner
  have hlines : Utf8.lines visit =
      ["1", "2", "9", "6", " 3 \r", "4"].map Problem.bytes := by decide +kernel
  have htexts : ∀ line ∈ Utf8.lines visit, (Utf8.decode? line).isSome := by
    rw [hlines]
    decide +kernel
  obtain ⟨final, hfinal, -⟩ := session_refines_machine .standard p (.seeded 7) visit htexts #[]
  have hreport := Dialogue.adds_print (Report.feasibilityParts p) (.seeded 7)
  have hrun : ∃ out, Relation.ReflTransGen (Step .standard p)
      ⟨some .logics, .seeded 7, ["1", "2", "9", "6", " 3 \r", "4"].map Problem.bytes,
        Utf8.encode "Welcome to PrefAgent!\n\n".toList⟩
      ⟨none, .seeded 7, [Problem.bytes "4"], out⟩ :=
    ⟨_, .head (.entersLogic .penalty (by decide)) <|
      .head (.reports .feasibility (by decide) hreport.alone (.inr rfl)) <|
      .head (.rejects "9".toList (by decide) (by decide)) <|
      .head (.goesBack (by decide)) <| .single (.exits (by decide))⟩
  obtain ⟨out, hrun⟩ := hrun
  rw [← hlines] at hrun
  have hend := (hfinal _).mp ⟨rfl, hrun⟩
  exact ⟨p, t, hload, htexts, final, hfinal, by rw [← hend], by rw [← hend]⟩

end Menu

end PreferenceLogic
