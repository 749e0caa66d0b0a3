import Mathlib.Data.Nat.Find
import PreferenceLogic.Degree
import PreferenceLogic.Proofs.Oracle.Transcript
import PreferenceLogic.Proofs.Score.Penalty

/-!
# The questions behind scores

Each penalty rule is one question about an object, whatever is answered. A choice rule is its
condition, if it has one, and then its tiers up to the first one that is confirmed, unless the
condition is denied.

Definitions:
* `PenaltyRule.questions`, `PenaltyRule.charges`: what is asked about an object for penalty logic,
  and what the rules charge when the answers are known.
* `PenaltyTable.charged`: the table of some objects when the answers are known.
* `ChoiceRule.questions`: what is asked about an object for a choice rule.
* `PenaltyTable.questions`, `DegreeTable.questions`: what is asked about the objects with some
  numbers.

Results:
* `PenaltyRow.executes_score`: scoring an object in penalty logic asks one question for each rule
  and gives a row unless the total exceeds the limit.
* `PenaltyTable.plan_of_overflows`, `PenaltyTable.plan_of_not_overflows`: scoring some objects ends
  with the first one whose total exceeds the limit, and without such an object it charges them all.
* `DegreeTable.asks_score`: scoring in qualitative choice logic asks object by object and rule by
  rule.
-/

namespace PreferenceLogic

open Oracle

variable {σ : Type} (o : Oracle σ) {answers : Answers} {n : Nat}

/-! ## Penalty logic -/

namespace PenaltyRule

/-- The questions about an object for penalty logic: one for each rule. -/
def questions (rules : List PenaltyRule) (object : Object) : List Query :=
  rules.map fun rule => .satisfiable (object.pinned rule.formula)

/-- The penalties that rules charge to an object, where the question with the number `n` is the one
for the first rule. -/
def charges (rules : List PenaltyRule) (answers : Answers) (n : Nat) : List Nat :=
  rules.mapIdx fun i rule => if answers.satisfiable (n + i) then 0 else rule.penalty

theorem length_questions (rules : List PenaltyRule) (object : Object) :
    (questions rules object).length = rules.length := List.length_map _

theorem charges_cons (rule : PenaltyRule) (rest : List PenaltyRule) :
    charges (rule :: rest) answers n =
      (if answers.satisfiable n then 0 else rule.penalty) :: charges rest answers (n + 1) := by
  simp only [charges, List.mapIdx_cons, Nat.add_zero, Nat.add_assoc, Nat.add_comm 1]

/-- The plan for what a rule charges to an object. -/
def plan (object : Object) (rule : PenaltyRule) : Plan Problem.Error Nat :=
  .ask (.satisfiable (object.pinned rule.formula)) fun answers n =>
    if answers.satisfiable n then 0 else rule.penalty

theorem executes_charge (rule : PenaltyRule) (object : Object) :
    Executes Problem.Error.oracle ((o.recorded.charge rule object).adapt Problem.Error.oracle)
      (rule.plan object) := by
  have hcharge : ∀ answer : Bool,
      Executes id (if answer then pure 0 else pure rule.penalty : Evaluation (Recorded σ) _ Nat)
        (.done (.ok (if answer then 0 else rule.penalty))) := by
    intro answer
    cases answer with
    | true => exact executes_pure 0
    | false => exact executes_pure rule.penalty
  exact ((executes_satisfiable o _).bind hcharge).adapt Problem.Error.oracle

/-- All charges to an object: their questions do not depend on the answers, and each answer
decides the charge of its rule. -/
theorem mapM_plan (rules : List PenaltyRule) (object : Object) (answers : Answers) (n : Nat) :
    (Plan.mapM (plan object) rules).questions answers n = questions rules object ∧
      (Plan.mapM (plan object) rules).result answers n = .ok (charges rules answers n) := by
  induction rules generalizing n with
  | nil => exact ⟨rfl, rfl⟩
  | cons rule rest ih =>
    obtain ⟨hquestions, hresult⟩ := ih (n + 1)
    constructor
    · simp only [Plan.mapM, Plan.bind, plan, Plan.questions_ask, Plan.result_ask,
        List.length_singleton, hquestions, hresult, Plan.questions_done, List.append_nil]
      rfl
    · simp only [Plan.mapM, Plan.bind, plan, Plan.questions_ask, Plan.result_ask,
        List.length_singleton, hresult, charges_cons, Plan.result_done]

end PenaltyRule

namespace PenaltyRow

/-- The row of an object with some penalties, unless their total is above the limit. -/
def ofPenalties (id : Nat) (penalties : List Nat) : Except Problem.Error PenaltyRow :=
  match total? penalties with
  | none => .error (.penaltyOverflow id)
  | some total => .ok { object := id, penalties, total }

/-- The plan for the row of the object with a given number. -/
def plan (rules : List PenaltyRule) (id : Nat) (object : Object) :
    Plan Problem.Error PenaltyRow where
  questions _ _ := PenaltyRule.questions rules object
  result answers n := ofPenalties id (PenaltyRule.charges rules answers n)

theorem executes_score (rules : List PenaltyRule) (id : Nat) (object : Object) :
    Executes Problem.Error.oracle (score o.recorded rules id object) (plan rules id object) := by
  refine ((Executes.mapM (fun rule => rule.executes_charge o object) rules).bind
    (Q := fun penalties => .done (ofPenalties id penalties)) fun penalties => ?_).congr
    fun answers n => ?_
  · unfold ofPenalties
    cases total? penalties with
    | none => exact executes_throw _
    | some total => exact (executes_note _).bind fun _ => executes_pure _
  · obtain ⟨hquestions, hresult⟩ := PenaltyRule.mapM_plan rules object answers n
    rw [Plan.questions_bind_of_ok hresult, Plan.result_bind_of_ok hresult, hquestions]
    exact ⟨List.append_nil _, rfl⟩

/-- The total of an object is above the limit, where the question with the number `n` is the one for
the first rule. -/
def Overflows (rules : List PenaltyRule) (answers : Answers) (n : Nat) : Prop :=
  penaltyLimit < (PenaltyRule.charges rules answers n).sum

instance (rules : List PenaltyRule) (answers : Answers) (n : Nat) :
    Decidable (Overflows rules answers n) := inferInstanceAs (Decidable (_ < _))

variable {rules : List PenaltyRule}

theorem result_plan_of_overflows (h : Overflows rules answers n) (id : Nat) (object : Object) :
    (plan rules id object).result answers n = .error (.penaltyOverflow id) := by
  show ofPenalties id (PenaltyRule.charges rules answers n) = _
  rw [ofPenalties, total?_eq_none_iff.mpr h]

/-- The row of an object whose total is within the limit. -/
def charged (rules : List PenaltyRule) (answers : Answers) (n : Nat) (id : Nat) : PenaltyRow where
  object := id
  penalties := PenaltyRule.charges rules answers n
  total := (PenaltyRule.charges rules answers n).sum

theorem result_plan_of_not_overflows (h : ¬ Overflows rules answers n) (id : Nat)
    (object : Object) :
    (plan rules id object).result answers n = .ok (charged rules answers n id) := by
  show ofPenalties id (PenaltyRule.charges rules answers n) = _
  rw [ofPenalties, total?_eq_some_iff.mpr ⟨rfl, Nat.le_of_not_lt h⟩]
  rfl

end PenaltyRow

namespace PenaltyTable

variable {rules : List PenaltyRule} {objects : List Object} {ids : List Nat}

/-- The questions about the objects with some numbers: one for each rule about each of them. -/
def questions (rules : List PenaltyRule) (objects : List Object) (ids : List Nat) : List Query :=
  ids.flatMap fun id => PenaltyRule.questions rules objects[id]!

/-- The plan for the rows of the objects with some numbers. -/
def plan (rules : List PenaltyRule) (objects : List Object) (ids : List Nat) :
    Plan Problem.Error PenaltyTable :=
  (Plan.mapM (fun id => PenaltyRow.plan rules id objects[id]!) ids).bind fun rows =>
    .done (.ok { rules := rules.map PenaltyRule.name, rows })

theorem executes_score (rules : List PenaltyRule) (objects : List Object) (ids : List Nat) :
    Executes Problem.Error.oracle (score o.recorded rules objects ids)
      (plan rules objects ids) := by
  simp only [score, List.getElem!_toArray]
  exact (Executes.mapM (fun id => PenaltyRow.executes_score o rules id _) ids).bind fun _ =>
    executes_pure _

/-- The table of the objects with some numbers whose totals are all within the limit. -/
def charged (rules : List PenaltyRule) (answers : Answers) (n : Nat) (ids : List Nat) :
    PenaltyTable where
  rules := rules.map PenaltyRule.name
  rows := ids.mapIdx fun i => PenaltyRow.charged rules answers (n + i * rules.length)

/-- Where no total is above the limit, every rule is asked about every object. -/
theorem plan_of_not_overflows (objects : List Object)
    (h : ∀ i < ids.length, ¬ PenaltyRow.Overflows rules answers (n + i * rules.length)) :
    (plan rules objects ids).questions answers n = questions rules objects ids ∧
      (plan rules objects ids).result answers n = .ok (charged rules answers n ids) := by
  obtain ⟨hquestions, hrows⟩ := Plan.mapM_of_ok
    (Q := fun id => PenaltyRow.plan rules id objects[id]!)
    (g := fun i => PenaltyRow.charged rules answers (n + i * rules.length))
    (fun _ _ _ => rfl) (fun id => PenaltyRule.length_questions rules objects[id]!) fun i id hid =>
      PenaltyRow.result_plan_of_not_overflows (h i (List.getElem?_eq_some_iff.mp hid).1) id _
  unfold plan
  rw [Plan.questions_bind_of_ok hrows, Plan.result_bind_of_ok hrows, hquestions]
  exact ⟨List.append_nil _, rfl⟩

/-- The first object whose total is above the limit is the last one that is asked about. -/
theorem plan_of_overflows (objects : List Object) {i id : Nat} (hid : ids[i]? = some id)
    (h : PenaltyRow.Overflows rules answers (n + i * rules.length))
    (hbefore : ∀ j < i, ¬ PenaltyRow.Overflows rules answers (n + j * rules.length)) :
    (plan rules objects ids).questions answers n = questions rules objects (ids.take (i + 1)) ∧
      (plan rules objects ids).result answers n = .error (.penaltyOverflow id) := by
  obtain ⟨hquestions, hresult⟩ := Plan.mapM_of_error
    (Q := fun id => PenaltyRow.plan rules id objects[id]!)
    (fun _ _ _ => rfl) (fun id => PenaltyRule.length_questions rules objects[id]!) hid
    (PenaltyRow.result_plan_of_overflows h id _) fun j hj other _ =>
      ⟨_, PenaltyRow.result_plan_of_not_overflows (hbefore j hj) other _⟩
  unfold plan
  rw [Plan.questions_bind_of_error hresult, Plan.result_bind_of_error hresult]
  exact ⟨hquestions, rfl⟩

/-- Either no total is above the limit, or there is a first object whose total is. -/
theorem overflows_cases (rules : List PenaltyRule) (answers : Answers) (n : Nat)
    (ids : List Nat) :
    (∀ i < ids.length, ¬ PenaltyRow.Overflows rules answers (n + i * rules.length)) ∨
      ∃ i id, ids[i]? = some id ∧ PenaltyRow.Overflows rules answers (n + i * rules.length) ∧
        ∀ j < i, ¬ PenaltyRow.Overflows rules answers (n + j * rules.length) := by
  by_cases h : ∃ i, i < ids.length ∧
      PenaltyRow.Overflows rules answers (n + i * rules.length)
  · obtain ⟨hlt, hoverflows⟩ := Nat.find_spec h
    refine .inr ⟨Nat.find h, _, List.getElem?_eq_getElem hlt, hoverflows, fun j hj hbefore => ?_⟩
    exact Nat.find_min h hj ⟨Nat.lt_trans hj hlt, hbefore⟩
  · exact .inl fun i hi hoverflows => h ⟨i, hi, hoverflows⟩

end PenaltyTable

/-! ## Qualitative choice logic -/

namespace ChoiceRule

/-- The questions about an object for some tiers: up to the first one that is confirmed. -/
def tierQuestions (object : Object) : List Formula → Agenda
  | [], _, _ => []
  | tier :: rest, answers, n =>
    .satisfiable (object.pinned tier) ::
      if answers.satisfiable n then [] else tierQuestions object rest answers (n + 1)

/-- The questions about an object for a rule: the condition, if there is one, and then the tiers,
unless the condition is denied. -/
def questions (object : Object) (rule : ChoiceRule) : Agenda :=
  match rule.condition with
  | none => tierQuestions object rule.tiers
  | some condition => fun answers n =>
    .satisfiable (object.pinned condition) ::
      if answers.satisfiable n then tierQuestions object rule.tiers answers (n + 1) else []

variable {object : Object} {q : Query}

theorem exists_of_mem_tierQuestions {tiers : List Formula}
    (hq : q ∈ tierQuestions object tiers answers n) :
    ∃ tier ∈ tiers, q = .satisfiable (object.pinned tier) := by
  induction tiers generalizing n with
  | nil => cases hq
  | cons tier rest ih =>
    rcases List.mem_cons.mp hq with hq | hq
    · exact ⟨tier, List.mem_cons_self, hq⟩
    · split at hq
      · cases hq
      · obtain ⟨other, hother, heq⟩ := ih hq
        exact ⟨other, List.mem_cons_of_mem tier hother, heq⟩

/-- Only the condition and the tiers of a rule are asked about. -/
theorem exists_of_mem_questions {rule : ChoiceRule} (hq : q ∈ rule.questions object answers n) :
    ∃ f ∈ rule.condition.toList ++ rule.tiers, q = .satisfiable (object.pinned f) := by
  unfold questions at hq
  cases hcondition : rule.condition with
  | none =>
    rw [hcondition] at hq
    exact exists_of_mem_tierQuestions hq
  | some condition =>
    rw [hcondition] at hq
    rcases List.mem_cons.mp hq with hq | hq
    · exact ⟨condition, List.mem_cons_self, hq⟩
    · split at hq
      · obtain ⟨tier, htier, heq⟩ := exists_of_mem_tierQuestions hq
        exact ⟨tier, List.mem_cons_of_mem condition htier, heq⟩
      · cases hq

end ChoiceRule

theorem Oracle.asks_firstTier (object : Object) (rank : Nat) (tiers : List Formula) :
    Asks id (o.recorded.firstTier object rank tiers) (ChoiceRule.tierQuestions object tiers) := by
  induction tiers generalizing rank with
  | nil => exact asks_pure _
  | cons tier rest ih =>
    have hrest : ∀ answer : Bool, Asks id
        (if answer then pure (.tier rank) else o.recorded.firstTier object (rank + 1) rest)
        fun answers n => if answer then [] else ChoiceRule.tierQuestions object rest answers n := by
      intro answer
      cases answer with
      | true => exact asks_pure _
      | false => exact ih (rank + 1)
    exact asks_satisfiable_bind o _ hrest

theorem Oracle.asks_degree (rule : ChoiceRule) (object : Object) :
    Asks id (o.recorded.degree rule object) (rule.questions object) := by
  unfold degree ChoiceRule.questions
  cases rule.condition with
  | none => exact o.asks_firstTier object 1 rule.tiers
  | some condition =>
    have htiers : ∀ answer : Bool, Asks id
        (if answer then o.recorded.firstTier object 1 rule.tiers else pure .unsatisfied)
        fun answers n => if answer then ChoiceRule.tierQuestions object rule.tiers answers n
          else [] := by
      intro answer
      cases answer with
      | true => exact o.asks_firstTier object 1 rule.tiers
      | false => exact asks_pure _
    exact asks_satisfiable_bind o _ htiers

/-- The questions about the objects with some numbers for some choice rules: object by object, rule
by rule. -/
def DegreeTable.questions (rules : List ChoiceRule) (objects : List Object) (ids : List Nat) :
    Agenda :=
  Agenda.inTurn (fun id => Agenda.inTurn (ChoiceRule.questions objects[id]!) rules) ids

theorem DegreeRow.asks_score (rules : List ChoiceRule) (number : Nat) (object : Object) :
    Asks id (DegreeRow.score o.recorded rules number object)
      (Agenda.inTurn (ChoiceRule.questions object) rules) := by
  refine (Asks.mapM (fun rule => o.asks_degree rule object) rules).andThen fun degrees => ?_
  exact (asks_note _).andThen fun _ => asks_pure _

theorem DegreeTable.asks_score (rules : List ChoiceRule) (objects : List Object)
    (ids : List Nat) :
    Asks id (DegreeTable.score o.recorded rules objects ids)
      (DegreeTable.questions rules objects ids) := by
  simp only [score, List.getElem!_toArray]
  exact (Asks.mapM (fun number => DegreeRow.asks_score o rules number _) ids).andThen fun _ =>
    asks_pure _

end PreferenceLogic
