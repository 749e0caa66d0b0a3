import Mathlib.Data.List.Infix
import PreferenceLogic.Proofs.Object.Pinning
import PreferenceLogic.Proofs.Oracle.Recorded
import PreferenceLogic.Proofs.Problem.Evaluation
import PreferenceLogic.Proofs.Score.Questions

/-!
# The questions of an evaluation

An evaluation asks for the models of the constraints, then about every feasible object for penalty
logic, then about every feasible object for qualitative choice logic. The answers so far determine
the next question, and nothing is asked after a failure.

Definitions:
* `Answers.feasible`: the feasible objects, where the answers are known.
* `Problem.questions`: all questions of an evaluation, where the answers are known.
* `Problem.plan`: the plan of an evaluation.
* `Problem.Questioned`: how the exchanges of an evaluation and its result fit together.

Results:
* `Problem.executes_evaluate`: an evaluation executes its plan.
* `Problem.plan_of_overflows`, `Problem.plan_of_not_overflows`: the plan ends with the first object
  whose total exceeds the limit, and without such an object it has all questions.
* `Problem.mem_questions`: a question is about the constraints, or about a rule and an object.
* `Problem.questioned_of_evaluate`: whatever the oracle answers and wherever it fails, the questions
  and the result are what the answers determine.
-/

namespace PreferenceLogic

open Oracle

/-! ## Feasible objects -/

/-- The numbers of the feasible objects, where the question with the number `n` asks for the models
of the constraints. -/
def Answers.feasible (answers : Answers) (n : Nat) (v : Vocabulary) : List Nat :=
  fitting (.ofList (answers.models n)) v.objects

namespace Answers

variable {answers : Answers} {n : Nat} {v : Vocabulary}

/-- There is an object for the number of every feasible object. -/
theorem getElem!_mem_objects {id : Nat} (h : id ∈ answers.feasible n v) :
    v.objects[id]! ∈ v.objects := by
  obtain ⟨object, hobject, -, rfl⟩ := mem_fitting_ofList.mp h
  rwa [Vocabulary.getElem!_objects_id hobject]

theorem pairwise_feasible : (answers.feasible n v).Pairwise (· < ·) :=
  Vocabulary.pairwise_ids_of_sublist List.filter_sublist

end Answers

theorem Oracle.executes_feasible {σ : Type} (o : Oracle σ) (f : Formula) (v : Vocabulary) :
    Executes Problem.Error.oracle ((o.recorded.feasible f v.objects).adapt Problem.Error.oracle)
      (.ask (.models f) fun answers n => answers.feasible n v) :=
  ((executes_models o f).bind fun _ => (executes_note _).bind fun _ => executes_pure _).adapt
    Problem.Error.oracle

namespace Problem

variable {σ : Type} {o : Oracle σ} {config : Config} {v : Vocabulary} {constraints : Formula}
  {penaltyRules : List PenaltyRule} {choiceRules : List ChoiceRule} {answers : Answers}

/-! ## All questions -/

/-- The question for the models and, for the objects with some numbers, the questions for penalty
logic. -/
def chargeQuestions (v : Vocabulary) (constraints : Formula) (penaltyRules : List PenaltyRule)
    (ids : List Nat) : List Query :=
  .models (constraints.spanning v.size) :: PenaltyTable.questions penaltyRules v.objects ids

/-- All questions of an evaluation: the one for the models, those for penalty logic and then those
for qualitative choice logic, in both logics object by object and rule by rule. -/
def questions (v : Vocabulary) (constraints : Formula) (penaltyRules : List PenaltyRule)
    (choiceRules : List ChoiceRule) (answers : Answers) : List Query :=
  let charges := chargeQuestions v constraints penaltyRules (answers.feasible 0 v)
  charges ++
    DegreeTable.questions choiceRules v.objects (answers.feasible 0 v) answers charges.length

/-- The total of the feasible object at a place is above the limit. -/
def OverflowsAt (penaltyRules : List PenaltyRule) (answers : Answers) (place : Nat) : Prop :=
  PenaltyRow.Overflows penaltyRules answers (1 + place * penaltyRules.length)

instance (penaltyRules : List PenaltyRule) (answers : Answers) (place : Nat) :
    Decidable (OverflowsAt penaltyRules answers place) :=
  inferInstanceAs (Decidable (PenaltyRow.Overflows _ _ _))

/-! ## The plan of an evaluation -/

/-- The plan for scoring the feasible objects, given a plan for their degrees. -/
def scorePlan (v : Vocabulary) (penaltyRules : List PenaltyRule) (choiceRules : List ChoiceRule)
    (D : List Nat → Plan Error DegreeTable) (feasible : List Nat) : Plan Error Problem :=
  (PenaltyTable.plan penaltyRules v.objects feasible).bind fun penalties =>
  (D feasible).bind fun degrees =>
  .done (.ok ⟨v, ⟨penaltyRules, choiceRules⟩, v.objects, feasible, penalties, degrees⟩)

/-- The plan of an evaluation, given a plan for the degrees. -/
def plan (v : Vocabulary) (constraints : Formula) (penaltyRules : List PenaltyRule)
    (choiceRules : List ChoiceRule) (D : List Nat → Plan Error DegreeTable) :
    Plan Error Problem :=
  (Plan.ask (.models (constraints.spanning v.size)) fun answers n => answers.feasible n v).bind
    (scorePlan v penaltyRules choiceRules D)

variable {D : List Nat → Plan Error DegreeTable}

theorem executes_evaluate (hsize : v.size ≤ config.attributeLimit)
    (hpenalty : (penaltyRules.map PenaltyRule.name).Nodup)
    (hchoice : (choiceRules.map ChoiceRule.name).Nodup)
    (hD : ∀ feasible, Executes Error.oracle
      ((DegreeTable.score o.recorded choiceRules v.objects feasible).adapt Error.oracle)
      (D feasible)) :
    Executes Error.oracle (evaluate o.recorded config v constraints penaltyRules choiceRules)
      (plan v constraints penaltyRules choiceRules D) := by
  have hrules : Rulebook.ofRules penaltyRules choiceRules = .ok ⟨penaltyRules, choiceRules⟩ :=
    Rulebook.ofRules_eq_ok_iff.mpr ⟨rfl, hpenalty, hchoice⟩
  unfold evaluate plan scorePlan
  rw [if_neg (Nat.not_lt.mpr hsize), hrules, Evaluation.ofExcept_ok_bind]
  refine Executes.note_bind ?_ _
  refine (o.executes_feasible _ v).bind fun feasible => ?_
  refine (PenaltyTable.executes_score o penaltyRules _ feasible).bind fun penalties => ?_
  refine (hD feasible).bind fun degrees => Executes.note_bind ?_ _
  exact executes_pure _

/-- The question for the models comes first. -/
theorem questions_plan :
    (plan v constraints penaltyRules choiceRules D).questions answers 0 =
      .models (constraints.spanning v.size) ::
        (scorePlan v penaltyRules choiceRules D (answers.feasible 0 v)).questions answers 1 :=
  rfl

theorem result_plan :
    (plan v constraints penaltyRules choiceRules D).result answers 0 =
      (scorePlan v penaltyRules choiceRules D (answers.feasible 0 v)).result answers 1 :=
  rfl

/-- Where totals exceed the limit, the plan ends with the first object whose total does. -/
theorem plan_of_overflows {i id : Nat} (hid : (answers.feasible 0 v)[i]? = some id)
    (h : OverflowsAt penaltyRules answers i)
    (hbefore : ∀ j < i, ¬ OverflowsAt penaltyRules answers j) :
    (plan v constraints penaltyRules choiceRules D).questions answers 0 =
        chargeQuestions v constraints penaltyRules ((answers.feasible 0 v).take (i + 1)) ∧
      (plan v constraints penaltyRules choiceRules D).result answers 0 =
        .error (.penaltyOverflow id) := by
  obtain ⟨hquestions, hresult⟩ := PenaltyTable.plan_of_overflows (n := 1) v.objects hid h hbefore
  rw [questions_plan, result_plan, scorePlan, Plan.questions_bind_of_error hresult,
    Plan.result_bind_of_error hresult, hquestions]
  exact ⟨rfl, rfl⟩

/-- Where no total exceeds the limit, everything is asked and a problem results. -/
theorem plan_of_not_overflows
    (hquestions : ∀ feasible,
      (D feasible).questions = DegreeTable.questions choiceRules v.objects feasible)
    (hresult : ∀ feasible answers n, ∃ degrees, (D feasible).result answers n = .ok degrees)
    (h : ∀ i < (answers.feasible 0 v).length, ¬ OverflowsAt penaltyRules answers i) :
    (plan v constraints penaltyRules choiceRules D).questions answers 0 =
        questions v constraints penaltyRules choiceRules answers ∧
      ∃ p, (plan v constraints penaltyRules choiceRules D).result answers 0 = .ok p ∧
        p.feasible = answers.feasible 0 v := by
  obtain ⟨hasked, hpenalties⟩ := PenaltyTable.plan_of_not_overflows (n := 1) v.objects h
  obtain ⟨degrees, hdegrees⟩ := hresult (answers.feasible 0 v) answers
    (1 + (PenaltyTable.questions penaltyRules v.objects (answers.feasible 0 v)).length)
  rw [questions_plan, result_plan, scorePlan, Plan.questions_bind_of_ok hpenalties,
    Plan.result_bind_of_ok hpenalties, hasked, Plan.questions_bind_of_ok hdegrees,
    Plan.result_bind_of_ok hdegrees, hquestions, questions, chargeQuestions, List.length_cons,
    Plan.questions_done, List.append_nil, Nat.add_comm 1]
  exact ⟨rfl, _, rfl, rfl⟩

/-- What is asked is in any case the beginning of all questions. -/
theorem questions_plan_isPrefix
    (hquestions : ∀ feasible,
      (D feasible).questions = DegreeTable.questions choiceRules v.objects feasible)
    (hresult : ∀ feasible answers n, ∃ degrees, (D feasible).result answers n = .ok degrees) :
    (plan v constraints penaltyRules choiceRules D).questions answers 0 <+:
      questions v constraints penaltyRules choiceRules answers := by
  rcases PenaltyTable.overflows_cases penaltyRules answers 1 (answers.feasible 0 v) with
    hnone | ⟨i, id, hid, hoverflows, hbefore⟩
  · exact (plan_of_not_overflows hquestions hresult hnone).1 ▸ List.prefix_rfl
  · rw [(plan_of_overflows hid hoverflows hbefore).1, questions, chargeQuestions,
      chargeQuestions, List.cons_append, List.cons_prefix_cons]
    exact ⟨rfl, ((List.take_prefix _ _).flatMap _).trans (List.prefix_append _ _)⟩

/-! ## The formulas that are asked about -/

/-- The formulas of the rules. -/
def ruleFormulas (penaltyRules : List PenaltyRule) (choiceRules : List ChoiceRule) :
    List Formula :=
  penaltyRules.map PenaltyRule.formula ++
    choiceRules.flatMap fun rule => rule.condition.toList ++ rule.tiers

/-- A question is about the constraints, or about a formula of a rule and an object. -/
theorem mem_questions {q : Query}
    (hq : q ∈ questions v constraints penaltyRules choiceRules answers) :
    q = .models (constraints.spanning v.size) ∨
      ∃ f ∈ ruleFormulas penaltyRules choiceRules, ∃ object ∈ v.objects,
        q = .satisfiable (object.pinned f) := by
  rw [questions, chargeQuestions, List.cons_append, List.mem_cons, List.mem_append] at hq
  rcases hq with hq | hq | hq
  · exact .inl hq
  · obtain ⟨id, hid, hq⟩ := List.mem_flatMap.mp hq
    obtain ⟨rule, hrule, rfl⟩ := List.mem_map.mp hq
    exact .inr ⟨rule.formula, List.mem_append_left _ (List.mem_map_of_mem hrule), _,
      Answers.getElem!_mem_objects hid, rfl⟩
  · obtain ⟨id, hid, m, hq⟩ := Agenda.exists_of_mem_inTurn hq
    obtain ⟨rule, hrule, m', hq⟩ := Agenda.exists_of_mem_inTurn hq
    obtain ⟨f, hf, rfl⟩ := ChoiceRule.exists_of_mem_questions hq
    exact .inr ⟨f, List.mem_append_right _ (List.mem_flatMap.mpr ⟨rule, hrule, hf⟩), _,
      Answers.getElem!_mem_objects hid, rfl⟩

/-- Rules and constraints that stay within the attributes are asked about over all attributes. -/
theorem reach_of_mem_questions (hconstraints : constraints.reach ≤ v.size)
    (hrules : ∀ f ∈ ruleFormulas penaltyRules choiceRules, f.reach ≤ v.size) {q : Query}
    (hq : q ∈ questions v constraints penaltyRules choiceRules answers) :
    q.formula.reach = v.size := by
  rcases mem_questions hq with rfl | ⟨f, hf, object, hobject, rfl⟩
  · exact Formula.reach_spanning hconstraints
  · exact (Vocabulary.reach_pinned hobject).trans (Nat.max_eq_left (hrules f hf))

theorem atoms_of_mem_questions (hconstraints : constraints.reach ≤ v.size)
    (hrules : ∀ f ∈ ruleFormulas penaltyRules choiceRules, f.atoms ≤ v.size) {q : Query}
    (hq : q ∈ questions v constraints penaltyRules choiceRules answers) :
    q.formula.atoms = v.size := by
  rcases mem_questions hq with rfl | ⟨f, hf, object, hobject, rfl⟩
  · exact Formula.atoms_spanning hconstraints
  · exact (Vocabulary.atoms_pinned hobject).trans (Nat.max_eq_left (hrules f hf))

/-! ## Exchanges and results -/

/-- How the exchanges of an evaluation and its result fit together, for answers that agree with the
exchanges. -/
structure Questioned (v : Vocabulary) (constraints : Formula) (penaltyRules : List PenaltyRule)
    (choiceRules : List ChoiceRule) (answers : Answers) (exchanges : List Exchange)
    (result : Except Error Problem) : Prop where
  /-- Objects are asked about in the order of their numbers. -/
  pairwise_objects : (answers.feasible 0 v).Pairwise (· < ·)
  /-- What is asked is the beginning of all questions. -/
  queries_isPrefix : exchanges.map Exchange.query <+:
    questions v constraints penaltyRules choiceRules answers
  /-- A question without an answer is the last one, and its error is the result. -/
  of_error : ∀ (i : Nat) (e : Exchange) (err : Oracle.Error), exchanges[i]? = some e →
    e.error? = some err → i + 1 = exchanges.length ∧ result = .error (.oracle err)
  /-- The first object whose total exceeds the limit is the last one that is asked about. -/
  of_overflows : (∀ e ∈ exchanges, e.error? = none) → ∀ i id : Nat,
    (answers.feasible 0 v)[i]? = some id → OverflowsAt penaltyRules answers i →
    (∀ j < i, ¬ OverflowsAt penaltyRules answers j) →
      exchanges.map Exchange.query =
          chargeQuestions v constraints penaltyRules ((answers.feasible 0 v).take (i + 1)) ∧
        result = .error (.penaltyOverflow id)
  /-- In all other cases everything is asked and a problem is the result. -/
  of_answered : (∀ e ∈ exchanges, e.error? = none) →
    (∀ i < (answers.feasible 0 v).length, ¬ OverflowsAt penaltyRules answers i) →
      exchanges.map Exchange.query = questions v constraints penaltyRules choiceRules answers ∧
        ∃ p, result = .ok p ∧ p.feasible = answers.feasible 0 v
  /-- Where no atom of the constraints and the rules is beyond the attributes, all attributes and
  nothing else occur in each question. -/
  reach : constraints.reach ≤ v.size →
    (∀ f ∈ ruleFormulas penaltyRules choiceRules, f.reach ≤ v.size) →
    ∀ e ∈ exchanges, e.query.formula.reach = v.size
  /-- Where the rules do not range beyond the attributes, each question ranges over the
  attributes. -/
  atoms : constraints.reach ≤ v.size →
    (∀ f ∈ ruleFormulas penaltyRules choiceRules, f.atoms ≤ v.size) →
    ∀ e ∈ exchanges, e.query.formula.atoms = v.size

/-- Exchanges that end as the plan of an evaluation says fit the result. -/
theorem questioned_of_ends {exchanges : List Exchange} {result : Except Error Problem}
    (hquestions : ∀ feasible,
      (D feasible).questions = DegreeTable.questions choiceRules v.objects feasible)
    (hresult : ∀ feasible answers n, ∃ degrees, (D feasible).result answers n = .ok degrees)
    (h : Ends Error.oracle ((plan v constraints penaltyRules choiceRules D).questions answers 0)
      ((plan v constraints penaltyRules choiceRules D).result answers 0) exchanges result) :
    Questioned v constraints penaltyRules choiceRules answers exchanges result := by
  have hqueries : exchanges.map Exchange.query <+:
      questions v constraints penaltyRules choiceRules answers :=
    h.queries_isPrefix.trans (questions_plan_isPrefix hquestions hresult)
  have hmem : ∀ e ∈ exchanges, e.query ∈ questions v constraints penaltyRules choiceRules answers :=
    fun e he => hqueries.subset (List.mem_map_of_mem he)
  exact {
    pairwise_objects := Answers.pairwise_feasible
    queries_isPrefix := hqueries
    of_error := fun i e err he herr => h.of_error he herr
    of_overflows := fun hanswered i id hid hoverflows hbefore => by
      rw [← (plan_of_overflows hid hoverflows hbefore).1,
        ← (plan_of_overflows hid hoverflows hbefore).2]
      exact h.of_answered hanswered
    of_answered := fun hanswered hnone => by
      obtain ⟨hasked, p, hp, hfeasible⟩ := plan_of_not_overflows hquestions hresult hnone
      obtain ⟨hall, rfl⟩ := h.of_answered hanswered
      exact ⟨hall.trans hasked, p, hp, hfeasible⟩
    reach := fun hconstraints hrules e he =>
      reach_of_mem_questions hconstraints hrules (hmem e he)
    atoms := fun hconstraints hrules e he =>
      atoms_of_mem_questions hconstraints hrules (hmem e he) }

/-- **Questions.** Once the number of attributes and the names of the rules are accepted, whatever
the oracle answers and wherever it fails: keeping a record changes nothing else, and for all answers
that agree with the record, the questions are those that the answers determine, up to the first one
without an answer or the first total above the limit. -/
theorem questioned_of_evaluate (hsize : v.size ≤ config.attributeLimit)
    (hpenalty : (penaltyRules.map PenaltyRule.name).Nodup)
    (hchoice : (choiceRules.map ChoiceRule.name).Nodup) (s : Session σ) :
    let run := (evaluate o.recorded config v constraints penaltyRules choiceRules).outcome
      s.recording
    (evaluate o config v constraints penaltyRules choiceRules).outcome s =
        (run.1, run.2.unrecorded) ∧
      (∃ answers : Answers, answers.AgreeFrom 0 run.2.oracle.exchanges.toList) ∧
      ∀ answers : Answers, answers.AgreeFrom 0 run.2.oracle.exchanges.toList →
        Questioned v constraints penaltyRules choiceRules answers run.2.oracle.exchanges.toList
          run.1 := by
  choose D hD hquestions hresult using fun feasible =>
    (DegreeTable.asks_score o choiceRules v.objects feasible).adapt Error.oracle
  refine ⟨records_evaluate o config v constraints penaltyRules choiceRules s.recording,
    Answers.exists_agreeFrom 0 _, fun answers hagree => ?_⟩
  have hexecutes : Executes Error.oracle
      (evaluate o.recorded config v constraints penaltyRules choiceRules)
      (plan v constraints penaltyRules choiceRules D) := executes_evaluate hsize hpenalty hchoice hD
  obtain ⟨es, hes, hends⟩ := hexecutes s.recording
  have hexchanges : s.recording.oracle.exchanges.toList = [] := rfl
  rw [hexchanges, List.nil_append] at hes
  rw [hes] at hagree ⊢
  exact questioned_of_ends hquestions hresult (hends answers 0 hagree)

/-- An oracle to which two dinners are feasible. -/
def twoDinners : Oracle (List (Except Oracle.Error Bool)) :=
  .scripted (.ok [[⟨0, true⟩, ⟨1, false⟩], [⟨0, false⟩, ⟨1, false⟩]])

/-- The recorded evaluation of dinners by an oracle that has answers about the first one only. -/
def twoDinnersRun : Except Error Problem × Session (Recorded (List (Except Oracle.Error Bool))) :=
  (evaluate twoDinners.recorded {} dinnerVocabulary (.ofClauses 2 []) steepRules meatRules).outcome
    (Session.recording { oracle := [.ok true, .ok false] })

/-- The question for the first rule about the second dinner has no answer. It is the last one, and
its error is the result. -/
theorem questioned_of_evaluate_twoDinners :
    twoDinnersRun.1 = .error (.oracle .missingModel) ∧
      twoDinnersRun.2.oracle.exchanges.toList.map Exchange.query =
        [.models ((Formula.ofClauses 2 []).spanning 2),
          .satisfiable ((dinnerVocabulary.object 0).pinned (.ofClauses 2 [[⟨0, true⟩]])),
          .satisfiable ((dinnerVocabulary.object 0).pinned (.ofClauses 2 [[⟨1, true⟩]])),
          .satisfiable ((dinnerVocabulary.object 2).pinned (.ofClauses 2 [[⟨0, true⟩]]))] ∧
      ∃ answers : Answers, answers.AgreeFrom 0 twoDinnersRun.2.oracle.exchanges.toList ∧
        Questioned dinnerVocabulary (.ofClauses 2 []) steepRules meatRules answers
          twoDinnersRun.2.oracle.exchanges.toList twoDinnersRun.1 := by
  obtain ⟨-, ⟨answers, hanswers⟩, hall⟩ :=
    @questioned_of_evaluate _ twoDinners {} dinnerVocabulary (.ofClauses 2 []) steepRules meatRules
      (by decide) (by decide) (by decide) { oracle := [.ok true, .ok false] }
  have hquestioned := hall answers hanswers
  have hlast : twoDinnersRun.2.oracle.exchanges.toList[3]?.bind Exchange.error? =
      some .missingModel := by decide
  obtain ⟨e, he, herr⟩ := Option.bind_eq_some_iff.mp hlast
  exact ⟨(hquestioned.of_error 3 e .missingModel he herr).2, by decide, answers, hanswers,
    hquestioned⟩

end Problem

end PreferenceLogic
