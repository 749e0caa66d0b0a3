import PreferenceLogic.Oracle.Solver
import PreferenceLogic.Problem.Load
import PreferenceLogic.Proofs.Feasibility
import PreferenceLogic.Proofs.File.ContentLines
import PreferenceLogic.Proofs.Score.Degree
import PreferenceLogic.Proofs.Score.Penalty

/-!
# Evaluated problems

An evaluation that returns has checked the number of attributes and the names of the rules, found
the feasible objects and scored them. A problem that is loaded is an evaluation of what the four
files are read as.

Definitions:
* `Problem.Evaluated`: what is known of a problem that an evaluation returns.
* `Problem.Readings`: what the four files are read as.
* `Problem.dinner`: the files of a small problem.

Results:
* `Problem.evaluated_of_returns`, `Problem.exists_evaluate_returns`: an evaluation that returns, and
  one that has to return because no object is feasible.
* `Problem.Evaluated.map_object_penalties`, `Problem.Evaluated.map_object_degrees`: the rows of both
  tables stand beside the feasible objects.
* `Problem.exists_evaluate_of_load`, `Problem.exists_load_returns`: loading is reading the four
  files and evaluating.
-/

namespace PreferenceLogic

/-! ## Rulebooks -/

theorem Rulebook.ofRules_eq_ok_iff {penalty : List PenaltyRule} {choice : List ChoiceRule}
    {rules : Rulebook} :
    ofRules penalty choice = .ok rules ↔
      rules = ⟨penalty, choice⟩ ∧ (penalty.map PenaltyRule.name).Nodup ∧
        (choice.map ChoiceRule.name).Nodup := by
  rw [ofRules, ← firstRepeat?_eq_none_iff, ← firstRepeat?_eq_none_iff]
  cases firstRepeat? (penalty.map PenaltyRule.name) with
  | some name => simp
  | none =>
    cases firstRepeat? (choice.map ChoiceRule.name) with
    | some name => simp
    | none => simp [eq_comm]

namespace Problem

variable {σ : Type} {o : Oracle σ} {config : Config} {v : Vocabulary} {constraints : Formula}
  {penaltyRules : List PenaltyRule} {choiceRules : List ChoiceRule} {p : Problem} {s t : Session σ}

/-! ## Evaluation -/

/-- A problem is the evaluation of a vocabulary, constraints and rules. -/
structure Evaluated (o : Oracle σ) (config : Config) (v : Vocabulary) (constraints : Formula)
    (penaltyRules : List PenaltyRule) (choiceRules : List ChoiceRule) (p : Problem) : Prop where
  size_le : v.size ≤ config.attributeLimit
  nodup_penalty : (penaltyRules.map PenaltyRule.name).Nodup
  nodup_choice : (choiceRules.map ChoiceRule.name).Nodup
  vocabulary_eq : p.vocabulary = v
  rules_eq : p.rules = ⟨penaltyRules, choiceRules⟩
  objects_eq : p.objects = v.objects
  feasible : (o.feasible (constraints.spanning v.size) v.objects).Yields p.feasible
  penalties : (PenaltyTable.score o penaltyRules v.objects p.feasible).Yields p.penalties
  degrees : (DegreeTable.score o choiceRules v.objects p.feasible).Yields p.degrees

theorem evaluated_of_returns
    (h : (evaluate o config v constraints penaltyRules choiceRules).Returns s p t) :
    p.Evaluated o config v constraints penaltyRules choiceRules := by
  unfold evaluate at h
  split at h
  · simp at h
  · rename_i hsize
    simp only [Evaluation.returns_bind, Evaluation.returns_note, Evaluation.returns_pure,
      Evaluation.returns_ofExcept, Evaluation.returns_adapt, exists_const, exists_eq_left'] at h
    obtain ⟨rules, _, ⟨hrules, -⟩, found, _, hfound, penalties, _, hpenalties, degrees, _, hdegrees,
      rfl, -⟩ := h
    obtain ⟨rfl, hpenalty, hchoice⟩ := Rulebook.ofRules_eq_ok_iff.mp hrules
    exact {
      size_le := Nat.le_of_not_lt hsize
      nodup_penalty := hpenalty
      nodup_choice := hchoice
      vocabulary_eq := rfl
      rules_eq := rfl
      objects_eq := rfl
      feasible := hfound.yields
      penalties := hpenalties.yields
      degrees := hdegrees.yields }

namespace Evaluated

variable (h : p.Evaluated o config v constraints penaltyRules choiceRules)

include h

theorem sublist_feasible : p.feasible.Sublist (List.range (Nat.pow 2 v.size)) :=
  Vocabulary.ids_objects ▸ Oracle.sublist_of_feasible h.feasible

theorem pairwise_feasible : p.feasible.Pairwise (· < ·) :=
  List.pairwise_lt_range.sublist h.sublist_feasible

theorem lt_of_mem_feasible {id : Nat} (hid : id ∈ p.feasible) : id < 2 ^ v.size :=
  List.mem_range.mp (h.sublist_feasible.subset hid)

theorem object_mem_of_mem_feasible {id : Nat} (hid : id ∈ p.feasible) : v.object id ∈ v.objects :=
  Vocabulary.mem_objects_iff.mpr ⟨h.lt_of_mem_feasible hid, rfl⟩

/-- Whatever the oracle answers, there is an object for the number of every feasible object, so
that scoring never looks for one that is not there. -/
theorem object?_of_mem_feasible {id : Nat} (hid : id ∈ p.feasible) :
    p.object? id = some (v.object id) := by
  rw [object?, h.objects_eq, Vocabulary.getElem?_objects_iff]
  exact ⟨h.object_mem_of_mem_feasible hid, rfl⟩

/-- The lookup among the feasible objects agrees with their numbers. -/
theorem isFeasible_iff {id : Nat} : p.isFeasible id = true ↔ id ∈ p.feasible := by
  have hsorted : (p.feasible.map fun number => number).Pairwise (· < ·) := by
    rw [List.map_id']
    exact h.pairwise_feasible
  rw [isFeasible, lookup?_isSome_iff hsorted, List.map_id']

theorem rows_penalties :
    List.Forall₂ (fun id row => PenaltyRow.Scores o penaltyRules id (v.object id) row) p.feasible
      p.penalties.rows := by
  refine forall₂_imp_of_mem (PenaltyTable.of_score h.penalties).2 fun id hid row hrow => ?_
  rwa [Vocabulary.getElem!_objects (h.lt_of_mem_feasible hid)] at hrow

theorem rows_degrees :
    List.Forall₂ (fun id row => DegreeRow.Scores o choiceRules id (v.object id) row) p.feasible
      p.degrees.rows := by
  refine forall₂_imp_of_mem (DegreeTable.of_score h.degrees).2 fun id hid row hrow => ?_
  rwa [Vocabulary.getElem!_objects (h.lt_of_mem_feasible hid)] at hrow

/-- The rows of the penalty table stand beside the feasible objects. -/
theorem map_object_penalties : p.penalties.rows.map PenaltyRow.object = p.feasible := by
  have hobjects := map_eq_of_forall₂ (f := id) (h.rows_penalties.imp fun _ _ hrow => hrow.object_eq)
  rw [← hobjects, List.map_id]

/-- The rows of the degree table stand beside the feasible objects. -/
theorem map_object_degrees : p.degrees.rows.map DegreeRow.object = p.feasible := by
  have hobjects := map_eq_of_forall₂ (f := id) (h.rows_degrees.imp fun _ _ hrow => hrow.object_eq)
  rw [← hobjects, List.map_id]

theorem pairwise_penalties : (p.penalties.rows.map PenaltyRow.object).Pairwise (· < ·) := by
  rw [h.map_object_penalties]
  exact h.pairwise_feasible

theorem pairwise_degrees : (p.degrees.rows.map DegreeRow.object).Pairwise (· < ·) := by
  rw [h.map_object_degrees]
  exact h.pairwise_feasible

end Evaluated

/-- Where no object is feasible there is nothing to score, so nothing can go wrong after the
question for the models. -/
theorem exists_evaluate_returns (hsize : v.size ≤ config.attributeLimit)
    (hpenalty : (penaltyRules.map PenaltyRule.name).Nodup)
    (hchoice : (choiceRules.map ChoiceRule.name).Nodup) (ho : o.AnswersModels)
    (hnone : ∀ found, (o.feasible (constraints.spanning v.size) v.objects).Yields found →
      found = []) (s : Session σ) :
    ∃ p t, (evaluate o config v constraints penaltyRules choiceRules).Returns s p t ∧
      p.feasible = [] := by
  have hrules : Rulebook.ofRules penaltyRules choiceRules = .ok ⟨penaltyRules, choiceRules⟩ :=
    Rulebook.ofRules_eq_ok_iff.mpr ⟨rfl, hpenalty, hchoice⟩
  have hfeasible : ∀ u, ∃ t,
      (o.feasible (constraints.spanning v.size) v.objects).Returns u [] t := by
    intro u
    obtain ⟨found, t, h⟩ :=
      Oracle.exists_returns_feasible ho (constraints.spanning v.size) v.objects u
    rw [hnone found h.yields] at h
    exact ⟨t, h⟩
  unfold evaluate
  rw [if_neg (Nat.not_lt.mpr hsize)]
  simp only [Evaluation.returns_bind, Evaluation.returns_note, Evaluation.returns_pure,
    Evaluation.returns_ofExcept, Evaluation.returns_adapt, PenaltyTable.score, DegreeTable.score,
    exists_const, exists_eq_left']
  obtain ⟨t, ht⟩ := hfeasible _
  exact ⟨_, _, ⟨_, _, ⟨hrules, rfl⟩, [], t, ht, _, _, ⟨[], t, by simp, rfl, rfl⟩, _, _,
    ⟨[], t, by simp, rfl, rfl⟩, rfl, rfl⟩, rfl⟩

/-! ## Loading -/

/-- The four files are read as a vocabulary, constraints and rules. -/
structure Readings (attributes constraints penalty qualitative : List UInt8) (v : Vocabulary)
    (f : Formula) (penaltyRules : List PenaltyRule) (choiceRules : List ChoiceRule) : Prop where
  attributes : Vocabulary.read attributes = .ok v
  constraints : Formula.read v constraints = .ok f
  penalty : PenaltyRule.read v penalty = .ok penaltyRules
  qualitative : ChoiceRule.read v qualitative = .ok choiceRules

theorem returns_content {file : Except SystemError (List UInt8)} {bytes : List UInt8} :
    Evaluation.Returns (content file) s bytes t ↔ file = .ok bytes ∧ s = t := by
  rw [content, Evaluation.returns_ofExcept, mapError_eq_ok_iff]

theorem returns_readNoting {α : Type} {result : Except ReadError α} {count : α → Nat}
    {what : String} {entries : α} :
    Evaluation.Returns (readNoting result count what) s entries t ↔
      result = .ok entries ∧
        { s with journal := s.journal.push (.read .debug (count entries) what) } = t := by
  simp only [readNoting, Evaluation.returns_bind, Evaluation.returns_ofExcept, mapError_eq_ok_iff,
    Evaluation.returns_note, Evaluation.returns_pure, exists_const, exists_eq_left']
  constructor
  · intro h
    obtain ⟨_, _, ⟨hresult, hs⟩, heq, ht⟩ := h
    subst heq hs
    exact ⟨hresult, ht⟩
  · intro h
    obtain ⟨hresult, ht⟩ := h
    exact ⟨entries, s, ⟨hresult, rfl⟩, rfl, ht⟩

section

variable {attributes constraints penalty qualitative : List UInt8}

/-- A problem that is loaded is the evaluation of what its files are read as. -/
theorem exists_evaluate_of_load
    (h : (load o config (.ofContents attributes constraints penalty qualitative)).Returns s p t) :
    ∃ v f penaltyRules choiceRules,
      Readings attributes constraints penalty qualitative v f penaltyRules choiceRules ∧
        ∃ u, (evaluate o config v f penaltyRules choiceRules).Returns u p t := by
  simp only [load, readVocabulary, readConstraints, readPenaltyRules, readChoiceRules,
    Files.ofContents, Evaluation.returns_bind, Evaluation.returns_note, returns_content,
    returns_readNoting, Evaluation.returns_adapt, exists_const, exists_eq_left'] at h
  obtain ⟨_, _, ⟨⟨⟩, -⟩, v, _, ⟨hv, -⟩, _, _, ⟨⟨⟩, -⟩, f, _, ⟨hf, -⟩, _, _, ⟨⟨⟩, -⟩, penaltyRules,
    _, ⟨hpenalty, -⟩, _, _, ⟨⟨⟩, -⟩, choiceRules, _, ⟨hchoice, -⟩, hreturns⟩ := h
  exact ⟨v, f, penaltyRules, choiceRules, ⟨hv, hf, hpenalty, hchoice⟩, _, hreturns⟩

theorem exists_readings_of_load
    (h : (load o config (.ofContents attributes constraints penalty qualitative)).Returns s p t) :
    ∃ v f penaltyRules choiceRules,
      Readings attributes constraints penalty qualitative v f penaltyRules choiceRules ∧
        p.Evaluated o config v f penaltyRules choiceRules := by
  obtain ⟨v, f, penaltyRules, choiceRules, hread, u, hreturns⟩ := exists_evaluate_of_load h
  exact ⟨v, f, penaltyRules, choiceRules, hread, evaluated_of_returns hreturns⟩

/-- Files that can be read are loaded if what they are read as is evaluated. -/
theorem exists_load_returns {f : Formula}
    (h : Readings attributes constraints penalty qualitative v f penaltyRules choiceRules)
    {P : Problem → Prop}
    (heval : ∀ u, ∃ p t, (evaluate o config v f penaltyRules choiceRules).Returns u p t ∧ P p)
    (s : Session σ) :
    ∃ p t, (load o config (.ofContents attributes constraints penalty qualitative)).Returns s p t ∧
      P p := by
  simp only [load, readVocabulary, readConstraints, readPenaltyRules, readChoiceRules,
    Files.ofContents, Evaluation.returns_bind, Evaluation.returns_note, returns_content,
    returns_readNoting, Evaluation.returns_adapt, exists_const, exists_eq_left']
  obtain ⟨p, t, hp, hP⟩ := heval _
  exact ⟨p, t, ⟨_, _, ⟨rfl, rfl⟩, v, _, ⟨h.attributes, rfl⟩, _, _, ⟨rfl, rfl⟩, f, _,
    ⟨h.constraints, rfl⟩, _, _, ⟨rfl, rfl⟩, penaltyRules, _, ⟨h.penalty, rfl⟩, _, _, ⟨rfl, rfl⟩,
    choiceRules, _, ⟨h.qualitative, rfl⟩, hp⟩, hP⟩

end

/-! ## A dinner -/

/-- The bytes of a file. -/
def bytes (content : String) : List UInt8 := Utf8.encode content.toList

/-- Fish or meat, with white wine or red. -/
def dinnerVocabulary : Vocabulary where
  attributes :=
    [⟨"dish".toList, "fish".toList, "meat".toList⟩, ⟨"wine".toList, "white".toList, "red".toList⟩]
  nodup_labels := by decide

/-- Fish costs 3 where it is denied, and white wine as much as makes the largest total. -/
def steepRules : List PenaltyRule :=
  [⟨"fish".toList, .ofClauses 2 [[⟨0, true⟩]], 3⟩,
    ⟨"white".toList, .ofClauses 2 [[⟨1, true⟩]], penaltyLimit - 3⟩]

/-- Meat is better than fish. -/
def meatRules : List ChoiceRule :=
  [⟨"meat BT fish".toList, [.ofClauses 2 [[⟨0, false⟩]], .ofClauses 2 [[⟨0, true⟩]]], none⟩]

/-- The declarations of the attributes. -/
def dinnerAttributes : List UInt8 := bytes "dish: fish, meat\nwine: white, red\n"

/-- The rules of penalty logic. -/
def dinnerPenalties : List UInt8 := bytes "NOT fish OR white, 3\nred, 2\n"

/-- The rules of qualitative choice logic. -/
def dinnerChoices : List UInt8 := bytes "white BT red\nmeat BT fish IF red\n"

/-- The files of a problem about the choice of a dinner, with some constraints. -/
def dinner (constraints : String) : Files :=
  .ofContents dinnerAttributes (bytes constraints) dinnerPenalties dinnerChoices

set_option maxRecDepth 10000 in
theorem exists_load_dinner :
    ∃ p t, (load Oracle.exact {} (dinner "fish OR NOT white\n")).Returns { oracle := 0 } p t ∧
      (p.feasible, p.penalties.rows, p.degrees.rows) =
        ([0, 2, 3], [⟨0, [0, 0], 0⟩, ⟨2, [3, 0], 3⟩, ⟨3, [0, 2], 2⟩],
          [⟨0, [.tier 2, .tier 1]⟩, ⟨2, [.tier 2, .tier 2]⟩, ⟨3, [.tier 1, .unsatisfied]⟩]) :=
  Evaluation.exists_returns_of_map_eq (by decide +kernel)

end Problem

end PreferenceLogic
