import PreferenceLogic.Proofs.Problem.Constraints
import PreferenceLogic.Proofs.Problem.Optimal
import PreferenceLogic.Proofs.Problem.Scores
import PreferenceLogic.Proofs.Score.Declared

/-!
# Problems as their files describe them

The four files describe a problem without any oracle: the feasible objects are those that satisfy
the constraints, and their scores are read off their labels. With an oracle that is correct and
never fails, loading gives the described problem, or an error that the files alone decide.

Definitions:
* `Vocabulary.satisfying`, `Vocabulary.satisfying?`: the objects that satisfy a file of constraints.
* `Problem.described`: the problem of a vocabulary, a file of constraints and rules.
* `Problem.overdue?`: the first feasible object that owes more than the limit.
* `Problem.judged`, `Problem.ofRules`, `Problem.ofFiles`: what scoring, evaluating and loading give.
* `Problem.Admits`: four files are read and pass the checks before the scoring.

Results:
* `Problem.load_gives`: what loading gives is decided by the files.
* `Problem.ofFiles_eq_ok_iff`, `Problem.ofFiles_eq_overflow_iff`: the problems that are loaded, and
  the objects that are reported to owe too much.
* `Problem.compare_described`, `Problem.optimal_described`: comparisons and optimal objects are
  those of the labels.
-/

namespace PreferenceLogic

/-- The objects that satisfy a file of constraints, in their order. -/
def Vocabulary.satisfying (v : Vocabulary) (constraints : List UInt8) : List Object :=
  v.objects.filter fun x => x.Satisfies constraints

/-- The object with a given number, if it satisfies a file of constraints. -/
def Vocabulary.satisfying? (v : Vocabulary) (constraints : List UInt8) (id : Nat) : Option Object :=
  lookup? Object.id (v.satisfying constraints) id

namespace Problem

variable {σ : Type} {o : Oracle σ} {config : Config} {v : Vocabulary} {rules : Rulebook}
  {attributes constraints penalty qualitative : List UInt8}

/-! ## Descriptions -/

/-- The problem with the objects that satisfy the constraints and the scores of their labels. -/
def described (v : Vocabulary) (constraints : List UInt8) (rules : Rulebook) : Problem where
  vocabulary := v
  rules := rules
  objects := v.objects
  feasible := (v.satisfying constraints).map Object.id
  penalties := ⟨rules.penalty.map PenaltyRule.name,
    (v.satisfying constraints).map (PenaltyRow.declared rules.penalty)⟩
  degrees := ⟨rules.choice.map ChoiceRule.name,
    (v.satisfying constraints).map (DegreeRow.declared rules.choice)⟩

/-- The first object that satisfies the constraints and owes more than the limit. -/
def overdue? (v : Vocabulary) (constraints : List UInt8) (rules : Rulebook) : Option Object :=
  (v.satisfying constraints).find? fun x =>
    penaltyLimit < (PenaltyRow.declared rules.penalty x).total

/-- What scoring gives: the described problem, unless some feasible object owes too much. -/
def judged (v : Vocabulary) (constraints : List UInt8) (rules : Rulebook) :
    Except Error Problem :=
  match overdue? v constraints rules with
  | some x => .error (.penaltyOverflow x.id)
  | none => .ok (described v constraints rules)

/-- What evaluating gives, read off the constraints and the rules. -/
def ofRules (config : Config) (v : Vocabulary) (constraints : List UInt8)
    (penaltyRules : List PenaltyRule) (choiceRules : List ChoiceRule) : Except Error Problem :=
  if config.attributeLimit < v.size then
    .error (.tooManyAttributes v.size config.attributeLimit)
  else Rulebook.ofRules penaltyRules choiceRules >>= judged v constraints

/-- What loading gives, read off the four files. -/
def ofFiles (config : Config) (attributes constraints penalty qualitative : List UInt8) :
    Except LoadError Problem := do
  let v ← (Vocabulary.read attributes).mapError .read
  let _ ← (Formula.read v constraints).mapError .read
  let penaltyRules ← (PenaltyRule.read v penalty).mapError .read
  let choiceRules ← (ChoiceRule.read v qualitative).mapError .read
  (ofRules config v constraints penaltyRules choiceRules).mapError .problem

/-- Four files are read and pass all checks that come before the scoring. -/
structure Admits (config : Config) (attributes constraints penalty qualitative : List UInt8)
    (v : Vocabulary) (rules : Rulebook) : Prop where
  attributes : Vocabulary.read attributes = .ok v
  constraints : ∃ f, Formula.read v constraints = .ok f
  penalty : PenaltyRule.read v penalty = .ok rules.penalty
  choice : ChoiceRule.read v qualitative = .ok rules.choice
  size_le : v.size ≤ config.attributeLimit
  nodup_penalty : (rules.penalty.map PenaltyRule.name).Nodup
  nodup_choice : (rules.choice.map ChoiceRule.name).Nodup

theorem judged_eq_ok_iff {p : Problem} :
    judged v constraints rules = .ok p ↔
      overdue? v constraints rules = none ∧ described v constraints rules = p := by
  unfold judged
  cases overdue? v constraints rules <;> simp

theorem judged_eq_overflow_iff {id : Nat} :
    judged v constraints rules = .error (.penaltyOverflow id) ↔
      ∃ x, overdue? v constraints rules = some x ∧ x.id = id := by
  unfold judged
  cases overdue? v constraints rules <;> simp

theorem ofRules_eq_ok_iff {penaltyRules : List PenaltyRule} {choiceRules : List ChoiceRule}
    {p : Problem} :
    ofRules config v constraints penaltyRules choiceRules = .ok p ↔
      v.size ≤ config.attributeLimit ∧ (penaltyRules.map PenaltyRule.name).Nodup ∧
        (choiceRules.map ChoiceRule.name).Nodup ∧
          judged v constraints ⟨penaltyRules, choiceRules⟩ = .ok p := by
  unfold ofRules
  split
  · rename_i hsize
    exact iff_of_false (nomatch ·) fun h => Nat.not_lt.mpr h.1 hsize
  · rename_i hsize
    simp only [bind_eq_ok_iff, Rulebook.ofRules_eq_ok_iff, Nat.le_of_not_lt hsize, true_and,
      and_assoc, exists_eq_left]

theorem ofRules_eq_overflow_iff {penaltyRules : List PenaltyRule} {choiceRules : List ChoiceRule}
    {id : Nat} :
    ofRules config v constraints penaltyRules choiceRules = .error (.penaltyOverflow id) ↔
      v.size ≤ config.attributeLimit ∧ (penaltyRules.map PenaltyRule.name).Nodup ∧
        (choiceRules.map ChoiceRule.name).Nodup ∧
          judged v constraints ⟨penaltyRules, choiceRules⟩ = .error (.penaltyOverflow id) := by
  have hrules : Rulebook.ofRules penaltyRules choiceRules ≠ .error (.penaltyOverflow id) := by
    unfold Rulebook.ofRules
    split
    · simp
    · split <;> simp
  unfold ofRules
  split
  · rename_i hsize
    exact iff_of_false (by simp) fun h => Nat.not_lt.mpr h.1 hsize
  · rename_i hsize
    simp only [bind_eq_error_iff, hrules, Rulebook.ofRules_eq_ok_iff, Nat.le_of_not_lt hsize,
      true_and, false_or, and_assoc, exists_eq_left]

theorem exists_admits_iff {P : Vocabulary → Rulebook → Prop} :
    (∃ v, Vocabulary.read attributes = .ok v ∧ ∃ f, Formula.read v constraints = .ok f ∧
      ∃ penaltyRules, PenaltyRule.read v penalty = .ok penaltyRules ∧
        ∃ choiceRules, ChoiceRule.read v qualitative = .ok choiceRules ∧
          v.size ≤ config.attributeLimit ∧ (penaltyRules.map PenaltyRule.name).Nodup ∧
            (choiceRules.map ChoiceRule.name).Nodup ∧ P v ⟨penaltyRules, choiceRules⟩) ↔
      ∃ v rules, Admits config attributes constraints penalty qualitative v rules ∧ P v rules := by
  constructor
  · rintro ⟨v, hv, f, hf, penaltyRules, hpenalty, choiceRules, hchoice, hsize, hnames, hnames', hP⟩
    exact ⟨v, ⟨penaltyRules, choiceRules⟩, ⟨hv, ⟨f, hf⟩, hpenalty, hchoice, hsize, hnames, hnames'⟩,
      hP⟩
  · rintro ⟨v, rules, h, hP⟩
    obtain ⟨f, hf⟩ := h.constraints
    exact ⟨v, h.attributes, f, hf, _, h.penalty, _, h.choice, h.size_le, h.nodup_penalty,
      h.nodup_choice, hP⟩

theorem ofFiles_eq_ok_iff {p : Problem} :
    ofFiles config attributes constraints penalty qualitative = .ok p ↔
      ∃ v rules, Admits config attributes constraints penalty qualitative v rules ∧
        judged v constraints rules = .ok p := by
  simp only [ofFiles, bind_eq_ok_iff, mapError_eq_ok_iff, ofRules_eq_ok_iff]
  exact exists_admits_iff (P := fun v rules => judged v constraints rules = .ok p)

theorem ofFiles_eq_overflow_iff {id : Nat} :
    ofFiles config attributes constraints penalty qualitative =
        .error (.problem (.penaltyOverflow id)) ↔
      ∃ v rules, Admits config attributes constraints penalty qualitative v rules ∧
        judged v constraints rules = .error (.penaltyOverflow id) := by
  simp only [ofFiles, bind_eq_error_iff, mapError_eq_ok_iff, mapError_eq_error_iff,
    reduceCtorEq, and_false, exists_false, false_or, LoadError.problem.injEq, exists_eq_right,
    ofRules_eq_overflow_iff]
  exact exists_admits_iff (P := fun v rules => judged v constraints rules = .error _)

/-! ## Loading with a reliable oracle -/

theorem gives_content (file : List UInt8) :
    Evaluation.Gives (content (σ := σ) (.ok file)) (.ok file) :=
  Evaluation.gives_ofExcept _

theorem gives_readNoting {α : Type} (result : Except ReadError α) (count : α → Nat)
    (what : String) :
    Evaluation.Gives (readNoting (σ := σ) result count what) (result.mapError .read) := by
  have hresult := Evaluation.gives_ofExcept (σ := σ) (result.mapError LoadError.read)
  unfold readNoting
  cases result with
  | error cause => exact hresult.error_bind _
  | ok entries => exact hresult.ok_bind (Evaluation.gives_pure entries).note_bind

section

variable (ho : o.Reliable)

include ho

theorem gives_feasible {f : Formula} (hread : Formula.read v constraints = .ok f) :
    (o.feasible (f.spanning v.size) v.objects).Gives
      (.ok ((v.satisfying constraints).map Object.id)) := by
  have hfilter : (v.objects.filter fun x => f.eval x.valuation) = v.satisfying constraints := by
    refine List.filter_congr fun x hx => ?_
    rw [Bool.eq_iff_iff, decide_eq_true_iff, Object.satisfies_iff_eval hread hx]
  rw [← hfilter]
  exact ho.gives_feasible (Formula.reach_le_of_read hread)

theorem evaluate_gives {f : Formula} {penaltyRules : List PenaltyRule}
    {choiceRules : List ChoiceRule} (hconstraints : Formula.read v constraints = .ok f)
    (hpenalty : ∀ rule ∈ penaltyRules, Formula.parse v rule.name = .ok rule.formula)
    (hchoice : ∀ rule ∈ choiceRules, rule.ReadFrom v rule.name) :
    (evaluate o config v f penaltyRules choiceRules).Gives
      (ofRules config v constraints penaltyRules choiceRules) := by
  have hfound : v.satisfying constraints ⊆ v.objects := List.filter_sublist.subset
  unfold evaluate ofRules
  split
  · exact Evaluation.gives_throw _
  · refine (Evaluation.gives_ofExcept _).bind fun rules hrules => Evaluation.Gives.note_bind ?_
    obtain ⟨rfl, -, -⟩ := Rulebook.ofRules_eq_ok_iff.mp hrules
    refine ((gives_feasible ho hconstraints).adapt Error.oracle).ok_bind ?_
    have hpenalties := ho.gives_penaltyTable hfound hpenalty
    have hdegrees := (ho.gives_degreeTable hfound hchoice).adapt Error.oracle
    unfold judged overdue?
    cases hfind : (v.satisfying constraints).find? fun x =>
        penaltyLimit < (PenaltyRow.declared penaltyRules x).total with
    | some x =>
      rw [hfind] at hpenalties
      exact hpenalties.error_bind _
    | none =>
      rw [hfind] at hpenalties
      refine hpenalties.ok_bind (hdegrees.ok_bind ?_)
      exact (Evaluation.gives_pure (described v constraints ⟨penaltyRules, choiceRules⟩)).note_bind

/-- With a reliable oracle the files decide what loading gives. -/
theorem load_gives (config : Config) (attributes constraints penalty qualitative : List UInt8) :
    Evaluation.Gives (load o config (.ofContents attributes constraints penalty qualitative))
      (ofFiles config attributes constraints penalty qualitative) := by
  unfold load ofFiles readVocabulary readConstraints readPenaltyRules readChoiceRules
  refine (gives_content _).ok_bind ((gives_readNoting _ _ _).bind fun v _ => ?_)
  refine Evaluation.Gives.note_bind ?_
  refine (gives_content _).ok_bind ((gives_readNoting _ _ _).bind fun f hf => ?_)
  refine (gives_content _).ok_bind ((gives_readNoting _ _ _).bind fun penaltyRules hpenalty => ?_)
  refine (gives_content _).ok_bind ((gives_readNoting _ _ _).bind fun choiceRules hchoice => ?_)
  rw [mapError_eq_ok_iff] at hf hpenalty hchoice
  refine Evaluation.Gives.note_bind ?_
  exact (evaluate_gives ho hf (PenaltyRule.of_read hpenalty).2 (ChoiceRule.of_read hchoice).2).adapt
    LoadError.problem

end

/-! ## Questions about the description -/

theorem pairwise_ids_satisfying : ((v.satisfying constraints).map Object.id).Pairwise (· < ·) :=
  Vocabulary.pairwise_ids_of_sublist List.filter_sublist

theorem mem_satisfying_iff {x : Object} :
    x ∈ v.satisfying constraints ↔ x ∈ v.objects ∧ x.Satisfies constraints := by
  rw [Vocabulary.satisfying, List.mem_filter, decide_eq_true_iff]

theorem satisfying?_eq_some_iff {id : Nat} {x : Object} :
    v.satisfying? constraints id = some x ↔
      x ∈ v.objects ∧ x.Satisfies constraints ∧ x.id = id := by
  rw [Vocabulary.satisfying?, lookup?_eq_some_iff pairwise_ids_satisfying, mem_satisfying_iff,
    and_assoc]

theorem row?_described (id : Nat) :
    (described v constraints rules).penalties.row? id =
      (v.satisfying? constraints id).map (PenaltyRow.declared rules.penalty) :=
  lookup?_map pairwise_ids_satisfying

theorem degrees?_described (id : Nat) :
    (described v constraints rules).degrees.degrees? id =
      (v.satisfying? constraints id).map fun x => (DegreeRow.declared rules.choice x).degrees := by
  have hrow : lookup? DegreeRow.object (described v constraints rules).degrees.rows id =
      (v.satisfying? constraints id).map (DegreeRow.declared rules.choice) :=
    lookup?_map pairwise_ids_satisfying
  rw [DegreeTable.degrees?, hrow, Option.map_map]
  rfl

theorem total?_described (id : Nat) :
    (described v constraints rules).penalties.total? id =
      (v.satisfying? constraints id).map fun x =>
        (PenaltyRow.declared rules.penalty x).total := by
  rw [PenaltyTable.total?, row?_described, Option.map_map]
  rfl

theorem compare_described (logic : Logic) (a b : Nat) :
    (described v constraints rules).compare logic a b = do
      let x ← scoreOf (v.satisfying? constraints) a
      let y ← scoreOf (v.satisfying? constraints) b
      return rules.prefer logic x y := by
  unfold compare
  cases logic with
  | penalty =>
    simp only [compareByPenalty, scoreOf, total?_described]
    cases v.satisfying? constraints a <;> cases v.satisfying? constraints b <;> rfl
  | qualitative =>
    simp only [compareByDegrees, scoreOf, degrees?_described]
    cases v.satisfying? constraints a <;> cases v.satisfying? constraints b <;> rfl

theorem optimal_described (logic : Logic) :
    (described v constraints rules).optimal logic =
      (undominated (rules.prefer logic) (v.satisfying constraints)).map Object.id := by
  unfold optimal
  cases logic with
  | penalty =>
    rw [PenaltyTable.optimal_eq, described, undominated_map, List.map_map]
    rfl
  | qualitative =>
    rw [DegreeTable.optimal_eq, described, undominated_map, List.map_map]
    rfl

theorem satisfying?_id {x : Object} (hx : x ∈ v.objects) :
    v.satisfying? constraints x.id = if x.Satisfies constraints then some x else none := by
  split
  · rename_i hsat
    exact satisfying?_eq_some_iff.mpr ⟨hx, hsat, rfl⟩
  · rename_i hsat
    rw [Option.eq_none_iff_forall_ne_some]
    intro y hy
    obtain ⟨hymem, hysat, hid⟩ := satisfying?_eq_some_iff.mp hy
    rw [Vocabulary.eq_of_id_eq hymem hx hid] at hysat
    exact hsat hysat

theorem mem_feasible_described_iff {x : Object} (hx : x ∈ v.objects) :
    x.id ∈ (described v constraints rules).feasible ↔ x.Satisfies constraints := by
  have hfound : v.satisfying constraints ⊆ v.objects := List.filter_sublist.subset
  show x.id ∈ (v.satisfying constraints).map Object.id ↔ _
  rw [Vocabulary.id_mem_map_iff hfound hx, mem_satisfying_iff]
  exact and_iff_right hx

theorem compare_described_eq_ok_iff {logic : Logic} {x y : Object} (hx : x ∈ v.objects)
    (hy : y ∈ v.objects) {c : Comparison} :
    (described v constraints rules).compare logic x.id y.id = .ok c ↔
      x.Satisfies constraints ∧ y.Satisfies constraints ∧ rules.prefer logic x y = c := by
  rw [compare_described]
  simp only [bind_eq_ok_iff, scoreOf_eq_ok_iff, satisfying?_id hx, satisfying?_id hy,
    Option.ite_none_right_eq_some, Option.some.injEq, and_assoc, exists_and_left,
    exists_eq_left']
  exact and_congr_right fun _ => and_congr_right fun _ => ⟨Except.ok.inj, congrArg Except.ok⟩

/-- Whether an object is optimal is a question about all objects that satisfy the constraints. -/
theorem mem_optimal_described_iff {logic : Logic} {x : Object} (hx : x ∈ v.objects) :
    x.id ∈ (described v constraints rules).optimal logic ↔
      x.Satisfies constraints ∧
        ∀ y ∈ v.objects, y.Satisfies constraints → rules.prefer logic y x ≠ .first := by
  rw [optimal_described, List.mem_map]
  simp only [mem_undominated_iff, mem_satisfying_iff, and_imp]
  constructor
  · rintro ⟨y, ⟨⟨hy, hsat⟩, hnone⟩, hid⟩
    rw [Vocabulary.eq_of_id_eq hy hx hid] at hsat hnone
    exact ⟨hsat, hnone⟩
  · rintro ⟨hsat, hnone⟩
    exact ⟨x, ⟨⟨hx, hsat⟩, hnone⟩, rfl⟩

end Problem

end PreferenceLogic
