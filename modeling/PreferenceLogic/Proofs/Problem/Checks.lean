import PreferenceLogic.Proofs.Problem.Described
import PreferenceLogic.Proofs.Problem.Questions

/-!
# Checks before the first question

Loading reads the four files, counts the attributes and compares the names of the rules, in this
order. The first check that fails decides the error, whatever else is wrong, and nothing is asked.
Once all checks are passed the oracle is asked, and only its own failure or a total above the limit
can prevent a problem from being loaded.

Definitions:
* `FirstRepeat`: an element is the first one of a list that stands earlier in it.
* `Problem.Defective`: an error is that of the first check that fails.
* `Problem.checkedPlan`, `Problem.loadPlan`: the plans of an evaluation and of loading with their
  checks.

Results:
* `firstRepeat?_eq_some_iff`: the first repeat is found.
* `Problem.executes_load`: loading executes its plan.
* `Problem.loadPlan_of_defective`, `Problem.loadPlan_of_admits`: where a check fails the plan has no
  question, and otherwise it is the plan of the evaluation.
* `Problem.load_fails_iff_defective`: the first check that fails decides the error.
-/

namespace PreferenceLogic

open Oracle

/-! ## Repeated names -/

/-- An element is the first one of a list that stands earlier in it. -/
def FirstRepeat (names : List Text) (name : Text) : Prop :=
  ∃ before after, names = before ++ name :: after ∧ name ∈ before ∧ before.Nodup

theorem firstRepeatAfter?_eq_some_iff {seen names : List Text} {name : Text} :
    firstRepeatAfter? seen names = some name ↔
      ∃ before after, names = before ++ name :: after ∧ (name ∈ before ∨ name ∈ seen) ∧
        before.Nodup ∧ ∀ other ∈ before, other ∉ seen := by
  induction names generalizing seen with
  | nil => simp [firstRepeatAfter?]
  | cons first rest ih =>
    rw [firstRepeatAfter?]
    by_cases hfirst : first ∈ seen
    · rw [if_pos (List.contains_iff_mem.mpr hfirst), Option.some.injEq]
      constructor
      · rintro rfl
        exact ⟨[], rest, rfl, .inr hfirst, List.nodup_nil, List.forall_mem_nil _⟩
      · rintro ⟨before, after, heq, -, -, hnew⟩
        cases before with
        | nil => exact (List.cons.inj heq).1
        | cons other before =>
          obtain ⟨rfl, -⟩ := List.cons.inj heq
          exact absurd hfirst (hnew first List.mem_cons_self)
    · rw [if_neg fun h => hfirst (List.contains_iff_mem.mp h), ih]
      constructor
      · rintro ⟨before, after, rfl, hname, hnodup, hnew⟩
        simp only [List.mem_cons, not_or] at hnew
        refine ⟨first :: before, after, rfl, ?_, ?_, ?_⟩
        · rwa [List.mem_cons, or_comm (a := name = first), or_assoc, ← List.mem_cons]
        · exact List.nodup_cons.mpr ⟨fun hmem => (hnew first hmem).1 rfl, hnodup⟩
        · exact List.forall_mem_cons.mpr ⟨hfirst, fun other hother => (hnew other hother).2⟩
      · rintro ⟨before, after, heq, hname, hnodup, hnew⟩
        cases before with
        | nil =>
          obtain ⟨rfl, -⟩ := List.cons.inj heq
          exact absurd (hname.resolve_left List.not_mem_nil) hfirst
        | cons other before =>
          obtain ⟨rfl, rfl⟩ := List.cons.inj heq
          obtain ⟨hother, hnodup⟩ := List.nodup_cons.mp hnodup
          refine ⟨before, after, rfl, ?_, hnodup, fun x hx => ?_⟩
          · rwa [List.mem_cons, or_comm (a := name = first), or_assoc, ← List.mem_cons] at hname
          · rw [List.mem_cons, not_or]
            exact ⟨fun heq => hother (heq ▸ hx), hnew x (List.mem_cons_of_mem _ hx)⟩

theorem firstRepeat?_eq_some_iff {names : List Text} {name : Text} :
    firstRepeat? names = some name ↔ FirstRepeat names name := by
  simp [firstRepeat?, FirstRepeat, firstRepeatAfter?_eq_some_iff]

theorem exists_firstRepeat {names : List Text} (h : ¬ names.Nodup) :
    ∃ name, FirstRepeat names name := by
  rw [← firstRepeat?_eq_none_iff, ← ne_eq, Option.ne_none_iff_exists'] at h
  obtain ⟨name, hname⟩ := h
  exact ⟨name, firstRepeat?_eq_some_iff.mp hname⟩

namespace Problem

variable {σ : Type} {o : Oracle σ} {config : Config} {v : Vocabulary} {f : Formula}
  {penaltyRules : List PenaltyRule} {choiceRules : List ChoiceRule}
  {attributes constraints penalty qualitative : List UInt8} {err : LoadError}

/-! ## Checks -/

/-- An error is that of the first check that fails: the files are read in turn, then the attributes
are counted, then the names of the penalty rules are compared and then those of the choice rules.
Nothing is said of the checks after the one that fails. -/
inductive Defective (config : Config) (attributes constraints penalty qualitative : List UInt8) :
    LoadError → Prop
  | attributes {cause : ReadError} (h : Vocabulary.read attributes = .error cause) :
    Defective config attributes constraints penalty qualitative (.read cause)
  | constraints {v : Vocabulary} {cause : ReadError} (hv : Vocabulary.read attributes = .ok v)
    (h : Formula.read v constraints = .error cause) :
    Defective config attributes constraints penalty qualitative (.read cause)
  | penalty {v : Vocabulary} {f : Formula} {cause : ReadError}
    (hv : Vocabulary.read attributes = .ok v) (hf : Formula.read v constraints = .ok f)
    (h : PenaltyRule.read v penalty = .error cause) :
    Defective config attributes constraints penalty qualitative (.read cause)
  | qualitative {v : Vocabulary} {f : Formula} {penaltyRules : List PenaltyRule} {cause : ReadError}
    (hv : Vocabulary.read attributes = .ok v) (hf : Formula.read v constraints = .ok f)
    (hpenalty : PenaltyRule.read v penalty = .ok penaltyRules)
    (h : ChoiceRule.read v qualitative = .error cause) :
    Defective config attributes constraints penalty qualitative (.read cause)
  | tooMany {v : Vocabulary} {f : Formula} {penaltyRules : List PenaltyRule}
    {choiceRules : List ChoiceRule}
    (hread : Readings attributes constraints penalty qualitative v f penaltyRules choiceRules)
    (h : min config.maxAttributes 63 < v.size) :
    Defective config attributes constraints penalty qualitative
      (.problem (.tooManyAttributes v.size (min config.maxAttributes 63)))
  | penaltyName {v : Vocabulary} {f : Formula} {penaltyRules : List PenaltyRule}
    {choiceRules : List ChoiceRule} {name : Text}
    (hread : Readings attributes constraints penalty qualitative v f penaltyRules choiceRules)
    (hsize : v.size ≤ min config.maxAttributes 63)
    (h : FirstRepeat (penaltyRules.map PenaltyRule.name) name) :
    Defective config attributes constraints penalty qualitative (.problem (.duplicateRule name))
  | choiceName {v : Vocabulary} {f : Formula} {penaltyRules : List PenaltyRule}
    {choiceRules : List ChoiceRule} {name : Text}
    (hread : Readings attributes constraints penalty qualitative v f penaltyRules choiceRules)
    (hsize : v.size ≤ min config.maxAttributes 63)
    (hpenalty : (penaltyRules.map PenaltyRule.name).Nodup)
    (h : FirstRepeat (choiceRules.map ChoiceRule.name) name) :
    Defective config attributes constraints penalty qualitative (.problem (.duplicateRule name))

/-- Either some check fails first, or all checks are passed. -/
theorem defective_or_admits (config : Config)
    (attributes constraints penalty qualitative : List UInt8) :
    (∃ err, Defective config attributes constraints penalty qualitative err) ∨
      ∃ v rules, Admits config attributes constraints penalty qualitative v rules := by
  cases hv : Vocabulary.read attributes with
  | error cause => exact .inl ⟨_, .attributes hv⟩
  | ok v =>
  cases hf : Formula.read v constraints with
  | error cause => exact .inl ⟨_, .constraints hv hf⟩
  | ok f =>
  cases hpenalty : PenaltyRule.read v penalty with
  | error cause => exact .inl ⟨_, .penalty hv hf hpenalty⟩
  | ok penaltyRules =>
  cases hchoice : ChoiceRule.read v qualitative with
  | error cause => exact .inl ⟨_, .qualitative hv hf hpenalty hchoice⟩
  | ok choiceRules =>
  have hread : Readings attributes constraints penalty qualitative v f penaltyRules choiceRules :=
    ⟨hv, hf, hpenalty, hchoice⟩
  by_cases hsize : v.size ≤ config.attributeLimit
  · by_cases hnames : (penaltyRules.map PenaltyRule.name).Nodup
    · by_cases hnames' : (choiceRules.map ChoiceRule.name).Nodup
      · exact .inr ⟨v, ⟨penaltyRules, choiceRules⟩, hv, ⟨f, hf⟩, hpenalty, hchoice, hsize, hnames,
          hnames'⟩
      · obtain ⟨name, hname⟩ := exists_firstRepeat hnames'
        exact .inl ⟨_, .choiceName hread hsize hnames hname⟩
    · obtain ⟨name, hname⟩ := exists_firstRepeat hnames
      exact .inl ⟨_, .penaltyName hread hsize hname⟩
  · exact .inl ⟨_, .tooMany hread (Nat.lt_of_not_le hsize)⟩

/-! ## The plan of loading -/

/-- The plan of an evaluation with its checks, given a plan for the degrees. -/
def checkedPlan (config : Config) (v : Vocabulary) (constraints : Formula)
    (penaltyRules : List PenaltyRule) (choiceRules : List ChoiceRule)
    (D : List Nat → Plan Error DegreeTable) : Plan Error Problem :=
  if config.attributeLimit < v.size then
    .done (.error (.tooManyAttributes v.size config.attributeLimit))
  else (Plan.done (Rulebook.ofRules penaltyRules choiceRules)).bind fun _ =>
    plan v constraints penaltyRules choiceRules D

/-- The plan of loading, given plans for the degrees. Reading asks nothing. -/
def loadPlan (config : Config)
    (D : Vocabulary → List ChoiceRule → List Nat → Plan Error DegreeTable)
    (attributes constraints penalty qualitative : List UInt8) : Plan LoadError Problem :=
  (Plan.done ((Vocabulary.read attributes).mapError .read)).bind fun v =>
  (Plan.done ((Formula.read v constraints).mapError .read)).bind fun f =>
  (Plan.done ((PenaltyRule.read v penalty).mapError .read)).bind fun penaltyRules =>
  (Plan.done ((ChoiceRule.read v qualitative).mapError .read)).bind fun choiceRules =>
  (checkedPlan config v f penaltyRules choiceRules (D v choiceRules)).adapt LoadError.problem

theorem executes_checked {D : List Nat → Plan Error DegreeTable}
    (hD : ∀ feasible, Executes Error.oracle
      ((DegreeTable.score o.recorded choiceRules v.objects feasible).adapt Error.oracle)
      (D feasible)) :
    Executes Error.oracle (evaluate o.recorded config v f penaltyRules choiceRules)
      (checkedPlan config v f penaltyRules choiceRules D) := by
  unfold checkedPlan
  by_cases hsize : config.attributeLimit < v.size
  · rw [if_pos hsize, evaluate, if_pos hsize]
    exact executes_throw _
  · rw [if_neg hsize]
    cases hrules : Rulebook.ofRules penaltyRules choiceRules with
    | error err =>
      rw [evaluate, if_neg hsize, hrules]
      exact executes_throw err
    | ok rules =>
      obtain ⟨-, hpenalty, hchoice⟩ := Rulebook.ofRules_eq_ok_iff.mp hrules
      exact executes_evaluate (Nat.le_of_not_lt hsize) hpenalty hchoice hD

theorem executes_readNoting {α : Type} {fail : Oracle.Error → LoadError}
    (result : Except ReadError α) (count : α → Nat) (what : String) :
    Executes fail (readNoting (σ := Recorded σ) result count what)
      (.done (result.mapError .read)) := by
  unfold readNoting
  cases result with
  | error cause => exact executes_throw _
  | ok entries =>
    show Executes fail (Evaluation.note _ >>= fun _ => pure entries) _
    exact Executes.note_bind (executes_pure entries) _

/-- A file with a content is that content. -/
theorem content_ok_bind {β : Type} (file : List UInt8)
    (g : List UInt8 → Evaluation σ LoadError β) : content (.ok file) >>= g = g file := rfl

theorem executes_load {D : Vocabulary → List ChoiceRule → List Nat → Plan Error DegreeTable}
    (hD : ∀ (v : Vocabulary) choiceRules feasible, Executes Error.oracle
      ((DegreeTable.score o.recorded choiceRules v.objects feasible).adapt Error.oracle)
      (D v choiceRules feasible)) :
    Executes (LoadError.problem ∘ Error.oracle)
      (load o.recorded config (.ofContents attributes constraints penalty qualitative))
      (loadPlan config D attributes constraints penalty qualitative) := by
  simp only [load, Files.ofContents, content_ok_bind]
  refine (executes_readNoting _ _ _).bind fun v => Executes.note_bind ?_ _
  refine (executes_readNoting _ _ _).bind fun f => ?_
  refine (executes_readNoting _ _ _).bind fun penaltyRules => ?_
  refine (executes_readNoting _ _ _).bind fun choiceRules => Executes.note_bind ?_ _
  exact (executes_checked (hD v choiceRules)).adapt LoadError.problem

section

variable (D : Vocabulary → List ChoiceRule → List Nat → Plan Error DegreeTable)

theorem loadPlan_of_readings
    (h : Readings attributes constraints penalty qualitative v f penaltyRules choiceRules) :
    loadPlan config D attributes constraints penalty qualitative =
      (checkedPlan config v f penaltyRules choiceRules (D v choiceRules)).adapt
        LoadError.problem := by
  simp only [loadPlan, h.attributes, h.constraints, h.penalty, h.qualitative, Except.mapError,
    Plan.done_ok_bind]

/-- Where a check fails, the plan has no question. -/
theorem loadPlan_of_defective
    (h : Defective config attributes constraints penalty qualitative err) :
    loadPlan config D attributes constraints penalty qualitative = .done (.error err) := by
  cases h with
  | attributes h => simp only [loadPlan, h, Except.mapError, Plan.done_error_bind]
  | constraints hv h =>
    simp only [loadPlan, hv, h, Except.mapError, Plan.done_ok_bind, Plan.done_error_bind]
  | penalty hv hf h =>
    simp only [loadPlan, hv, hf, h, Except.mapError, Plan.done_ok_bind, Plan.done_error_bind]
  | qualitative hv hf hpenalty h =>
    simp only [loadPlan, hv, hf, hpenalty, h, Except.mapError, Plan.done_ok_bind,
      Plan.done_error_bind]
  | @tooMany v _ _ _ hread h =>
    have hsize : config.attributeLimit < v.size := h
    rw [loadPlan_of_readings D hread, checkedPlan, if_pos hsize]
    rfl
  | @penaltyName v _ penaltyRules choiceRules name hread hle h =>
    have hsize : ¬ config.attributeLimit < v.size := Nat.not_lt.mpr hle
    have hrules : Rulebook.ofRules penaltyRules choiceRules = .error (.duplicateRule name) := by
      rw [Rulebook.ofRules, firstRepeat?_eq_some_iff.mpr h]
    rw [loadPlan_of_readings D hread, checkedPlan, if_neg hsize, hrules]
    rfl
  | @choiceName v _ penaltyRules choiceRules name hread hle hpenalty h =>
    have hsize : ¬ config.attributeLimit < v.size := Nat.not_lt.mpr hle
    have hrules : Rulebook.ofRules penaltyRules choiceRules = .error (.duplicateRule name) := by
      rw [Rulebook.ofRules, firstRepeat?_eq_none_iff.mpr hpenalty, firstRepeat?_eq_some_iff.mpr h]
    rw [loadPlan_of_readings D hread, checkedPlan, if_neg hsize, hrules]
    rfl

/-- Where all checks are passed, the plan is that of the evaluation. -/
theorem loadPlan_of_admits {rules : Rulebook}
    (h : Admits config attributes constraints penalty qualitative v rules) :
    ∃ f, loadPlan config D attributes constraints penalty qualitative =
      (plan v f rules.penalty rules.choice (D v rules.choice)).adapt LoadError.problem := by
  obtain ⟨f, hf⟩ := h.constraints
  have hread : Readings attributes constraints penalty qualitative v f rules.penalty rules.choice :=
    ⟨h.attributes, hf, h.penalty, h.choice⟩
  have hrules : Rulebook.ofRules rules.penalty rules.choice = .ok rules :=
    Rulebook.ofRules_eq_ok_iff.mpr ⟨rfl, h.nodup_penalty, h.nodup_choice⟩
  refine ⟨f, ?_⟩
  rw [loadPlan_of_readings D hread, checkedPlan, if_neg (Nat.not_lt.mpr h.size_le), hrules]
  rfl

end

/-- Nothing but a total above the limit is an error of the plan of an evaluation. -/
theorem overflow_of_result_plan {D : List Nat → Plan Error DegreeTable} {answers : Answers}
    {cause : Error}
    (hquestions : ∀ feasible,
      (D feasible).questions = DegreeTable.questions choiceRules v.objects feasible)
    (hresult : ∀ feasible answers n, ∃ degrees, (D feasible).result answers n = .ok degrees)
    (h : (plan v f penaltyRules choiceRules D).result answers 0 = .error cause) :
    ∃ id, cause = .penaltyOverflow id := by
  rcases PenaltyTable.overflows_cases penaltyRules answers 1 (answers.feasible 0 v) with
    hnone | ⟨i, id, hid, hoverflows, hbefore⟩
  · have hplanned : ∃ p, (plan v f penaltyRules choiceRules D).result answers 0 = .ok p ∧ _ :=
      (plan_of_not_overflows hquestions hresult hnone).2
    obtain ⟨p, hp, -⟩ := hplanned
    rw [hp] at h
    cases h
  · rw [(plan_of_overflows hid hoverflows hbefore).2] at h
    exact ⟨id, (Except.error.inj h).symm⟩

/-! ## Loading -/

theorem records_readNoting {α : Type} (result : Except ReadError α) (count : α → Nat)
    (what : String) :
    (readNoting (σ := Recorded σ) result count what).Records (readNoting result count what) :=
  (Evaluation.records_ofExcept _).bind fun _ => (Evaluation.records_note _).bind fun _ =>
    Evaluation.records_pure _

theorem records_load (o : Oracle σ) (config : Config)
    (attributes constraints penalty qualitative : List UInt8) :
    (load o.recorded config (.ofContents attributes constraints penalty qualitative)).Records
      (load o config (.ofContents attributes constraints penalty qualitative)) := by
  simp only [load, Files.ofContents, content_ok_bind]
  exact (records_readNoting _ _ _).bind fun v => (Evaluation.records_note _).bind fun _ =>
    (records_readNoting _ _ _).bind fun f => (records_readNoting _ _ _).bind fun penaltyRules =>
    (records_readNoting _ _ _).bind fun choiceRules => (Evaluation.records_note _).bind fun _ =>
    (records_evaluate o config v f penaltyRules choiceRules).adapt LoadError.problem

/-- Loading executes its plan, with plans for the degrees that give a table. -/
theorem exists_executes_load (o : Oracle σ) (config : Config)
    (attributes constraints penalty qualitative : List UInt8) :
    ∃ D : Vocabulary → List ChoiceRule → List Nat → Plan Error DegreeTable,
      (∀ (v : Vocabulary) choiceRules feasible,
        (D v choiceRules feasible).questions =
          DegreeTable.questions choiceRules v.objects feasible) ∧
      (∀ v choiceRules feasible answers n,
        ∃ degrees, (D v choiceRules feasible).result answers n = .ok degrees) ∧
      Executes (LoadError.problem ∘ Error.oracle)
        (load o.recorded config (.ofContents attributes constraints penalty qualitative))
        (loadPlan config D attributes constraints penalty qualitative) := by
  choose D hD hquestions hresult using fun (v : Vocabulary) choiceRules feasible =>
    (DegreeTable.asks_score o choiceRules v.objects feasible).adapt Error.oracle
  exact ⟨D, hquestions, hresult, executes_load hD⟩

/-- The first check that fails decides the error, and nothing is asked. -/
theorem outcome_of_defective (o : Oracle σ)
    (h : Defective config attributes constraints penalty qualitative err) (s : Session σ) :
    let run := (load o.recorded config
      (.ofContents attributes constraints penalty qualitative)).outcome s.recording
    run.1 = .error err ∧ run.2.oracle.exchanges.toList = [] := by
  obtain ⟨D, -, -, hexecutes⟩ :=
    exists_executes_load o config attributes constraints penalty qualitative
  rw [loadPlan_of_defective D h] at hexecutes
  obtain ⟨hfailed, hexchanges⟩ := hexecutes.outcome_of_done s.recording
  exact ⟨hfailed, congrArg Array.toList hexchanges⟩

/-- Where all checks are passed something is asked, and an error is that of a question without an
answer or that of a total above the limit. -/
theorem outcome_of_admits (o : Oracle σ) {rules : Rulebook}
    (h : Admits config attributes constraints penalty qualitative v rules) (s : Session σ) :
    let run := (load o.recorded config
      (.ofContents attributes constraints penalty qualitative)).outcome s.recording
    let exchanges := run.2.oracle.exchanges.toList
    exchanges ≠ [] ∧ ∀ err, run.1 = .error err →
      (∃ e ∈ exchanges, ∃ cause, e.error? = some cause ∧ err = .problem (.oracle cause)) ∨
        ∃ id, err = .problem (.penaltyOverflow id) := by
  obtain ⟨D, hquestions, hresult, hexecutes⟩ :=
    exists_executes_load o config attributes constraints penalty qualitative
  obtain ⟨f, hplan⟩ := loadPlan_of_admits D h
  rw [hplan] at hexecutes
  obtain ⟨es, hes, hends⟩ := hexecutes s.recording
  have hexchanges : s.recording.oracle.exchanges.toList = [] := rfl
  rw [hexchanges, List.nil_append] at hes
  dsimp only
  rw [hes]
  obtain ⟨answers, hagree⟩ := Answers.exists_agreeFrom 0 es
  have hrun := hends answers 0 hagree
  refine ⟨hrun.ne_nil (List.cons_ne_nil _ _), fun err herr => ?_⟩
  -- an error is the oracle's own or that of the plan, and the plan has one kind of error only
  rcases hrun.cases_error herr with hplanned | hfailed
  · obtain ⟨cause, hcause, rfl⟩ := mapError_eq_error_iff.mp hplanned
    obtain ⟨id, rfl⟩ := overflow_of_result_plan (hquestions v rules.choice)
      (hresult v rules.choice) hcause
    exact .inr ⟨id, rfl⟩
  · exact .inl hfailed

/-- **Checks.** Whatever the four files, the parameters and the oracle are: loading fails before the
first question exactly if a check fails, and then with the error of the first check that does. Where
the files are read, too many attributes are reported exactly if there are more than the parameters
and the ceiling allow. If all checks are passed the oracle is asked, and the only errors are its own
failure to answer one of the questions and a total above the limit. Keeping the record of the
questions changes nothing else. -/
theorem load_fails_iff_defective (o : Oracle σ) (config : Config)
    (attributes constraints penalty qualitative : List UInt8) (s : Session σ) :
    let run := (load o.recorded config
      (.ofContents attributes constraints penalty qualitative)).outcome s.recording
    let exchanges := run.2.oracle.exchanges.toList
    (load o config (.ofContents attributes constraints penalty qualitative)).outcome s =
        (run.1, run.2.unrecorded) ∧
      (∀ err, Defective config attributes constraints penalty qualitative err ↔
        run.1 = .error err ∧ exchanges = []) ∧
      ((∀ err, ¬ Defective config attributes constraints penalty qualitative err) →
        exchanges ≠ [] ∧ ∀ err, run.1 = .error err →
          (∃ e ∈ exchanges, ∃ cause, e.error? = some cause ∧ err = .problem (.oracle cause)) ∨
            ∃ id, err = .problem (.penaltyOverflow id)) ∧
      ∀ v f penaltyRules choiceRules,
        Readings attributes constraints penalty qualitative v f penaltyRules choiceRules →
        ∀ count limit, run.1 = .error (.problem (.tooManyAttributes count limit)) ↔
          count = v.size ∧ limit = min config.maxAttributes 63 ∧ limit < count := by
  have hcases := defective_or_admits config attributes constraints penalty qualitative
  refine ⟨records_load o config attributes constraints penalty qualitative s.recording,
    fun err => ⟨fun h => outcome_of_defective o h s, fun hrun => ?_⟩, fun hnone => ?_,
    fun v f penaltyRules choiceRules hread count limit => ⟨fun hrun => ?_, ?_⟩⟩
  · obtain ⟨other, hother⟩ | ⟨v, rules, hadmits⟩ := hcases
    · have hresult := (outcome_of_defective o hother s).1
      rw [hrun.1] at hresult
      exact Except.error.inj hresult ▸ hother
    · exact absurd hrun.2 (outcome_of_admits o hadmits s).1
  · obtain ⟨err, hdefective⟩ | ⟨v, rules, hadmits⟩ := hcases
    · exact absurd hdefective (hnone err)
    · exact outcome_of_admits o hadmits s
  · obtain ⟨err, hdefective⟩ | ⟨v', rules, hadmits⟩ := hcases
    · have hresult := (outcome_of_defective o hdefective s).1
      rw [hrun] at hresult
      obtain rfl := Except.error.inj hresult
      cases hdefective with
      | tooMany hread' hsize =>
        obtain rfl := Except.ok.inj (hread.attributes.symm.trans hread'.attributes)
        exact ⟨rfl, rfl, hsize⟩
    · rcases (outcome_of_admits o hadmits s).2 _ hrun with ⟨_, _, _, _, heq⟩ | ⟨_, heq⟩ <;>
        cases heq
  · rintro ⟨rfl, rfl, hsize⟩
    exact (outcome_of_defective o (.tooMany hread hsize) s).1

/-- Two attributes are one too many here, so it does not matter that two rules have the same name.
Nothing is asked, so it is not noticed that the oracle is always interrupted. -/
theorem load_fails_iff_defective_dinner :
    ((load (.scripted (.error (.solver .interrupted))) { maxAttributes := 1 }
        (.ofContents dinnerAttributes (bytes "fish\n") (bytes "red, 2\nred, 3\n")
          dinnerChoices)).outcome { oracle := [] }).1 =
      .error (.problem (.tooManyAttributes 2 1)) := by
  have hv : Vocabulary.read dinnerAttributes = .ok dinnerVocabulary := by decide +kernel
  obtain ⟨f, hf, -⟩ : ∃ f, Formula.read dinnerVocabulary (bytes "fish\n") = .ok f ∧
      f.clauses.length = 1 := map_eq_ok_iff.mp (by decide +kernel)
  obtain ⟨penaltyRules, hpenalty, -⟩ : ∃ rules,
      PenaltyRule.read dinnerVocabulary (bytes "red, 2\nred, 3\n") = .ok rules ∧
        rules.length = 2 := map_eq_ok_iff.mp (by decide +kernel)
  obtain ⟨choiceRules, hchoice, -⟩ : ∃ rules,
      ChoiceRule.read dinnerVocabulary dinnerChoices = .ok rules ∧ rules.length = 2 :=
    map_eq_ok_iff.mp (by decide +kernel)
  have hdefective : Defective { maxAttributes := 1 } dinnerAttributes (bytes "fish\n")
      (bytes "red, 2\nred, 3\n") dinnerChoices (.problem (.tooManyAttributes 2 1)) :=
    .tooMany ⟨hv, hf, hpenalty, hchoice⟩ (by decide)
  obtain ⟨hrecorded, herror, -, -⟩ := load_fails_iff_defective
    (.scripted (.error (.solver .interrupted))) { maxAttributes := 1 } dinnerAttributes
    (bytes "fish\n") (bytes "red, 2\nred, 3\n") dinnerChoices { oracle := [] }
  obtain ⟨hfailed, -⟩ := (herror _).mp hdefective
  rw [hrecorded, hfailed]

end Problem

end PreferenceLogic
