import PreferenceLogic.Proofs.Oracle.Enumeration
import PreferenceLogic.Proofs.Problem.Evaluation
import PreferenceLogic.Proofs.Rule

/-!
# What the scores say

The tables of a problem that is loaded speak about labels only. A cell of the penalty table is the
declared penalty of its rule, or nothing if the labels of the object satisfy the formula as it is
written. A cell of the degree table is the rank of the first tier that holds of the labels, if the
condition holds.

Results:
* `PenaltyRow.eq_of_scores`: the penalties and the total of one object.
* `Problem.penalties_of_rules`: the penalty table of a problem that is loaded.
* `DegreeRow.attains_of_scores`: the degrees of one object.
* `Problem.degrees_of_rules`: the degree table of a problem that is loaded.
-/

namespace PreferenceLogic

variable {σ : Type} {o : Oracle σ} {v : Vocabulary} {object : Object}

/-! ## Penalties -/

/-- What a file of penalty rules is read as: each line declares its rule, and the formula of the
rule is what its name is read as. -/
theorem PenaltyRule.of_read {penalty : List UInt8} {rules : List PenaltyRule}
    (h : PenaltyRule.read v penalty = .ok rules) :
    List.Forall₂ Declares (File.contentLines penalty) rules ∧
      ∀ rule ∈ rules, Formula.parse v rule.name = .ok rule.formula := by
  obtain ⟨-, hrules⟩ := File.collect_eq_ok_iff.mp h
  refine ⟨hrules.imp fun _ _ hrule => (of_parse hrule).1, fun rule hrule => ?_⟩
  obtain ⟨line, -, hline⟩ := exists_mem_of_forall₂ hrules hrule
  exact (of_parse hline).2

/-- With a correct oracle, the penalties of an object are those of the rules that its labels
violate, and the total is their sum. -/
theorem PenaltyRow.eq_of_scores (ho : o.Decides) (hobject : object ∈ v.objects)
    {rules : List PenaltyRule}
    (hrules : ∀ rule ∈ rules, Formula.parse v rule.name = .ok rule.formula) {id : Nat}
    {row : PenaltyRow} (h : row.Scores o rules id object) :
    row.penalties = rules.map (fun rule =>
        if Formula.Holds object.labels rule.name then 0 else rule.penalty) ∧
      row.total = ((rules.filter fun rule =>
        ¬ Formula.Holds object.labels rule.name).map PenaltyRule.penalty).sum := by
  have hcell : ∀ rule ∈ rules, ∀ n, (o.charge rule object).Yields n →
      n = if Formula.Holds object.labels rule.name then 0 else rule.penalty := by
    intro rule hrule n hn
    rw [Oracle.charge_eq ho hobject (Formula.reach_le_of_parse (hrules rule hrule)) hn]
    simp only [Formula.holds_iff_eval hobject (hrules rule hrule)]
  have hpenalties : row.penalties = rules.map fun rule =>
      if Formula.Holds object.labels rule.name then 0 else rule.penalty :=
    eq_map_of_forall₂ (forall₂_imp_of_mem h.penalties hcell)
  refine ⟨hpenalties, ?_⟩
  rw [h.total_eq, hpenalties, sum_charged]

namespace Problem

/-- **Penalty scores.** In a problem that is loaded with a correct oracle, each line of the file
declares a penalty rule. The row of a feasible object has for each rule nothing, if the labels of
the object satisfy the formula of the rule, and otherwise the declared penalty. The total is the
exact sum of the penalties of the violated rules. -/
theorem penalties_of_rules (ho : o.Decides) (config : Config)
    (attributes constraints penalty qualitative : List UInt8) {s t : Session σ} {p : Problem}
    (h : (load o config (.ofContents attributes constraints penalty qualitative)).Returns s p t) :
    List.Forall₂ PenaltyRule.Declares (File.contentLines penalty) p.rules.penalty ∧
      List.Forall₂ (fun id row => row.object = id ∧ ∃ object, p.object? id = some object ∧
        row.penalties = p.rules.penalty.map (fun rule =>
          if Formula.Holds object.labels rule.name then 0 else rule.penalty) ∧
        row.total = ((p.rules.penalty.filter fun rule =>
          ¬ Formula.Holds object.labels rule.name).map PenaltyRule.penalty).sum)
        p.feasible p.penalties.rows := by
  obtain ⟨v, f, penaltyRules, choiceRules, hread, heval⟩ := exists_readings_of_load h
  obtain ⟨hdeclared, hparsed⟩ := PenaltyRule.of_read hread.penalty
  rw [heval.rules_eq]
  refine ⟨hdeclared, forall₂_imp_of_mem heval.rows_penalties fun id hid row hrow => ?_⟩
  exact ⟨hrow.object_eq, v.object id, heval.object?_of_mem_feasible hid,
    PenaltyRow.eq_of_scores ho (heval.object_mem_of_mem_feasible hid) hparsed hrow⟩

/-- Red wine with fish violates the first of the rules, which charges three. -/
theorem penalties_of_rules_dinner :
    ∃ s p t, (load Oracle.exact {} (dinner "fish OR NOT white\n")).Returns s p t ∧
      List.Forall₂ PenaltyRule.Declares (File.contentLines dinnerPenalties) p.rules.penalty ∧
      ∃ object, p.object? 2 = some object ∧
        [3, 0] = p.rules.penalty.map (fun rule =>
          if Formula.Holds object.labels rule.name then 0 else rule.penalty) ∧
        3 = ((p.rules.penalty.filter fun rule =>
          ¬ Formula.Holds object.labels rule.name).map PenaltyRule.penalty).sum := by
  obtain ⟨p, t, hload, hp⟩ := exists_load_dinner
  obtain ⟨hids, hrows, -⟩ := Prod.mk.inj hp |>.imp_right Prod.mk.inj
  obtain ⟨hdeclared, hscores⟩ := penalties_of_rules Oracle.reliable_exact.decides {}
    dinnerAttributes (bytes "fish OR NOT white\n") dinnerPenalties dinnerChoices hload
  rw [hids, hrows] at hscores
  obtain ⟨row, hrow, -, hobject⟩ :=
    exists_getElem?_of_forall₂ hscores (show _[1]? = some 2 from rfl)
  cases hrow
  exact ⟨_, p, t, hload, hdeclared, hobject⟩

end Problem

/-! ## Degrees -/

/-- What a file of choice rules is read as: each line is the text of its rule. -/
theorem ChoiceRule.of_read {qualitative : List UInt8} {rules : List ChoiceRule}
    (h : ChoiceRule.read v qualitative = .ok rules) :
    rules.map ChoiceRule.name = File.contentLines qualitative ∧
      ∀ rule ∈ rules, ReadFrom v rule.name rule := by
  obtain ⟨-, hrules⟩ := File.collect_eq_ok_iff.mp h
  have hread : ∀ line ∈ File.contentLines qualitative, ∀ rule, parse v line = .ok rule →
      ReadFrom v line rule := by
    intro line hline rule hrule
    have hrule' := of_parse hrule
    rwa [File.trim_of_mem_contentLines hline] at hrule'
  have hfrom := forall₂_imp_of_mem hrules hread
  constructor
  · have hnames := map_eq_of_forall₂ (f := id) (hfrom.imp fun _ _ hline => hline.name_eq)
    rw [← hnames, List.map_id]
  · intro rule hrule
    obtain ⟨line, -, hline⟩ := exists_mem_of_forall₂ hfrom hrule
    rwa [hline.name_eq]

/-- With a correct oracle, the degree of an object is the rank that its labels attain, and it is the
worst one if they miss the rule. -/
theorem DegreeRow.attains_of_scores (ho : o.Decides) (hobject : object ∈ v.objects)
    {rules : List ChoiceRule} (hrules : ∀ rule ∈ rules, rule.ReadFrom v rule.name) {id : Nat}
    {row : DegreeRow} (h : row.Scores o rules id object) :
    List.Forall₂ (fun rule d =>
      (∀ rank, d = .tier rank ↔ ChoiceRule.Attains object.labels rule.name rank) ∧
      (d = .unsatisfied ↔ ChoiceRule.Misses object.labels rule.name))
      rules row.degrees := by
  refine forall₂_imp_of_mem h.degrees fun rule hrule d hd => ?_
  have hread : rule.ReadFrom v rule.name := hrules rule hrule
  have hrank : ∀ rank, d = .tier rank ↔ ChoiceRule.Attains object.labels rule.name rank := by
    intro rank
    rw [Oracle.degree_eq ho hobject hread.reach_le_of_mem_tiers hread.reach_le_of_mem_condition hd,
      hread.attains_iff hobject]
  refine ⟨hrank, ?_⟩
  rw [Degree.eq_unsatisfied_iff, ChoiceRule.misses_iff]
  exact forall_congr' fun rank => not_congr (hrank rank)

namespace Problem

/-- **Degrees.** In a problem that is loaded with a correct oracle, each line of the file is a
choice rule. The row of a feasible object has for each rule the rank of the first tier in its text
that holds of the labels of the object, if the condition in the text holds of them or there is none.
It has the worst degree if the condition is violated or no tier holds. -/
theorem degrees_of_rules (ho : o.Decides) (config : Config)
    (attributes constraints penalty qualitative : List UInt8) {s t : Session σ} {p : Problem}
    (h : (load o config (.ofContents attributes constraints penalty qualitative)).Returns s p t) :
    p.rules.choice.map ChoiceRule.name = File.contentLines qualitative ∧
      List.Forall₂ (fun id row => row.object = id ∧ ∃ object, p.object? id = some object ∧
        List.Forall₂ (fun rule d =>
          (∀ rank, d = .tier rank ↔ ChoiceRule.Attains object.labels rule.name rank) ∧
          (d = .unsatisfied ↔ ChoiceRule.Misses object.labels rule.name))
          p.rules.choice row.degrees)
        p.feasible p.degrees.rows := by
  obtain ⟨v, f, penaltyRules, choiceRules, hread, heval⟩ := exists_readings_of_load h
  obtain ⟨hnames, hparsed⟩ := ChoiceRule.of_read hread.qualitative
  rw [heval.rules_eq]
  refine ⟨hnames, forall₂_imp_of_mem heval.rows_degrees fun id hid row hrow => ?_⟩
  exact ⟨hrow.object_eq, v.object id, heval.object?_of_mem_feasible hid,
    DegreeRow.attains_of_scores ho (heval.object_mem_of_mem_feasible hid) hparsed hrow⟩

/-- Red wine with fish attains the second rank of both rules. White wine with fish misses the second
one by its condition. -/
theorem degrees_of_rules_dinner :
    ∃ s p t, (load Oracle.exact {} (dinner "fish OR NOT white\n")).Returns s p t ∧
      p.rules.choice.map ChoiceRule.name = File.contentLines dinnerChoices ∧
      (∃ object, p.object? 2 = some object ∧
        ∀ rule ∈ p.rules.choice, ChoiceRule.Attains object.labels rule.name 2) ∧
      ∃ object, p.object? 3 = some object ∧
        ChoiceRule.Misses object.labels "meat BT fish IF red".toList := by
  obtain ⟨p, t, hload, hp⟩ := exists_load_dinner
  obtain ⟨hids, -, hrows⟩ := Prod.mk.inj hp |>.imp_right Prod.mk.inj
  obtain ⟨hnames, hscores⟩ := degrees_of_rules Oracle.reliable_exact.decides {} dinnerAttributes
    (bytes "fish OR NOT white\n") dinnerPenalties dinnerChoices hload
  rw [hids, hrows] at hscores
  refine ⟨_, p, t, hload, hnames, ?_, ?_⟩
  · obtain ⟨row, hrow, -, object, hobject, hdegrees⟩ :=
      exists_getElem?_of_forall₂ hscores (show _[1]? = some 2 from rfl)
    cases hrow
    refine ⟨object, hobject, fun rule hrule => ?_⟩
    obtain ⟨d, hd, hrank, -⟩ := exists_mem_of_forall₂ hdegrees.flip hrule
    have hsecond : d = .tier 2 := by simpa using hd
    exact (hrank 2).mp hsecond
  · obtain ⟨row, hrow, -, object, hobject, hdegrees⟩ :=
      exists_getElem?_of_forall₂ hscores (show _[2]? = some 3 from rfl)
    cases hrow
    have hlines : (p.rules.choice.map ChoiceRule.name)[1]? = some "meat BT fish IF red".toList := by
      rw [hnames]
      decide
    obtain ⟨rule, hrule, hname⟩ := Option.map_eq_some_iff.mp (List.getElem?_map.symm.trans hlines)
    obtain ⟨d, hd, -, hmiss⟩ := exists_getElem?_of_forall₂ hdegrees hrule
    cases hd
    exact ⟨object, hobject, hname ▸ hmiss.mp rfl⟩

end Problem

end PreferenceLogic
