import PreferenceLogic.Proofs.Problem.Described
import PreferenceLogic.Proofs.Vocabulary.Alike

/-!
# The numbering of the attributes

Formulas and rules name labels, so what they say does not depend on how the attributes are numbered
or on which label is the positive one. If the declarations are reordered and their labels exchanged,
the objects get other numbers, but each object has a counterpart with the same labels, and all
answers about the two are the same.

Definitions:
* `Rulebook.Alike`: two rulebooks with the same names and penalties.
* `Problem.Pairs`: two objects of two problems have the same labels.
* `Problem.Renumbers`: two problems differ in the numbers of their objects only.

Results:
* `Formula.exists_parse_of_labels`, `PenaltyRule.exists_parse_of_labels`,
  `ChoiceRule.exists_parse_of_labels`: what can be read depends on the labels only.
* `Problem.renumbers_of_sameDeclarations`: the numbering changes no answer.
-/

namespace PreferenceLogic

/-! ## Reading -/

section

variable {v w : Vocabulary} (h : v.labels ⊆ w.labels) {t : Text}

include h

theorem Vocabulary.exists_resolve_of_labels {label : Text} {l : Literal}
    (hl : v.resolve label = .ok l) : ∃ m, w.resolve label = .ok m := by
  have hlabel : label ∈ w.labels := h (mem_labels_iff.mpr ⟨l, resolve_eq_ok_iff.mp hl⟩)
  obtain ⟨m, hm⟩ := mem_labels_iff.mp hlabel
  exact ⟨m, resolve_eq_ok_iff.mpr hm⟩

theorem Formula.exists_parseLiteral_of_labels {l : Literal} (hl : parseLiteral v t = .ok l) :
    ∃ m, parseLiteral w t = .ok m := by
  unfold parseLiteral
  rcases parseLiteral_eq_ok hl with ⟨label, hwords, hl⟩ | ⟨marker, label, m, hwords, hmarker, hm, -⟩
  · rw [hwords]
    exact Vocabulary.exists_resolve_of_labels h hl
  · obtain ⟨n, hn⟩ := Vocabulary.exists_resolve_of_labels h hm
    simp only [hwords, hmarker, if_true, hn]
    exact ⟨n.negate, rfl⟩

theorem Formula.exists_parse_of_labels {f : Formula} (hf : parse v t = .ok f) :
    ∃ g, parse w t = .ok g := by
  obtain ⟨clauses, hclauses, -⟩ := map_eq_ok_iff.mp hf
  have hclause : ∀ part c, parseClause v part = .ok c → ∃ d, parseClause w part = .ok d :=
    fun part c => exists_mapM_eq_ok fun s l => exists_parseLiteral_of_labels h
  obtain ⟨clauses', hclauses'⟩ := exists_mapM_eq_ok hclause hclauses
  exact ⟨_, map_eq_ok_iff.mpr ⟨clauses', hclauses', rfl⟩⟩

theorem PenaltyRule.exists_parse_of_labels {rule : PenaltyRule} (hrule : parse v t = .ok rule) :
    ∃ rule', parse w t = .ok rule' ∧ rule'.name = rule.name ∧ rule'.penalty = rule.penalty := by
  unfold parse at hrule
  split at hrule
  · cases hrule
  · rename_i formulaText penaltyText hcut
    split at hrule
    · cases hrule
    · rename_i penalty hpenalty
      dsimp only at hrule
      split at hrule
      · cases hrule
      · rename_i f hf
        cases hrule
        obtain ⟨g, hg⟩ := Formula.exists_parse_of_labels h hf
        refine ⟨⟨Text.trim formulaText, g, penalty⟩, ?_, rfl, rfl⟩
        simp only [parse, hcut, hpenalty, hg]

theorem ChoiceRule.exists_parse_of_labels {rule : ChoiceRule} (hrule : parse v t = .ok rule) :
    ∃ rule', parse w t = .ok rule' ∧ rule'.name = rule.name := by
  have hformula : ∀ s f, Formula.parse v s = .ok f → ∃ g, Formula.parse w s = .ok g :=
    fun s f => Formula.exists_parse_of_labels h
  unfold parse at hrule
  dsimp only at hrule
  split at hrule
  · cases hrule
  · rename_i tiers htiers
    split at hrule
    · cases hrule
    · rename_i condition hcondition
      cases hrule
      obtain ⟨tiers', htiers'⟩ := exists_mapM_eq_ok hformula htiers
      obtain ⟨condition', hcondition'⟩ := exists_optionMapM_eq_ok hformula hcondition
      refine ⟨⟨Text.trim t, tiers', condition'⟩, ?_, rfl⟩
      simp only [parse, htiers', hcondition']

end

/-! ## Scores -/

section

variable {x y : Object} (h : x.SameLabels y)

include h

theorem Object.SameLabels.holds_iff {t : Text} :
    Formula.Holds x.labels t ↔ Formula.Holds y.labels t :=
  Formula.holds_congr fun label _ => h label

theorem Object.SameLabels.satisfies_iff {constraints : List UInt8} :
    x.Satisfies constraints ↔ y.Satisfies constraints :=
  forall₂_congr fun _ _ => h.holds_iff

theorem Object.SameLabels.attained_eq {t : Text} :
    ChoiceRule.attained x.labels t = ChoiceRule.attained y.labels t := by
  simp only [ChoiceRule.attained, h.holds_iff]

end

/-- Two rulebooks have rules of the same names and penalties, read over different vocabularies. -/
structure Rulebook.Alike (rules rules' : Rulebook) : Prop where
  penalty : List.Forall₂ (fun rule rule' => rule'.name = rule.name ∧ rule'.penalty = rule.penalty)
    rules.penalty rules'.penalty
  choice : List.Forall₂ (fun rule rule' => rule'.name = rule.name) rules.choice rules'.choice

namespace Rulebook.Alike

variable {rules rules' : Rulebook} (h : rules.Alike rules') {x y x' y' : Object}

include h

theorem map_name_penalty :
    rules.penalty.map PenaltyRule.name = rules'.penalty.map PenaltyRule.name :=
  map_eq_of_forall₂ (h.penalty.imp fun _ _ hrule => hrule.1)

theorem map_name_choice :
    rules.choice.map ChoiceRule.name = rules'.choice.map ChoiceRule.name :=
  map_eq_of_forall₂ h.choice

theorem penalties_eq (hxy : x.SameLabels y) :
    (PenaltyRow.declared rules.penalty x).penalties =
      (PenaltyRow.declared rules'.penalty y).penalties := by
  refine map_eq_of_forall₂ (h.penalty.imp fun rule rule' hrule => ?_)
  simp only [PenaltyRule.due, hrule.1, hrule.2, hxy.holds_iff]

theorem total_eq (hxy : x.SameLabels y) :
    (PenaltyRow.declared rules.penalty x).total =
      (PenaltyRow.declared rules'.penalty y).total :=
  congrArg List.sum (h.penalties_eq hxy)

theorem degrees_eq (hxy : x.SameLabels y) :
    (DegreeRow.declared rules.choice x).degrees =
      (DegreeRow.declared rules'.choice y).degrees := by
  refine map_eq_of_forall₂ (h.choice.imp fun rule rule' hrule => ?_)
  rw [hrule, hxy.attained_eq]

theorem prefer_eq (hxy : x.SameLabels y) (hxy' : x'.SameLabels y') (logic : Logic) :
    rules.prefer logic x x' = rules'.prefer logic y y' := by
  cases logic with
  | penalty => exact congrArg₂ Comparison.ofTotals (h.total_eq hxy) (h.total_eq hxy')
  | qualitative => exact congrArg₂ Comparison.ofDegrees (h.degrees_eq hxy) (h.degrees_eq hxy')

end Rulebook.Alike

namespace Problem

/-! ## Problems -/

/-- Two objects of two problems have the same labels. -/
def Pairs (p p' : Problem) (x y : Object) : Prop :=
  x ∈ p.objects ∧ y ∈ p'.objects ∧ x.SameLabels y

/-- The answers of two problems about two objects are the same. -/
structure Agrees (p p' : Problem) (x y : Object) : Prop where
  feasible : x.id ∈ p.feasible ↔ y.id ∈ p'.feasible
  penalties : (p.penalties.row? x.id).map PenaltyRow.penalties =
    (p'.penalties.row? y.id).map PenaltyRow.penalties
  total? : p.penalties.total? x.id = p'.penalties.total? y.id
  degrees? : p.degrees.degrees? x.id = p'.degrees.degrees? y.id
  optimal : ∀ logic, x.id ∈ p.optimal logic ↔ y.id ∈ p'.optimal logic

/-- Two problems differ in the numbers of their objects only: the objects are paired by their
labels, one with one, and all answers about paired objects are the same. -/
structure Renumbers (p p' : Problem) : Prop where
  rules_penalties : p.penalties.rules = p'.penalties.rules
  rules_degrees : p.degrees.rules = p'.degrees.rules
  existsUnique_right : ∀ x ∈ p.objects, ∃! y, p.Pairs p' x y
  existsUnique_left : ∀ y ∈ p'.objects, ∃! x, p.Pairs p' x y
  agrees : ∀ x y, p.Pairs p' x y → Agrees p p' x y
  compare_iff : ∀ x y x' y', p.Pairs p' x y → p.Pairs p' x' y' → ∀ logic c,
    p.compare logic x.id x'.id = .ok c ↔ p'.compare logic y.id y'.id = .ok c

section

variable {v w : Vocabulary} {rules rules' : Rulebook} {constraints : List UInt8}

/-- What is said of an object that satisfies the constraints is said of its counterpart. -/
theorem map_satisfying?_eq {α : Type} {x y : Object} (hx : x ∈ v.objects) (hy : y ∈ w.objects)
    (hxy : x.SameLabels y) {f g : Object → α} (hfg : f x = g y) :
    (v.satisfying? constraints x.id).map f = (w.satisfying? constraints y.id).map g := by
  rw [satisfying?_id hx, satisfying?_id hy]
  by_cases hsat : y.Satisfies constraints
  · rw [if_pos (hxy.satisfies_iff.mpr hsat), if_pos hsat, Option.map_some, Option.map_some, hfg]
  · rw [if_neg (mt hxy.satisfies_iff.mp hsat), if_neg hsat, Option.map_none, Option.map_none]

variable (h : v.Alike w) (hrules : rules.Alike rules')

include h

theorem existsUnique_sameLabels {x : Object} (hx : x ∈ v.objects) :
    ∃! y, y ∈ w.objects ∧ x.SameLabels y := by
  obtain ⟨y, hy, hxy⟩ := h.exists_object hx
  refine ⟨y, ⟨hy, hxy⟩, fun z hz => ?_⟩
  exact Vocabulary.eq_of_sameLabels hz.1 hy fun label => (hz.2 label).symm.trans (hxy label)

include hrules

theorem agrees_described {x y : Object} (hx : x ∈ v.objects) (hy : y ∈ w.objects)
    (hxy : x.SameLabels y) :
    Agrees (described v constraints rules) (described w constraints rules') x y := by
  have hsat : x.Satisfies constraints ↔ y.Satisfies constraints := hxy.satisfies_iff
  refine ⟨?_, ?_, ?_, ?_, fun logic => ?_⟩
  · rw [mem_feasible_described_iff hx, mem_feasible_described_iff hy, hsat]
  · rw [row?_described, row?_described, Option.map_map, Option.map_map]
    exact map_satisfying?_eq hx hy hxy (hrules.penalties_eq hxy)
  · rw [total?_described, total?_described]
    exact map_satisfying?_eq hx hy hxy (hrules.total_eq hxy)
  · rw [degrees?_described, degrees?_described]
    exact map_satisfying?_eq hx hy hxy (hrules.degrees_eq hxy)
  · -- whatever is preferred to the one object has a counterpart that is preferred to the other
    rw [mem_optimal_described_iff hx, mem_optimal_described_iff hy, hsat]
    refine and_congr_right fun _ => ⟨fun hnone z' hz' hsat' => ?_, fun hnone z hz hsat' => ?_⟩
    · obtain ⟨z, hz, hzz⟩ := h.symm.exists_object hz'
      rw [← hrules.prefer_eq hzz.symm hxy]
      exact hnone z hz (hzz.satisfies_iff.mp hsat')
    · obtain ⟨z', hz', hzz⟩ := h.exists_object hz
      rw [hrules.prefer_eq hzz hxy]
      exact hnone z' hz' (hzz.satisfies_iff.mp hsat')

theorem renumbers_described :
    Renumbers (described v constraints rules) (described w constraints rules') where
  rules_penalties := hrules.map_name_penalty
  rules_degrees := hrules.map_name_choice
  existsUnique_right x hx := by
    obtain ⟨y, hy, hunique⟩ := existsUnique_sameLabels h hx
    exact ⟨y, ⟨hx, hy⟩, fun z hz => hunique z hz.2⟩
  existsUnique_left y hy := by
    obtain ⟨x, ⟨hx, hxy⟩, hunique⟩ := existsUnique_sameLabels h.symm hy
    exact ⟨x, ⟨hx, hy, hxy.symm⟩, fun z hz => hunique z ⟨hz.1, hz.2.2.symm⟩⟩
  agrees x y hpair := agrees_described h hrules hpair.1 hpair.2.1 hpair.2.2
  compare_iff x y x' y' hpair hpair' logic c := by
    rw [compare_described_eq_ok_iff hpair.1 hpair'.1,
      compare_described_eq_ok_iff hpair.2.1 hpair'.2.1, hpair.2.2.satisfies_iff,
      hpair'.2.2.satisfies_iff, hrules.prefer_eq hpair.2.2 hpair'.2.2]

theorem overdue?_of_alike (hnone : overdue? v constraints rules = none) :
    overdue? w constraints rules' = none := by
  rw [overdue?, List.find?_eq_none] at hnone ⊢
  intro y hy
  obtain ⟨hy, hsat⟩ := mem_satisfying_iff.mp hy
  obtain ⟨x, hx, hyx⟩ := h.symm.exists_object hy
  rw [← hrules.total_eq hyx.symm]
  exact hnone x (mem_satisfying_iff.mpr ⟨hx, hyx.satisfies_iff.mp hsat⟩)

end

section

variable {config : Config} {attributes attributes' constraints penalty qualitative : List UInt8}
  (h : File.SameDeclarations attributes attributes')

include h

theorem Admits.exists_renumbered {v : Vocabulary} {rules : Rulebook}
    (hadmits : Admits config attributes constraints penalty qualitative v rules) :
    ∃ w rules', Admits config attributes' constraints penalty qualitative w rules' ∧
      v.Alike w ∧ rules.Alike rules' := by
  obtain ⟨w, hw, halike⟩ := h.exists_read hadmits.attributes
  have hlabels : v.labels ⊆ w.labels := halike.labels_perm.subset
  obtain ⟨penaltyRules, hpenalty, hpenalties⟩ := File.exists_collect_of
    (fun _ _ => PenaltyRule.exists_parse_of_labels hlabels) hadmits.penalty
  obtain ⟨choiceRules, hchoice, hchoices⟩ := File.exists_collect_of
    (fun _ _ => ChoiceRule.exists_parse_of_labels hlabels) hadmits.choice
  have hrules : rules.Alike ⟨penaltyRules, choiceRules⟩ := ⟨hpenalties, hchoices⟩
  have hconstraints : ∃ f, Formula.read w constraints = .ok f := by
    obtain ⟨hdecodable, hparsed⟩ := Formula.exists_read_iff.mp hadmits.constraints
    refine Formula.exists_read_iff.mpr ⟨hdecodable, fun line hline => ?_⟩
    obtain ⟨f, hf⟩ := hparsed line hline
    exact Formula.exists_parse_of_labels hlabels hf
  refine ⟨w, ⟨penaltyRules, choiceRules⟩, ?_, halike, hrules⟩
  exact {
    attributes := hw
    constraints := hconstraints
    penalty := hpenalty
    choice := hchoice
    size_le := halike.size_eq ▸ hadmits.size_le
    nodup_penalty := hrules.map_name_penalty ▸ hadmits.nodup_penalty
    nodup_choice := hrules.map_name_choice ▸ hadmits.nodup_choice }

theorem exists_ofFiles_of_sameDeclarations {p : Problem}
    (hp : ofFiles config attributes constraints penalty qualitative = .ok p) :
    ∃ p', ofFiles config attributes' constraints penalty qualitative = .ok p' ∧
      p.Renumbers p' := by
  obtain ⟨v, rules, hadmits, hjudged⟩ := ofFiles_eq_ok_iff.mp hp
  obtain ⟨w, rules', hadmits', halike, hrules⟩ := hadmits.exists_renumbered h
  obtain ⟨hnone, rfl⟩ := judged_eq_ok_iff.mp hjudged
  refine ⟨described w constraints rules', ?_, renumbers_described halike hrules⟩
  exact ofFiles_eq_ok_iff.mpr ⟨w, rules', hadmits',
    judged_eq_ok_iff.mpr ⟨overdue?_of_alike halike hrules hnone, rfl⟩⟩

end

/-- **Numbering.** With oracles that are correct and never fail, neither the order of the
declarations nor the order of the labels within them decides whether a problem is loaded. Two
problems that are loaded pair their objects by the labels, one with one. Paired objects are both
feasible or both not, they have the same penalties, totals and degrees, they are both optimal or
both not, and two pairs of them compare in the same way in both logics. -/
theorem renumbers_of_sameDeclarations {σ σ' : Type} {o : Oracle σ} {o' : Oracle σ'}
    (ho : o.Reliable) (ho' : o'.Reliable) (config : Config) {attributes attributes' : List UInt8}
    (h : File.SameDeclarations attributes attributes')
    (constraints penalty qualitative : List UInt8) (s : Session σ) (s' : Session σ') :
    let loading := load o config (.ofContents attributes constraints penalty qualitative)
    let loading' := load o' config (.ofContents attributes' constraints penalty qualitative)
    ((∃ p t, loading.Returns s p t) ↔ ∃ p' t', loading'.Returns s' p' t') ∧
      ∀ p t p' t', loading.Returns s p t → loading'.Returns s' p' t' → p.Renumbers p' := by
  intro loading loading'
  have hgives := load_gives ho config attributes constraints penalty qualitative
  have hgives' := load_gives ho' config attributes' constraints penalty qualitative
  have hback : ∀ p', ofFiles config attributes' constraints penalty qualitative = .ok p' →
      ∃ p, ofFiles config attributes constraints penalty qualitative = .ok p := by
    intro p' hp'
    obtain ⟨p, hp, -⟩ := exists_ofFiles_of_sameDeclarations h.symm hp'
    exact ⟨p, hp⟩
  exact hgives.related hgives' (fun _ => exists_ofFiles_of_sameDeclarations h) hback s s'

/-- With the wine declared first, and red before white, the feasible dinners have other numbers. -/
theorem renumbers_of_sameDeclarations_dinner :
    ∃ p t p' t',
      (load Oracle.exact {} (dinner "fish OR NOT white\n")).Returns { oracle := 0 } p t ∧
      (load Oracle.exact {} (.ofContents (bytes "wine: red, white\ndish: fish, meat\n")
        (bytes "fish OR NOT white\n") dinnerPenalties dinnerChoices)).Returns
          { oracle := 0 } p' t' ∧
      p.feasible = [0, 2, 3] ∧ p'.feasible = [1, 2, 3] ∧ p.Renumbers p' := by
  obtain ⟨p, t, hp, hids⟩ := exists_load_dinner
  obtain ⟨p', t', hp', hids'⟩ : ∃ p' t',
      (load Oracle.exact {} (.ofContents (bytes "wine: red, white\ndish: fish, meat\n")
        (bytes "fish OR NOT white\n") dinnerPenalties dinnerChoices)).Returns
          { oracle := 0 } p' t' ∧ p'.feasible = [1, 2, 3] :=
    Evaluation.exists_returns_of_map_eq (by decide +kernel)
  have hexchanged : Attribute.SameDeclaration "wine: white, red".toList
      "wine: red, white".toList := by
    have hwine := Attribute.sameDeclaration_exchanged
      (by decide : ':' ∉ "wine".toList) (by decide : ',' ∉ " white".toList)
      (by decide : ',' ∉ " red".toList)
    exact hwine
  have hsame : File.SameDeclarations dinnerAttributes
      (bytes "wine: red, white\ndish: fish, meat\n") := by
    refine ⟨by decide +kernel, by decide +kernel,
      ["wine: white, red".toList, "dish: fish, meat".toList], by decide +kernel, ?_⟩
    have hlines : File.contentLines (bytes "wine: red, white\ndish: fish, meat\n") =
        ["wine: red, white".toList, "dish: fish, meat".toList] := by decide +kernel
    rw [hlines]
    exact .cons hexchanged (.cons (.refl _) .nil)
  obtain ⟨-, hrenumbers⟩ := renumbers_of_sameDeclarations Oracle.reliable_exact
    Oracle.reliable_exact {} hsame (bytes "fish OR NOT white\n") dinnerPenalties dinnerChoices
    { oracle := 0 } { oracle := 0 }
  exact ⟨p, t, p', t', hp, hp', congrArg Prod.fst hids, hids', hrenumbers p t p' t' hp hp'⟩

end Problem

end PreferenceLogic
