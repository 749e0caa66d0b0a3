import PreferenceLogic.Proofs.Oracle.Enumeration
import PreferenceLogic.Proofs.Problem.Evaluation

/-!
# What the constraints say

An object satisfies a file of constraints if every content line holds of its labels. The feasible
objects of a problem that is loaded are the objects that satisfy the file, and nothing else about
the encoding can be seen: not how attributes are numbered, which label is the positive one, or in
which order the oracle lists models.

Definitions:
* `Object.Satisfies`: an object satisfies a file of constraints.

Results:
* `Object.satisfies_iff_eval`: an object satisfies the file exactly when the formula that is read
  from it is true.
* `Object.satisfies_congr`: attributes that no line mentions do not matter.
* `Problem.feasible_of_constraints`: the feasible objects of a problem that is loaded.
-/

namespace PreferenceLogic

/-! ## Objects and lines -/

/-- An object satisfies a file of constraints: every content line holds of its labels. -/
def Object.Satisfies (object : Object) (constraints : List UInt8) : Prop :=
  ∀ line ∈ File.contentLines constraints, Formula.Holds object.labels line

instance (object : Object) (constraints : List UInt8) : Decidable (object.Satisfies constraints) :=
  inferInstanceAs (Decidable (∀ line ∈ _, Formula.Holds object.labels line))

/-- A file of constraints mentions an attribute: some content line mentions one of its labels. -/
def Attribute.MentionedIn (a : Attribute) (constraints : List UInt8) : Prop :=
  ∃ line ∈ File.contentLines constraints, ∃ positive, Formula.Mentions line (a.label positive)

instance (a : Attribute) (constraints : List UInt8) : Decidable (a.MentionedIn constraints) :=
  inferInstanceAs (Decidable (∃ line ∈ _, ∃ positive, Formula.Mentions line (a.label positive)))

section

variable {v : Vocabulary} {constraints : List UInt8} {f : Formula} {x y : Object}

theorem Formula.reach_le_of_read (h : Formula.read v constraints = .ok f) : f.reach ≤ v.size := by
  obtain ⟨-, formulas, hformulas, rfl⟩ := Formula.read_eq_ok_iff.mp h
  rw [Formula.reach, Formula.clauses_ofClauses, reachOf_le_iff]
  intro c hc
  obtain ⟨g, hg, hcg⟩ := List.mem_flatMap.mp hc
  obtain ⟨line, -, hline⟩ := exists_mem_of_forall₂ hformulas hg
  exact reachOf_le_iff.mp (Formula.reach_le_of_parse hline) c hcg

namespace Object

theorem satisfies_iff_eval (hread : Formula.read v constraints = .ok f) (hx : x ∈ v.objects) :
    x.Satisfies constraints ↔ f.eval x.valuation = true := by
  obtain ⟨-, formulas, hformulas, rfl⟩ := Formula.read_eq_ok_iff.mp hread
  have hlines : x.Satisfies constraints ↔ ∀ g ∈ formulas, g.eval x.valuation = true :=
    forall_mem_iff_of_forall₂ (hformulas.imp fun _ _ => Formula.holds_iff_eval hx)
  rw [hlines, Formula.eval_ofClauses, List.all_flatMap, List.all_eq_true]
  rfl

/-- Two objects that make the same choice for every mentioned attribute both satisfy the constraints
or both do not. -/
theorem satisfies_congr (hx : x ∈ v.objects) (hy : y ∈ v.objects)
    (h : ∀ i a, v.attribute? i = some a → a.MentionedIn constraints → x.labels[i]? = y.labels[i]?) :
    x.Satisfies constraints ↔ y.Satisfies constraints := by
  unfold Satisfies
  refine forall₂_congr fun line hline => Formula.holds_congr fun label hlabel => ?_
  by_cases hknown : label ∈ v.labels
  · obtain ⟨l, hl⟩ := Vocabulary.mem_labels_iff.mp hknown
    obtain ⟨a, ha, hlabel'⟩ := Option.map_eq_some_iff.mp hl
    have hmentioned : a.MentionedIn constraints :=
      ⟨line, hline, l.positive, by rw [hlabel']; exact hlabel⟩
    rw [Vocabulary.label_mem_iff_getElem? hx hl, Vocabulary.label_mem_iff_getElem? hy hl,
      h l.atom a ha hmentioned]
  · -- a word that is no label is chosen by no object
    have hnone : ∀ z ∈ v.objects, label ∉ z.labels := by
      intro z hz hmem
      obtain ⟨l, hl, -⟩ := (Vocabulary.label_mem_iff hz).mp hmem
      exact hknown (Vocabulary.mem_labels_iff.mpr ⟨l, hl⟩)
    exact iff_of_false (hnone x hx) (hnone y hy)

end Object

end

namespace Problem

/-! ## Feasible objects -/

variable {σ : Type} {o : Oracle σ} {config : Config} {v : Vocabulary} {f : Formula}
  {penaltyRules : List PenaltyRule} {choiceRules : List ChoiceRule} {p : Problem}

theorem Evaluated.id_mem_feasible_iff (ho : o.ListsModels)
    (h : p.Evaluated o config v f penaltyRules choiceRules) {constraints : List UInt8}
    (hread : Formula.read v constraints = .ok f) {x : Object} (hx : x ∈ v.objects) :
    x.id ∈ p.feasible ↔ x.Satisfies constraints := by
  rw [Oracle.id_mem_feasible_iff ho (Formula.reach_le_of_read hread) h.feasible hx,
    Object.satisfies_iff_eval hread hx]

/-- Where no object satisfies the constraints the problem is loaded, and no object is feasible. -/
theorem exists_load_of_unsatisfied (ho : o.ListsModels) (hanswers : o.AnswersModels)
    {attributes constraints penalty qualitative : List UInt8}
    (hread : Readings attributes constraints penalty qualitative v f penaltyRules choiceRules)
    (hsize : v.size ≤ config.attributeLimit) (hpenalty : (penaltyRules.map PenaltyRule.name).Nodup)
    (hchoice : (choiceRules.map ChoiceRule.name).Nodup)
    (hnone : ∀ object ∈ v.objects, ¬ object.Satisfies constraints) (s : Session σ) :
    ∃ p t, (load o config (.ofContents attributes constraints penalty qualitative)).Returns s p t ∧
      p.feasible = [] := by
  have hfound : ∀ found, (o.feasible (f.spanning v.size) v.objects).Yields found →
      found = [] := by
    intro found hfound
    rw [List.eq_nil_iff_forall_not_mem]
    intro id hid
    obtain ⟨x, hx, rfl⟩ := List.mem_map.mp ((Oracle.sublist_of_feasible hfound).subset hid)
    rw [Oracle.id_mem_feasible_iff ho (Formula.reach_le_of_read hread.constraints) hfound hx,
      ← Object.satisfies_iff_eval hread.constraints hx] at hid
    exact hnone x hx hid
  exact exists_load_returns hread
    (fun u => exists_evaluate_returns hsize hpenalty hchoice hanswers hfound u) s

/-- **Feasible objects.** The feasible objects of a problem that is loaded are those that satisfy
the constraints, in increasing order; attributes that no line mentions are left free. If no object
satisfies the constraints, the problem is loaded all the same and no object is feasible. -/
theorem feasible_of_constraints (ho : o.ListsModels) (config : Config)
    (attributes constraints penalty qualitative : List UInt8) :
    (∀ s p t,
      (load o config (.ofContents attributes constraints penalty qualitative)).Returns s p t →
        p.feasible.Pairwise (· < ·) ∧
        (∀ id, id ∈ p.feasible ↔
          ∃ object, p.object? id = some object ∧ object.Satisfies constraints) ∧
        ∀ x ∈ p.objects, ∀ y ∈ p.objects,
          (∀ i a, p.vocabulary.attribute? i = some a → a.MentionedIn constraints →
            x.labels[i]? = y.labels[i]?) →
          (x.id ∈ p.feasible ↔ y.id ∈ p.feasible)) ∧
    (o.AnswersModels → ∀ v f penaltyRules choiceRules,
      Readings attributes constraints penalty qualitative v f penaltyRules choiceRules →
      v.size ≤ config.attributeLimit → (penaltyRules.map PenaltyRule.name).Nodup →
      (choiceRules.map ChoiceRule.name).Nodup →
      (∀ object ∈ v.objects, ¬ object.Satisfies constraints) →
      ∀ s, ∃ p t,
        (load o config (.ofContents attributes constraints penalty qualitative)).Returns s p t ∧
          p.feasible = []) := by
  constructor
  · intro s p t h
    obtain ⟨v, f, penaltyRules, choiceRules, hread, heval⟩ := exists_readings_of_load h
    have hiff : ∀ x ∈ v.objects, (x.id ∈ p.feasible ↔ x.Satisfies constraints) :=
      fun x hx => heval.id_mem_feasible_iff ho hread.constraints hx
    have hobject? : ∀ id x, p.object? id = some x ↔ x ∈ v.objects ∧ x.id = id := by
      intro id x
      rw [object?, heval.objects_eq, Vocabulary.getElem?_objects_iff]
    refine ⟨heval.pairwise_feasible, fun id => ⟨fun hid => ?_, ?_⟩, ?_⟩
    · have hfound := heval.object?_of_mem_feasible hid
      obtain ⟨hmem, -⟩ := (hobject? _ _).mp hfound
      exact ⟨_, hfound, (hiff _ hmem).mp hid⟩
    · rintro ⟨x, hfound, hsatisfies⟩
      obtain ⟨hx, rfl⟩ := (hobject? _ _).mp hfound
      exact (hiff x hx).mpr hsatisfies
    · intro x hx y hy hagree
      rw [heval.objects_eq] at hx hy
      rw [heval.vocabulary_eq] at hagree
      rw [hiff x hx, hiff y hy]
      exact Object.satisfies_congr hx hy hagree
  · intro hanswers v f penaltyRules choiceRules hread hsize hpenalty hchoice hnone s
    exact exists_load_of_unsatisfied ho hanswers hread hsize hpenalty hchoice hnone s

/-- White wine asks for fish, asking for fish leaves the wine free, and no dish is both fish and
meat. -/
theorem feasible_of_constraints_dinner :
    (∃ s p t, (load Oracle.exact {} (dinner "fish OR NOT white\n")).Returns s p t ∧
      p.feasible = [0, 2, 3] ∧
      ∃ object, p.object? 3 = some object ∧ object.Satisfies (bytes "fish OR NOT white\n")) ∧
    (∃ s p t, (load Oracle.exact {} (dinner "fish\n")).Returns s p t ∧
      (2 ∈ p.feasible ↔ 3 ∈ p.feasible)) ∧
    ∃ p t, (load Oracle.exact {} (dinner "fish\nmeat\n")).Returns { oracle := 0 } p t ∧
      p.feasible = [] := by
  have hdinner := fun constraints => feasible_of_constraints Oracle.reliable_exact.listsModels {}
    dinnerAttributes (bytes constraints) dinnerPenalties dinnerChoices
  refine ⟨?_, ?_, ?_⟩
  · obtain ⟨p, t, hload, hp⟩ := exists_load_dinner
    have hids : p.feasible = [0, 2, 3] := congrArg Prod.fst hp
    refine ⟨_, p, t, hload, hids, ?_⟩
    exact (((hdinner _).1 _ p t hload).2.1 3).mp (by rw [hids]; decide)
  · obtain ⟨p, t, hload, hp⟩ : ∃ p t,
        (load Oracle.exact {} (dinner "fish\n")).Returns { oracle := 0 } p t ∧
          (p.vocabulary, p.objects) = (dinnerVocabulary, dinnerVocabulary.objects) :=
      Evaluation.exists_returns_of_map_eq (by decide +kernel)
    obtain ⟨hvocabulary, hobjects⟩ := Prod.mk.inj hp
    refine ⟨_, p, t, hload, ?_⟩
    refine ((hdinner _).1 _ p t hload).2.2 (dinnerVocabulary.object 2) (by rw [hobjects]; decide)
      (dinnerVocabulary.object 3) (by rw [hobjects]; decide) fun i a ha hmentioned => ?_
    rw [hvocabulary] at ha
    match i with
    | 0 => decide
    | 1 =>
      cases ha
      exact absurd hmentioned (by decide +kernel)
    | i + 2 => cases ha
  · obtain ⟨penaltyRules, hpenalty, hnames⟩ :
        ∃ rules, PenaltyRule.read dinnerVocabulary dinnerPenalties = .ok rules ∧
          decide (rules.map PenaltyRule.name).Nodup = true :=
      map_eq_ok_iff.mp (by decide +kernel)
    obtain ⟨choiceRules, hchoice, hnames'⟩ :
        ∃ rules, ChoiceRule.read dinnerVocabulary dinnerChoices = .ok rules ∧
          decide (rules.map ChoiceRule.name).Nodup = true :=
      map_eq_ok_iff.mp (by decide +kernel)
    exact (hdinner "fish\nmeat\n").2 Oracle.reliable_exact.answersModels dinnerVocabulary
      (.ofClauses 2 [[⟨0, true⟩], [⟨0, false⟩]]) penaltyRules choiceRules
      ⟨by decide +kernel, by decide +kernel, hpenalty, hchoice⟩ (by decide)
      (of_decide_eq_true hnames) (of_decide_eq_true hnames') (by decide +kernel) _

end Problem

end PreferenceLogic
