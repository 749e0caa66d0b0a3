import PreferenceLogic.Language
import PreferenceLogic.Proofs.Formula.Meaning
import PreferenceLogic.Proofs.Rule.Penalty
import PreferenceLogic.Proofs.Score.Degree

/-!
# What rules say

The text of a penalty rule declares a formula and a penalty. The text of a choice rule lists tiers
and perhaps a condition, and an object attains the rank of the first tier that holds of its labels.
Reading a rule keeps what its text says.

Definitions:
* `PenaltyRule.Declares`: the text of a penalty rule.
* `ChoiceRule.Tells`: the tiers and the condition in the text of a choice rule.
* `ChoiceRule.Attains`, `ChoiceRule.Misses`: the labels of an object attain a rank of a choice rule,
  or none.
* `ChoiceRule.Parts`: the texts of tiers and of a condition are read as the parts of a rule.

Results:
* `ChoiceRule.tells_iff`: every text says one list of tiers and perhaps one condition, and these are
  what reading cuts out of it.
* `PenaltyRule.of_parse`, `ChoiceRule.of_parse`: what a rule is read from.
* `ChoiceRule.ReadFrom.attains_iff`: the rank that the text says is the degree of the rule.
-/

namespace PreferenceLogic

/-! ## Penalty rules -/

namespace PenaltyRule

variable {v : Vocabulary} {t : Text} {rule : PenaltyRule}

/-- A text declares a rule: the rule is named by what stands before the last comma, and its penalty
is the numeral after it. -/
def Declares (t : Text) (rule : PenaltyRule) : Prop :=
  ∃ formulaText penaltyText, t = formulaText ++ ',' :: penaltyText ∧ ',' ∉ penaltyText ∧
    rule.name = Text.trim formulaText ∧
    Text.readDecimal? (Text.trim penaltyText) = some rule.penalty

theorem of_parse (h : parse v t = .ok rule) :
    Declares t rule ∧ Formula.parse v rule.name = .ok rule.formula := by
  obtain ⟨formulaText, penaltyText, ⟨ht, hcomma⟩, hpenalty, hformula, hname⟩ := parse_eq_ok_iff.mp h
  have hnumeral := Text.readDecimal?_eq_some_iff.mpr hpenalty.numeral
  refine ⟨⟨formulaText, penaltyText, ht, hcomma, hname, hnumeral⟩, ?_⟩
  rw [hname, Formula.parse_trim, hformula]

end PenaltyRule

/-! ## Choice rules -/

namespace ChoiceRule

variable {v : Vocabulary} {t choice : Text} {texts : List Text} {text? : Option Text}
  {rule : ChoiceRule}

/-! ### What a text says -/

theorem betterThan_ne_nil : betterThan ≠ [] := List.cons_ne_nil _ _

theorem conditional_ne_nil : conditional ≠ [] := List.cons_ne_nil _ _

/-- A text lists tiers, with ` BT ` between them, and perhaps has a condition, which stands after
the first ` IF `. A blank condition is none. -/
inductive Lists : Text → List Text → Option Text → Prop where
  | tiers {t : Text} {texts : List Text} (hnone : ¬ conditional <:+: t)
    (htiers : Text.Pieces betterThan t texts) : Lists t texts none
  | condition {t choice text : Text} {texts : List Text}
    (hcut : Text.FirstCut conditional t choice text) (hblank : ¬ Text.Blank text)
    (htiers : Text.Pieces betterThan choice texts) : Lists t texts (some text)
  | blank {t choice text : Text} {texts : List Text}
    (hcut : Text.FirstCut conditional t choice text) (hblank : Text.Blank text)
    (htiers : Text.Pieces betterThan choice texts) : Lists t texts none

/-- The text of a rule says which tiers it has, and which condition. One dangling ` IF` at its end
says nothing. -/
inductive Tells : Text → List Text → Option Text → Prop where
  | whole {t : Text} {texts : List Text} {text? : Option Text} (hend : ¬ danglingCondition <:+ t)
    (h : Lists t texts text?) : Tells t texts text?
  | dangling {t : Text} {texts : List Text} {text? : Option Text} (h : Lists t texts text?) :
    Tells (t ++ danglingCondition) texts text?

theorem lists_iff :
    Lists t texts text? ↔
      match Text.cutFirst? conditional t with
      | none => Text.Pieces betterThan t texts ∧ text? = none
      | some (choice, condition) => Text.Pieces betterThan choice texts ∧
          text? = if Text.trim condition = [] then none else some condition := by
  constructor
  · intro h
    cases h with
    | tiers hnone htiers =>
      rw [Text.cutFirst?_eq_none hnone]
      exact ⟨htiers, rfl⟩
    | condition hcut hblank htiers =>
      rw [(Text.cutFirst?_eq_some_iff conditional_ne_nil).mpr hcut]
      exact ⟨htiers, (if_neg (mt Text.trim_eq_nil_iff.mp hblank)).symm⟩
    | blank hcut hblank htiers =>
      rw [(Text.cutFirst?_eq_some_iff conditional_ne_nil).mpr hcut]
      exact ⟨htiers, (if_pos (Text.trim_eq_nil_iff.mpr hblank)).symm⟩
  · intro h
    cases hcut : Text.cutFirst? conditional t with
    | none =>
      rw [hcut] at h
      obtain ⟨htiers, rfl⟩ := h
      exact .tiers ((Text.cutFirst?_eq_none_iff conditional_ne_nil).mp hcut) htiers
    | some cut =>
      obtain ⟨choice, condition⟩ := cut
      rw [hcut] at h
      obtain ⟨htiers, rfl⟩ := h
      have hfirst := Text.firstCut_of_cutFirst? hcut
      split
      · rename_i hblank
        exact .blank hfirst (Text.trim_eq_nil_iff.mp hblank) htiers
      · rename_i hblank
        exact .condition hfirst (mt Text.trim_eq_nil_iff.mpr hblank) htiers

theorem tells_iff_lists :
    Tells t texts text? ↔ Lists (Text.dropEnding danglingCondition t) texts text? := by
  constructor
  · intro h
    cases h with
    | whole hend h =>
      rwa [Text.dropEnding, if_neg (mt List.isSuffixOf_iff_suffix.mp hend)]
    | dangling h => rwa [Text.dropEnding_append]
  · intro h
    by_cases hend : danglingCondition <:+ t
    · obtain ⟨body, rfl⟩ := hend
      rw [Text.dropEnding_append] at h
      exact .dangling h
    · rw [Text.dropEnding, if_neg (mt List.isSuffixOf_iff_suffix.mp hend)] at h
      exact .whole hend h

/-- Reading finds the tiers and the condition that the text says. -/
theorem tells_iff :
    Tells t texts text? ↔
      Text.split betterThan (cutCondition t).1 = texts ∧ (cutCondition t).2 = text? := by
  rw [tells_iff_lists, lists_iff, cutCondition]
  cases Text.cutFirst? conditional (Text.dropEnding danglingCondition t) with
  | none => simp only [Text.split_eq_iff betterThan_ne_nil, eq_comm]
  | some cut => simp only [Text.split_eq_iff betterThan_ne_nil, eq_comm]

theorem exists_tells (t : Text) : ∃ texts text?, Tells t texts text? :=
  ⟨_, _, tells_iff.mpr ⟨rfl, rfl⟩⟩

theorem Tells.unique {texts' : List Text} {text?' : Option Text} (h : Tells t texts text?)
    (h' : Tells t texts' text?') : texts = texts' ∧ text? = text?' := by
  obtain ⟨rfl, rfl⟩ := tells_iff.mp h
  exact tells_iff.mp h'

/-! ### What labels attain -/

/-- The labels of an object attain a rank of the rule with a given text: they satisfy the condition,
if there is one, and the first tier that they satisfy has the rank. -/
def Attains (labels : List Text) (t : Text) (rank : Nat) : Prop :=
  ∃ texts text?, Tells t texts text? ∧ (∀ condition ∈ text?, Formula.Holds labels condition) ∧
    IsFirst (Formula.Holds labels) texts rank

/-- The labels of an object miss the rule with a given text: they violate its condition, or they
satisfy none of its tiers. -/
def Misses (labels : List Text) (t : Text) : Prop :=
  ∃ texts text?, Tells t texts text? ∧ ((∃ condition ∈ text?, ¬ Formula.Holds labels condition) ∨
    ∀ tier ∈ texts, ¬ Formula.Holds labels tier)

theorem Tells.attains_iff {labels : List Text} {rank : Nat} (h : Tells t texts text?) :
    Attains labels t rank ↔ (∀ condition ∈ text?, Formula.Holds labels condition) ∧
      IsFirst (Formula.Holds labels) texts rank := by
  refine ⟨fun ⟨_, _, htells, hattains⟩ => ?_, fun hattains => ⟨_, _, h, hattains⟩⟩
  obtain ⟨rfl, rfl⟩ := h.unique htells
  exact hattains

theorem misses_iff {labels : List Text} {t : Text} :
    Misses labels t ↔ ∀ rank, ¬ Attains labels t rank := by
  obtain ⟨texts, text?, htells⟩ := exists_tells t
  have hmisses : Misses labels t ↔
      (∃ condition ∈ text?, ¬ Formula.Holds labels condition) ∨
        ∀ tier ∈ texts, ¬ Formula.Holds labels tier := by
    refine ⟨fun ⟨_, _, htells', h⟩ => ?_, fun h => ⟨_, _, htells, h⟩⟩
    obtain ⟨rfl, rfl⟩ := htells.unique htells'
    exact h
  have hfirst : (∀ tier ∈ texts, ¬ Formula.Holds labels tier) ↔
      ¬ ∃ rank, IsFirst (Formula.Holds labels) texts rank := by
    simp only [exists_isFirst_iff, not_exists, not_and]
  simp only [hmisses, hfirst, htells.attains_iff]
  grind

/-! ### Reading -/

/-- Texts of tiers, and perhaps of a condition, are read as the parts of a rule. -/
structure Parts (v : Vocabulary) (texts : List Text) (text? : Option Text) (rule : ChoiceRule) :
    Prop where
  ne_nil : texts ≠ []
  tiers : List.Forall₂ (fun text tier => Formula.parse v text = .ok tier) texts rule.tiers
  condition : Option.Rel (fun text condition => Formula.parse v text = .ok condition) text?
    rule.condition

/-- A rule is read from its text part by part. -/
structure ReadFrom (v : Vocabulary) (t : Text) (rule : ChoiceRule) : Prop where
  name_eq : rule.name = t
  parts : ∃ texts text?, Tells t texts text? ∧ Parts v texts text? rule

theorem of_parse (h : parse v t = .ok rule) : ReadFrom v (Text.trim t) rule := by
  unfold parse at h
  dsimp only at h
  split at h
  · cases h
  · rename_i tiers htiers
    split at h
    · cases h
    · rename_i condition hcondition
      cases h
      refine ⟨rfl, _, _, tells_iff.mpr ⟨rfl, rfl⟩, Text.split_ne_nil betterThan_ne_nil,
        mapM_eq_ok_iff.mp htiers, optionMapM_eq_ok_iff.mp hcondition⟩

/-- What is read of the parts that a text says. -/
theorem ReadFrom.parse_eq (h : ReadFrom v (Text.trim t) rule) : parse v t = .ok rule := by
  obtain ⟨hname, texts, text?, htells, hparts⟩ := h
  obtain ⟨rfl, rfl⟩ := tells_iff.mp htells
  obtain ⟨name, tiers, condition⟩ := rule
  have htiers := mapM_eq_ok_iff.mpr hparts.tiers
  have hcondition := optionMapM_eq_ok_iff.mpr hparts.condition
  rw [parse]
  dsimp only at htiers hcondition hname ⊢
  rw [htiers]
  dsimp only
  rw [hcondition, hname]

namespace Parts

theorem reach_le_of_mem_tiers (h : Parts v texts text? rule) :
    ∀ tier ∈ rule.tiers, tier.reach ≤ v.size := by
  intro tier htier
  obtain ⟨text, -, htext⟩ := exists_mem_of_forall₂ h.tiers htier
  exact Formula.reach_le_of_parse htext

theorem reach_le_of_mem_condition (h : Parts v texts text? rule) :
    ∀ condition ∈ rule.condition, condition.reach ≤ v.size := by
  intro condition hmem
  have hread := h.condition
  rw [Option.mem_def.mp hmem] at hread
  cases hread with
  | some hparse => exact Formula.reach_le_of_parse hparse

end Parts

namespace ReadFrom

theorem reach_le_of_mem_tiers (h : ReadFrom v t rule) :
    ∀ tier ∈ rule.tiers, tier.reach ≤ v.size := by
  obtain ⟨-, texts, text?, -, hparts⟩ := h
  exact hparts.reach_le_of_mem_tiers

theorem reach_le_of_mem_condition (h : ReadFrom v t rule) :
    ∀ condition ∈ rule.condition, condition.reach ≤ v.size := by
  obtain ⟨-, texts, text?, -, hparts⟩ := h
  exact hparts.reach_le_of_mem_condition

theorem attains_iff (h : ReadFrom v t rule) {object : Object} (hobject : object ∈ v.objects)
    {rank : Nat} :
    Attains object.labels t rank ↔
      rule.degreeOf (fun f => f.eval object.valuation) = .tier rank := by
  obtain ⟨-, texts, text?, htells, hparts⟩ := h
  have hcondition : (∀ text ∈ text?, Formula.Holds object.labels text) ↔
      ∀ condition ∈ rule.condition, condition.eval object.valuation = true := by
    have hread := hparts.condition
    generalize rule.condition = condition? at hread ⊢
    cases hread with
    | none => simp
    | some hparse => simpa using Formula.holds_iff_eval hobject hparse
  rw [degreeOf_eq_tier_iff, htells.attains_iff, hcondition,
    isFirst_iff_of_forall₂ (hparts.tiers.imp fun _ _ => Formula.holds_iff_eval hobject)]

end ReadFrom

end ChoiceRule

end PreferenceLogic
