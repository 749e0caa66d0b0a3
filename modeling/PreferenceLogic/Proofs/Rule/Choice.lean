import PreferenceLogic.Proofs.Formula.Language
import PreferenceLogic.Proofs.Rule

/-!
# The texts of choice rules

A choice rule is written as its tiers, joined by ` BT `, and perhaps ` IF ` and a condition. Reading
cuts a dangling ` IF` off the end, then the condition at the first ` IF `, and then the tiers. Where
no label is `BT` or `IF`, neither is a word of a formula, so a cut never goes through a tier or a
condition, and what was joined is found again.

The converse fails in one way. The dangling ` IF` is cut off before a condition is looked for, so it
is passed over after a condition too, where the grammar has no place for it.

Definitions:
* `ChoiceRule.Ending`, `ChoiceRule.Surplus`: what may stand after the tiers, and what is accepted
  there besides.
* `ChoiceRule.ReadsAs`: a text is read as tiers and perhaps a condition.
* `ChoiceRule.Composed`, `ChoiceRule.Grammatical`: texts of tiers and an ending.

Results:
* `ChoiceRule.Tells.exists_ending`: what stands after the tiers.
* `ChoiceRule.readsAs_joined`: what was joined is read again.
* `ChoiceRule.parse_iff_composed`: the texts that are accepted.
* `ChoiceRule.exists_ungrammatical_accepted`: one of them is not grammatical.
-/

namespace PreferenceLogic

namespace ChoiceRule

/-! ## Words of a rule -/

theorem isWord_better : Text.IsWord ['B', 'T'] := by decide

theorem isWord_if : Text.IsWord ['I', 'F'] := by decide

theorem words_append_dangling (s : Text) :
    Text.words (s ++ danglingCondition) = Text.words s ++ [['I', 'F']] := by
  rw [danglingCondition, Text.words_append_cons Text.isBlank_space, isWord_if.words_eq]

theorem words_append_conditional (s t : Text) :
    Text.words (s ++ (conditional ++ t)) = Text.words s ++ ['I', 'F'] :: Text.words t :=
  Text.words_append_spaced isWord_if s t

/-! ## The first keyword -/

theorem not_dangling_suffix {t : Text} (h : (Text.words t).getLast? ≠ some ['I', 'F']) :
    ¬ danglingCondition <:+ t := by
  rintro ⟨s, rfl⟩
  exact h (by rw [words_append_dangling, List.getLast?_concat])

theorem not_dangling_suffix_conditional {text : Text} (htext : ['I', 'F'] ∉ Text.words text)
    (hblank : ¬ Text.Blank text) (choice : Text) :
    ¬ danglingCondition <:+ choice ++ (conditional ++ text) := by
  refine not_dangling_suffix fun hlast => ?_
  rw [words_append_conditional, List.append_cons,
    List.getLast?_append_of_ne_nil _ (mt Text.words_eq_nil_iff.mp hblank)] at hlast
  exact htext (List.mem_of_getLast? hlast)

section

variable {choice : Text} (hchoice : ['I', 'F'] ∉ Text.words choice)

include hchoice

theorem not_infix_conditional : ¬ conditional <:+: choice :=
  fun hspaced => hchoice (Text.mem_words_of_spaced isWord_if hspaced)

theorem firstCut_conditional (text : Text) :
    Text.FirstCut conditional (choice ++ (conditional ++ text)) choice text :=
  Text.firstCut_of_cutFirst?
    (Text.cutFirst?_spaced isWord_if (Text.not_infix_of_not_mem_words isWord_if hchoice))

end

/-! ## Endings -/

/-- What may stand after the tiers, and the text of the condition in it: nothing, a condition, or
the start of a condition that is not there. -/
inductive Ending : Text → Option Text → Prop where
  | nothing : Ending [] none
  | condition {text : Text} (h : ¬ Text.Blank text) : Ending (conditional ++ text) (some text)
  | dangling : Ending danglingCondition none

/-- What else is accepted after the tiers: a condition, or one that is blank, and then the start of
another condition. -/
inductive Surplus : Text → Option Text → Prop where
  | condition {text : Text} (h : ¬ Text.Blank text) :
    Surplus (conditional ++ (text ++ danglingCondition)) (some text)
  | blank {text : Text} (h : Text.Blank text) :
    Surplus (conditional ++ (text ++ danglingCondition)) none

variable {v : Vocabulary} {t choice ending : Text} {texts : List Text} {text? : Option Text}
  {rule : ChoiceRule}

/-- What stands after the tiers in a trimmed text. -/
theorem Tells.exists_ending (h : Tells (Text.trim t) texts text?) :
    ∃ ending, Text.trim t = betterThan.intercalate texts ++ ending ∧
      (Ending ending text? ∨ Surplus ending text?) := by
  generalize hname : Text.trim t = name at h
  cases h with
  | whole hend h =>
    cases h with
    | tiers hnone htiers =>
      rw [htiers.intercalate_eq]
      exact ⟨[], (List.append_nil _).symm, .inl .nothing⟩
    | condition hcut hblank htiers =>
      rw [htiers.intercalate_eq]
      exact ⟨_, hcut.text_eq, .inl (.condition hblank)⟩
    | @blank choice text _ hcut hblank htiers =>
      -- the space after the keyword would stand at the end
      have hspace : Text.Blank (' ' :: text) :=
        List.forall_mem_cons.mpr ⟨Text.isBlank_space, hblank⟩
      have hends : Text.trim t = choice ++ danglingCondition ++ ' ' :: text := by
        rw [hname, hcut.text_eq, conditional]
        simp only [List.append_assoc, List.singleton_append]
      exact absurd (Text.eq_nil_of_trim_eq_append hends hspace) (List.cons_ne_nil _ _)
  | dangling h =>
    cases h with
    | tiers hnone htiers =>
      rw [htiers.intercalate_eq]
      exact ⟨danglingCondition, rfl, .inl .dangling⟩
    | condition hcut hblank htiers =>
      rw [htiers.intercalate_eq, hcut.text_eq]
      exact ⟨_, by simp only [List.append_assoc], .inr (.condition hblank)⟩
    | blank hcut hblank htiers =>
      rw [htiers.intercalate_eq, hcut.text_eq]
      exact ⟨_, by simp only [List.append_assoc], .inr (.blank hblank)⟩

/-! ## Parts of a rule -/

namespace Parts

variable (h : Parts v texts text? rule)

include h

theorem exists_parse_of_mem_tiers : ∀ text ∈ texts, ∃ f, Formula.parse v text = .ok f := by
  intro text htext
  obtain ⟨f, -, hf⟩ := exists_mem_of_forall₂ h.tiers.flip htext
  exact ⟨f, hf⟩

theorem exists_parse_of_mem_condition : ∀ text ∈ text?, ∃ f, Formula.parse v text = .ok f := by
  intro text htext
  have hread := h.condition
  rw [Option.mem_def.mp htext] at hread
  generalize rule.condition = condition? at hread
  cases hread with
  | some hparse => exact ⟨_, hparse⟩

theorem isConditional_iff : rule.isConditional = true ↔ text?.isSome = true := by
  have hread := h.condition
  rw [isConditional]
  generalize rule.condition = condition? at hread ⊢
  cases hread with
  | none => exact Iff.rfl
  | some _ => exact Iff.rfl

/-- Blanks before the tiers belong to the first one. -/
theorem exists_trimStart : ∃ texts', Parts v texts' text? rule ∧ ∀ rest,
    Text.trimStart (betterThan.intercalate texts ++ rest) =
      betterThan.intercalate texts' ++ rest := by
  obtain ⟨first, others, rfl⟩ := List.exists_cons_of_ne_nil h.ne_nil
  obtain ⟨f, tiers, hfirst, hothers, hrule⟩ := List.forall₂_cons_left_iff.mp h.tiers
  refine ⟨Text.trimStart first :: others, ⟨List.cons_ne_nil _ _, ?_, h.condition⟩, fun rest => ?_⟩
  · rw [hrule]
    exact .cons (by rw [Formula.parse_trimStart, hfirst]) hothers
  · simp only [Text.intercalate_cons, List.append_assoc]
    rw [Text.trimStart_append (Formula.not_blank_of_parse hfirst)]

/-- Blanks after the tiers belong to the last one. -/
theorem exists_trimEnd : ∃ texts', Parts v texts' text? rule ∧
    Text.trimEnd (betterThan.intercalate texts) = betterThan.intercalate texts' := by
  obtain ⟨others, last, rfl⟩ := (List.eq_nil_or_concat' texts).resolve_left h.ne_nil
  obtain ⟨tiers, f, hrule, hothers, hlast⟩ := exists_of_forall₂_concat h.tiers.flip
  have hblank : ¬ Text.Blank last := Formula.not_blank_of_parse hlast
  refine ⟨others ++ [Text.trimEnd last], ⟨by simp, ?_, h.condition⟩, ?_⟩
  · rw [hrule]
    exact List.rel_append hothers.flip (.cons (by rw [Formula.parse_trimEnd]; exact hlast) .nil)
  · rw [Text.intercalate_concat, Text.intercalate_concat, Text.trimEnd_append hblank]

end Parts

/-! ## Reading -/

/-- What a text that is read is made of. -/
theorem exists_parts_of_parse (h : parse v t = .ok rule) :
    rule.name = Text.trim t ∧ ∃ texts text? ending,
      Text.trim t = betterThan.intercalate texts ++ ending ∧ Parts v texts text? rule ∧
        (Ending ending text? ∨ Surplus ending text?) := by
  obtain ⟨hname, texts, text?, htells, hparts⟩ := of_parse h
  obtain ⟨ending, ht, hending⟩ := htells.exists_ending
  exact ⟨hname, texts, text?, ending, ht, hparts, hending⟩

section

variable (hbetter : ['B', 'T'] ∉ v.labels) (hif : ['I', 'F'] ∉ v.labels)

include hbetter hif

/-- Neither keyword is a word of a formula. -/
theorem not_mem_words_of_parse {text : Text} (h : ∃ f, Formula.parse v text = .ok f) :
    ['B', 'T'] ∉ Text.words text ∧ ['I', 'F'] ∉ Text.words text := by
  obtain ⟨f, hf⟩ := h
  have hother : ∀ word, word ∉ v.labels → Formula.isNegation word = false → word ≠ ['A', 'N', 'D'] →
      word ≠ ['O', 'R'] → word ∉ Text.words text := by
    intro word hlabel hmarker hand hor hmem
    rcases Formula.mem_words_of_parse hf hmem with h | h | h | h
    · exact hlabel h
    · rw [← Formula.isNegation_iff, hmarker] at h
      cases h
    · exact hand h
    · exact hor h
  exact ⟨hother _ hbetter (by decide) (by decide) (by decide),
    hother _ hif (by decide) (by decide) (by decide)⟩

theorem Parts.not_mem_words (h : Parts v texts text? rule) :
    ['I', 'F'] ∉ Text.words (betterThan.intercalate texts) := by
  intro hmem
  rcases Text.mem_words_intercalate isWord_better hmem with heq | ⟨text, htext, hword⟩
  · cases heq
  · exact (not_mem_words_of_parse hbetter hif (h.exists_parse_of_mem_tiers text htext)).2 hword

theorem Parts.pieces (h : Parts v texts text? rule) :
    Text.Pieces betterThan (betterThan.intercalate texts) texts := by
  refine (Text.split_eq_iff betterThan_ne_nil).mp
    (Text.split_intercalate isWord_better h.ne_nil fun text htext => ?_)
  exact (not_mem_words_of_parse hbetter hif (h.exists_parse_of_mem_tiers text htext)).1

/-- What was put together says what it was put together from. -/
theorem Parts.tells (h : Parts v texts text? rule)
    (hending : Ending ending text? ∨ Surplus ending text?) :
    Tells (betterThan.intercalate texts ++ ending) texts text? := by
  have hchoice := h.not_mem_words hbetter hif
  have hpieces := h.pieces hbetter hif
  rcases hending with hending | hending
  · cases hending with
    | nothing =>
      rw [List.append_nil]
      exact .whole (not_dangling_suffix fun hlast => hchoice (List.mem_of_getLast? hlast))
        (.tiers (not_infix_conditional hchoice) hpieces)
    | condition hblank =>
      have htext := not_mem_words_of_parse hbetter hif (h.exists_parse_of_mem_condition _ rfl)
      exact .whole (not_dangling_suffix_conditional htext.2 hblank _)
        (.condition (firstCut_conditional hchoice _) hblank hpieces)
    | dangling => exact .dangling (.tiers (not_infix_conditional hchoice) hpieces)
  · cases hending with
    | condition hblank =>
      rw [← List.append_assoc conditional, ← List.append_assoc]
      exact .dangling (.condition (firstCut_conditional hchoice _) hblank hpieces)
    | blank hblank =>
      rw [← List.append_assoc conditional, ← List.append_assoc]
      exact .dangling (.blank (firstCut_conditional hchoice _) hblank hpieces)

theorem parse_of_parts (h : Parts v texts text? rule)
    (ht : Text.trim t = betterThan.intercalate texts ++ ending)
    (hending : Ending ending text? ∨ Surplus ending text?) (hname : rule.name = Text.trim t) :
    parse v t = .ok rule := by
  have htells := h.tells hbetter hif hending
  rw [← ht] at htells
  exact ReadFrom.parse_eq ⟨hname, texts, text?, htells, h⟩

end

/-! ## Rules that are written -/

/-- A text is read as tiers and perhaps a condition. The rule is named by the text. -/
def ReadsAs (v : Vocabulary) (t : Text) (tiers : List Formula) (condition : Option Formula) :
    Prop :=
  parse v t = .ok { name := Text.trim t, tiers, condition }

theorem not_blank_dangling : ¬ Text.Blank danglingCondition := by
  intro hblank
  have hletter := hblank 'I' (by decide)
  revert hletter
  decide

section

variable (hbetter : ['B', 'T'] ∉ v.labels) (hif : ['I', 'F'] ∉ v.labels) {tiers : List Formula}
  {condition : Option Formula} (hne : texts ≠ [])
  (htiers : List.Forall₂ (fun text tier => Formula.parse v text = .ok tier) texts tiers)

include hbetter hif hne htiers

theorem readsAs_append {rest : Text}
    (hcondition : Option.Rel (fun text f => Formula.parse v text = .ok f) text? condition)
    (hending : Ending ending text?) (hrest : ∀ s, Text.trimEnd (s ++ rest) = s ++ ending) :
    ReadsAs v (betterThan.intercalate texts ++ rest) tiers condition := by
  have hparts : Parts v texts text?
      ⟨Text.trim (betterThan.intercalate texts ++ rest), tiers, condition⟩ :=
    ⟨hne, htiers, hcondition⟩
  obtain ⟨started, hstarted, hstart⟩ := hparts.exists_trimStart
  have hname : Text.trim (betterThan.intercalate texts ++ rest) =
      betterThan.intercalate started ++ ending := by
    rw [Text.trim, hstart, hrest]
  exact parse_of_parts hbetter hif hstarted hname (.inl hending) rfl

/-- **Writing a choice rule and reading it.** Where no label looks like a keyword, texts of tiers
that can be read are read again when they are joined, in their order and each as the formula that it
is by itself. So is a condition after them. A dangling keyword changes nothing but the name. -/
theorem readsAs_joined :
    ReadsAs v (betterThan.intercalate texts) tiers none ∧
      (∀ text condition, Formula.parse v text = .ok condition →
        ReadsAs v (betterThan.intercalate texts ++ (conditional ++ text)) tiers (some condition)) ∧
      ∀ after, Text.Blank after →
        ReadsAs v (betterThan.intercalate texts ++ (danglingCondition ++ after)) tiers none := by
  refine ⟨?_, fun text condition hcondition => ?_, fun after hafter => ?_⟩
  · have hparts : Parts v texts none ⟨Text.trim (betterThan.intercalate texts), tiers, none⟩ :=
      ⟨hne, htiers, .none⟩
    obtain ⟨started, hstarted, hstart⟩ := hparts.exists_trimStart
    obtain ⟨trimmed, htrimmed, hend⟩ := hstarted.exists_trimEnd
    have hname : Text.trim (betterThan.intercalate texts) =
        betterThan.intercalate trimmed ++ [] := by
      have hstart' := hstart []
      rw [List.append_nil, List.append_nil] at hstart'
      rw [Text.trim, hstart', hend, List.append_nil]
    exact parse_of_parts hbetter hif htrimmed hname (.inl .nothing) rfl
  · have hblank : ¬ Text.Blank text := Formula.not_blank_of_parse hcondition
    have htrimmed : Formula.parse v (Text.trimEnd text) = .ok condition := by
      rw [Formula.parse_trimEnd, hcondition]
    refine readsAs_append hbetter hif hne htiers (.some htrimmed)
      (.condition (Formula.not_blank_of_parse htrimmed)) fun s => ?_
    rw [Text.trimEnd_append (Text.not_blank_append hblank), Text.trimEnd_append hblank]
  · refine readsAs_append hbetter hif hne htiers .none .dangling fun s => ?_
    rw [← List.append_assoc, hafter.trimEnd_append, Text.trimEnd_append not_blank_dangling]
    rfl

end

/-- Blanks around a tier may be part of its text. -/
theorem readsAs_joined_gifts :
    ∃ tiers condition,
      tiers.map Formula.clauses = [[[⟨0, true⟩]], [[⟨0, false⟩], [⟨1, false⟩]]] ∧
      condition.clauses = [[⟨1, true⟩]] ∧
      ReadsAs Formula.gifts " big BT small AND blue ".toList tiers none ∧
      ReadsAs Formula.gifts " big BT small AND blue  IF red ".toList tiers (some condition) ∧
      ReadsAs Formula.gifts " big BT small AND blue  IF\t".toList tiers none := by
  obtain ⟨first, hfirst, hbig⟩ : ∃ f, Formula.parse Formula.gifts " big".toList = .ok f ∧
      f.clauses = [[⟨0, true⟩]] := map_eq_ok_iff.mp (by decide)
  obtain ⟨second, hsecond, hother⟩ : ∃ f,
      Formula.parse Formula.gifts "small AND blue ".toList = .ok f ∧
        f.clauses = [[⟨0, false⟩], [⟨1, false⟩]] := map_eq_ok_iff.mp (by decide)
  obtain ⟨condition, hcondition, hred⟩ : ∃ f, Formula.parse Formula.gifts "red ".toList = .ok f ∧
      f.clauses = [[⟨1, true⟩]] := map_eq_ok_iff.mp (by decide)
  obtain ⟨hnone, hsome, hdangling⟩ := readsAs_joined (v := Formula.gifts) (by decide) (by decide)
    (List.cons_ne_nil _ _) (.cons hfirst (.cons hsecond .nil))
  have htiers : [first, second].map Formula.clauses =
      [[[⟨0, true⟩]], [[⟨0, false⟩], [⟨1, false⟩]]] := by
    rw [List.map_cons, List.map_singleton, hbig, hother]
  exact ⟨_, condition, htiers, hred, hnone, hsome _ condition hcondition,
    hdangling ['\t'] (List.forall_mem_singleton.mpr (by decide))⟩

/-! ## Texts that are accepted -/

/-- A text is composed of tiers and an ending, in which a condition may stand. The tiers and the
condition are formulas without keywords, and a rule that is named by the text consists of them. -/
structure Composed (v : Vocabulary) (t : Text) (rule : ChoiceRule) (texts : List Text)
    (text? : Option Text) (ending : Text) : Prop where
  name_eq : rule.name = Text.trim t
  text_eq : Text.trim t = betterThan.intercalate texts ++ ending
  parts : Parts v texts text? rule
  keywords : ∀ text ∈ texts ++ text?.toList,
    ['B', 'T'] ∉ Text.words text ∧ ['I', 'F'] ∉ Text.words text
  isConditional_iff : rule.isConditional = true ↔ text?.isSome = true

/-- A text is grammatical: it is composed of tiers, and then nothing, a condition, or a keyword with
nothing after it. -/
def Grammatical (v : Vocabulary) (t : Text) (rule : ChoiceRule) : Prop :=
  ∃ texts text? ending, Composed v t rule texts text? ending ∧ Ending ending text?

/-- The keyword of a condition is written once at most. -/
theorem Grammatical.count_if_le (h : Grammatical v t rule) :
    (Text.words t).count ['I', 'F'] ≤ 1 := by
  obtain ⟨texts, text?, ending, hcomposed, hending⟩ := h
  have hkeywords := hcomposed.keywords
  have htiers : (Text.words (betterThan.intercalate texts)).count ['I', 'F'] = 0 := by
    refine List.count_eq_zero.mpr fun hmem => ?_
    rcases Text.mem_words_intercalate isWord_better hmem with heq | ⟨text, htext, hword⟩
    · cases heq
    · exact (hkeywords text (List.mem_append_left _ htext)).2 hword
  rw [← Text.words_trim, hcomposed.text_eq]
  cases hending with
  | nothing => rw [List.append_nil, htiers]; exact Nat.zero_le 1
  | @condition text _ =>
    have htext := (hkeywords text (List.mem_append_right _ List.mem_cons_self)).2
    rw [words_append_conditional, List.count_append, htiers, List.count_cons_self,
      List.count_eq_zero.mpr htext]
  | dangling => rw [words_append_dangling, List.count_append, htiers, List.count_singleton_self]

/-- **The texts of choice rules.** Where no label looks like a keyword, the texts that are accepted
are the grammatical ones, and besides those with one keyword more at their end. -/
theorem parse_iff_composed (hbetter : ['B', 'T'] ∉ v.labels) (hif : ['I', 'F'] ∉ v.labels)
    (t : Text) (rule : ChoiceRule) :
    parse v t = .ok rule ↔ ∃ texts text? ending, Composed v t rule texts text? ending ∧
      (Ending ending text? ∨ Surplus ending text?) := by
  constructor
  · intro h
    obtain ⟨hname, texts, text?, ending, ht, hparts, hending⟩ := exists_parts_of_parse h
    refine ⟨texts, text?, ending, ⟨hname, ht, hparts, fun text htext => ?_,
      hparts.isConditional_iff⟩, hending⟩
    apply not_mem_words_of_parse hbetter hif
    rcases List.mem_append.mp htext with htier | hcondition
    · exact hparts.exists_parse_of_mem_tiers text htier
    · exact hparts.exists_parse_of_mem_condition text (Option.mem_toList.mp hcondition)
  · rintro ⟨texts, text?, ending, hcomposed, hending⟩
    exact parse_of_parts hbetter hif hcomposed.parts hcomposed.text_eq hending hcomposed.name_eq

/-- A keyword after the condition is passed over, a keyword after a keyword is not. -/
theorem parse_iff_composed_gifts :
    ['B', 'T'] ∉ Formula.gifts.labels ∧ ['I', 'F'] ∉ Formula.gifts.labels ∧
      (∃ rule texts text? ending,
        Composed Formula.gifts "big BT small IF red IF".toList rule texts text? ending ∧
          (Ending ending text? ∨ Surplus ending text?)) ∧
      ∀ rule texts text? ending, Composed Formula.gifts "big IF IF".toList rule texts text? ending →
        ¬ (Ending ending text? ∨ Surplus ending text?) := by
  have hbetter : ['B', 'T'] ∉ Formula.gifts.labels := by decide
  have hif : ['I', 'F'] ∉ Formula.gifts.labels := by decide
  refine ⟨hbetter, hif, ?_, fun rule texts text? ending hcomposed hending => ?_⟩
  · obtain ⟨rule, hrule, -⟩ : ∃ rule,
        parse Formula.gifts "big BT small IF red IF".toList = .ok rule ∧ rule.tiers.length = 2 :=
      map_eq_ok_iff.mp (by decide)
    exact ⟨rule, (parse_iff_composed hbetter hif _ rule).mp hrule⟩
  · have hrule := (parse_iff_composed hbetter hif _ rule).mpr ⟨_, _, _, hcomposed, hending⟩
    have herror : parse Formula.gifts "big IF IF".toList =
        .error (.label (.invalidNegation "big".toList "big IF".toList)) := by decide
    rw [herror] at hrule
    cases hrule

/-- A text with a keyword more than the grammar allows is accepted: it ends with a keyword that has
nothing after it, and its rule has a condition. -/
theorem exists_ungrammatical_accepted :
    (∀ word ∈ [['A', 'N', 'D'], ['O', 'R'], ['B', 'T'], ['I', 'F']], word ∉ Formula.gifts.labels) ∧
      ∃ rule, parse Formula.gifts "big BT small IF red IF".toList = .ok rule ∧
        rule.isConditional = true ∧
        (Text.words "big BT small IF red IF".toList).getLast? = some ['I', 'F'] ∧
        ¬ Grammatical Formula.gifts "big BT small IF red IF".toList rule := by
  obtain ⟨rule, hrule, hconditional⟩ : ∃ rule,
      parse Formula.gifts "big BT small IF red IF".toList = .ok rule ∧ rule.isConditional = true :=
    map_eq_ok_iff.mp (by decide)
  refine ⟨by decide, rule, hrule, hconditional, by decide, fun hgrammatical => ?_⟩
  have hcount := hgrammatical.count_if_le
  revert hcount
  decide

end ChoiceRule

end PreferenceLogic
