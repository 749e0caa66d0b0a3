import PreferenceLogic.File.Read
import PreferenceLogic.Proofs.File.ContentLines
import PreferenceLogic.Proofs.Formula.Language
import PreferenceLogic.Proofs.Text.Numeral

/-!
# The texts of penalty rules

A penalty rule is written as a formula, a comma and a numeral of 64 bits. The formula may have
commas of its own: the last comma of the text counts. Reading accepts exactly the texts that are so
written, and otherwise says what is wrong: there is no comma, or no such numeral after the last one,
or the formula cannot be read. Where both are wrong, the numeral is the fault.

Definitions:
* `PenaltyRule.Divided`: what stands before and after the last comma of a text.
* `PenaltyRule.IsPenalty`: a text is a numeral, with blanks around it, that does not exceed the
  limit.
* `PenaltyRule.Written`: a text is written as a rule.
* `PenaltyRule.Refuses`: a text is refused because of a fault.

Results:
* `PenaltyRule.parse_eq_ok_iff`, `PenaltyRule.parse_eq_error_iff`: reading accepts what is written,
  and refuses the rest.
* `PenaltyRule.atLine_parse_iff`: the same at a numbered line.
* `PenaltyRule.read_eq_error_iff`: a file of rules is refused at its first line that is no rule.
-/

namespace PreferenceLogic

namespace PenaltyRule

/-! ## Parts of a rule -/

/-- A text is divided at its last comma. -/
structure Divided (t formulaText penaltyText : Text) : Prop where
  eq : t = formulaText ++ ',' :: penaltyText
  comma : ',' ∉ penaltyText

/-- A text, without the blanks around it, is a numeral of a number of 64 bits. -/
structure IsPenalty (t : Text) (penalty : Nat) : Prop where
  numeral : Text.Denotes (Text.trim t) penalty
  bound : penalty ≤ 2 ^ 64 - 1

variable {v : Vocabulary} {t formulaText penaltyText : Text} {penalty : Nat} {rule : PenaltyRule}
  {fault : Fault}

theorem cutLast?_eq_some_iff :
    Text.cutLast? ',' t = some (formulaText, penaltyText) ↔ Divided t formulaText penaltyText := by
  constructor
  · intro h
    obtain ⟨ht, hcomma⟩ := Text.eq_of_cutLast? h
    exact ⟨ht, hcomma⟩
  · rintro ⟨rfl, hcomma⟩
    exact Text.cutLast?_append hcomma

theorem readPenalty?_eq_some_iff :
    readPenalty? (Text.trim t) = some penalty ↔ IsPenalty t penalty := by
  rw [readPenalty?, Option.filter_eq_some_iff, Text.readDecimal?_eq_some_iff, decide_eq_true_iff]
  exact ⟨fun h => ⟨h.1, h.2⟩, fun h => ⟨h.numeral, h.bound⟩⟩

/-! ## Rules that are written, and texts that are refused -/

/-- A text is written as a rule: it is a formula text, a comma and a penalty without commas. The
rule has this formula and this penalty, and is named by the text of the formula. -/
def Written (v : Vocabulary) (t : Text) (rule : PenaltyRule) : Prop :=
  ∃ formulaText penaltyText, Divided t formulaText penaltyText ∧
    IsPenalty penaltyText rule.penalty ∧ Formula.parse v formulaText = .ok rule.formula ∧
    rule.name = Text.trim formulaText

/-- A text is refused because of a fault. What stands after the last comma is looked at first, so a
formula that cannot be read is the fault only if there is a penalty. -/
inductive Refuses (v : Vocabulary) (t : Text) : Fault → Prop where
  | comma (h : ',' ∉ t) : Refuses v t (.penaltyRule t)
  | penalty {formulaText penaltyText : Text} (h : Divided t formulaText penaltyText)
      (hpenalty : ∀ penalty, ¬ IsPenalty penaltyText penalty) :
      Refuses v t (.penalty (Text.trim penaltyText))
  | formula {formulaText penaltyText : Text} {penalty : Nat} {cause : LabelError}
      (h : Divided t formulaText penaltyText) (hpenalty : IsPenalty penaltyText penalty)
      (hformula : Formula.parse v formulaText = .error cause) : Refuses v t (.label cause)

/-- Every text is written as a rule, or is refused. -/
theorem written_or_refuses (v : Vocabulary) (t : Text) :
    (∃ rule, Written v t rule) ∨ ∃ fault, Refuses v t fault := by
  by_cases hcomma : ',' ∈ t
  · obtain ⟨⟨formulaText, penaltyText⟩, hcut⟩ :=
      Option.ne_none_iff_exists'.mp (Text.cutLast?_ne_none hcomma)
    have hdivided := cutLast?_eq_some_iff.mp hcut
    by_cases hpenalty : ∃ penalty, IsPenalty penaltyText penalty
    · obtain ⟨penalty, hpenalty⟩ := hpenalty
      cases hformula : Formula.parse v formulaText with
      | ok formula =>
        exact .inl ⟨⟨Text.trim formulaText, formula, penalty⟩, formulaText, penaltyText, hdivided,
          hpenalty, hformula, rfl⟩
      | error cause => exact .inr ⟨_, .formula hdivided hpenalty hformula⟩
    · exact .inr ⟨_, .penalty hdivided (not_exists.mp hpenalty)⟩
  · exact .inr ⟨_, .comma hcomma⟩

/-! ## Reading a text -/

/-- Where a penalty stands after the last comma, the formula text decides. -/
theorem parse_of_divided {formulaText penaltyText : Text} {penalty : Nat}
    (h : Divided t formulaText penaltyText) (hpenalty : IsPenalty penaltyText penalty) :
    parse v t = ((Formula.parse v formulaText).mapError Fault.label).map fun formula =>
      ⟨Text.trim formulaText, formula, penalty⟩ := by
  rw [parse, cutLast?_eq_some_iff.mpr h]
  dsimp only
  rw [readPenalty?_eq_some_iff.mpr hpenalty]
  dsimp only
  rw [Formula.parse_trim]
  cases Formula.parse v formulaText <;> rfl

theorem parse_of_written (h : Written v t rule) : parse v t = .ok rule := by
  obtain ⟨formulaText, penaltyText, hdivided, hpenalty, hformula, hname⟩ := h
  obtain ⟨name, formula, penalty⟩ := rule
  dsimp only at hpenalty hformula hname
  subst hname
  rw [parse_of_divided hdivided hpenalty, hformula]
  rfl

theorem parse_of_refuses (h : Refuses v t fault) : parse v t = .error fault := by
  cases h with
  | comma hcomma => rw [parse, Text.cutLast?_eq_none hcomma]
  | @penalty _ penaltyText hdivided hpenalty =>
    have hnone : readPenalty? (Text.trim penaltyText) = none :=
      Option.eq_none_iff_forall_ne_some.mpr fun penalty hread =>
        hpenalty penalty (readPenalty?_eq_some_iff.mp hread)
    rw [parse, cutLast?_eq_some_iff.mpr hdivided]
    dsimp only
    rw [hnone]
  | formula hdivided hpenalty hformula =>
    rw [parse_of_divided hdivided hpenalty, hformula]
    rfl

theorem parse_eq_ok_iff : parse v t = .ok rule ↔ Written v t rule := by
  refine ⟨fun h => ?_, parse_of_written⟩
  rcases written_or_refuses v t with ⟨other, hwritten⟩ | ⟨fault, hrefuses⟩
  · rw [parse_of_written hwritten] at h
    cases h
    exact hwritten
  · rw [parse_of_refuses hrefuses] at h
    cases h

theorem parse_eq_error_iff : parse v t = .error fault ↔ Refuses v t fault := by
  refine ⟨fun h => ?_, parse_of_refuses⟩
  rcases written_or_refuses v t with ⟨rule, hwritten⟩ | ⟨other, hrefuses⟩
  · rw [parse_of_written hwritten] at h
    cases h
  · rw [parse_of_refuses hrefuses] at h
    cases h
    exact hrefuses

-- the number is looked at before the formula
example : parse Formula.gifts "huge, five".toList = .error (.penalty "five".toList) := by decide

/-- **Reading a penalty rule.** At whatever line it stands, a text is accepted exactly when it is
written as a rule, with the rule that is written. Otherwise the error is at this line, and its fault
is the one that the text is refused for. -/
theorem atLine_parse_iff (v : Vocabulary) (line : Nat) (t : Text) :
    (∀ rule, File.atLine line (parse v t) = .ok rule ↔ Written v t rule) ∧
      ∀ err, File.atLine line (parse v t) = .error err ↔
        err.line = line ∧ Refuses v t err.fault := by
  constructor
  · intro rule
    rw [File.atLine, mapError_eq_ok_iff, parse_eq_ok_iff]
  · intro err
    simp only [File.atLine, mapError_eq_error_iff, parse_eq_error_iff]
    constructor
    · rintro ⟨fault, hrefuses, rfl⟩
      exact ⟨rfl, hrefuses⟩
    · rintro ⟨rfl, hrefuses⟩
      exact ⟨err.fault, hrefuses, rfl⟩

/-! ## Reading a file -/

/-- A file of rules is refused at its first content line that is no rule. -/
theorem read_eq_error_iff {input : List UInt8} (h : File.Decodable input) {err : LineError} :
    read v input = .error (.line err) ↔
      ∃ before line after, File.numberedLines input = before ++ line :: after ∧
        (∀ other ∈ before, ∃ rule, Written v other.2 rule) ∧ err.line = line.1 ∧
        Refuses v line.2 err.fault := by
  rw [read, File.collect_eq_mapM h]
  simp only [mapError_eq_error_iff, mapM_eq_error_iff, (atLine_parse_iff v _ _).1,
    (atLine_parse_iff v _ _).2]
  constructor
  · rintro ⟨_, hlines, heq⟩
    cases heq
    exact hlines
  · intro hlines
    exact ⟨err, hlines, rfl⟩

end PenaltyRule

end PreferenceLogic
