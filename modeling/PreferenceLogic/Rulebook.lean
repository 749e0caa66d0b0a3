import PreferenceLogic.Problem.Error

/-!
# Rulebooks

A rulebook holds the rules of both logics in the order of their declaration. The names of rules are
the column heads of reports, so within one logic they are pairwise distinct.

Results:
* `firstRepeat?_eq_none_iff`: a list without a repeated element is one without duplicates.
-/

namespace PreferenceLogic

/-- The first element of a list that was seen before or stands earlier in the list. -/
def firstRepeatAfter? (seen : List Text) : List Text → Option Text
  | [] => none
  | name :: rest => if seen.contains name then some name else firstRepeatAfter? (name :: seen) rest

/-- The first element of a list that stands earlier in the list. -/
def firstRepeat? (names : List Text) : Option Text := firstRepeatAfter? [] names

theorem firstRepeatAfter?_eq_none_iff {seen names : List Text} :
    firstRepeatAfter? seen names = none ↔ names.Nodup ∧ ∀ name ∈ names, name ∉ seen := by
  induction names generalizing seen with
  | nil => simp [firstRepeatAfter?]
  | cons name rest ih =>
    simp only [firstRepeatAfter?, List.nodup_cons, List.mem_cons, forall_eq_or_imp]
    split
    · rename_i h
      have hmem : name ∈ seen := by simpa using h
      simp [hmem]
    · rename_i h
      have hmem : name ∉ seen := by simpa using h
      simp only [ih, List.mem_cons, not_or, hmem, not_false_eq_true, true_and]
      constructor
      · rintro ⟨hnodup, hseen⟩
        exact ⟨⟨fun hmem => (hseen name hmem).1 rfl, hnodup⟩,
          fun other hmem => (hseen other hmem).2⟩
      · rintro ⟨⟨hname, hnodup⟩, hseen⟩
        exact ⟨hnodup, fun other hmem => ⟨fun heq => hname (heq ▸ hmem), hseen other hmem⟩⟩

theorem firstRepeat?_eq_none_iff {names : List Text} : firstRepeat? names = none ↔ names.Nodup := by
  simp [firstRepeat?, firstRepeatAfter?_eq_none_iff]

/-- The rules of both logics. -/
structure Rulebook where
  penalty : List PenaltyRule
  choice : List ChoiceRule
deriving DecidableEq, Repr

/-- The rulebook of some rules. A repeated name is an error, among the penalty rules first. The same
name may stand once in each logic. -/
def Rulebook.ofRules (penalty : List PenaltyRule) (choice : List ChoiceRule) :
    Except Problem.Error Rulebook :=
  match firstRepeat? (penalty.map PenaltyRule.name) with
  | some name => .error (.duplicateRule name)
  | none =>
    match firstRepeat? (choice.map ChoiceRule.name) with
    | some name => .error (.duplicateRule name)
    | none => .ok { penalty, choice }

end PreferenceLogic
