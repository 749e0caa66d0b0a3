import Mathlib.Data.Nat.Basic
import Mathlib.Order.Basic
import PreferenceLogic.Language
import PreferenceLogic.Proofs.Object.Space
import PreferenceLogic.Proofs.Pointwise

/-!
# The meaning of formula texts

A formula text speaks about the labels of an object: each part between conjunctions has a part
between disjunctions that is one of the labels, or the negation marker and a label that is not among
them. Reading the text keeps this meaning.

Definitions:
* `Formula.Holds`: a formula text holds of the labels of an object.
* `Formula.Mentions`: a formula text mentions a label.

Results:
* `reachOf_le_iff`: clauses stay within some atoms exactly when every literal does.
* `reachOf_append`: clauses with others added reach as far as those that reach farther.
* `Formula.holds_iff_eval`: a text that can be read holds of an object exactly when the formula that
  is read is true under the choices of the object.
* `Formula.reach_le_of_parse`: a formula that is read stays within the attributes.
* `Formula.holds_congr`: only the labels that a text mentions matter.
* `Formula.literals_satisfy_iff_holds`: the literals of an object satisfy the clauses exactly when
  the text holds of its labels.
-/

namespace PreferenceLogic

/-! ## The reach of clauses -/

theorem Clause.reach_le_iff {c : Clause} {n : Nat} : c.reach ≤ n ↔ ∀ l ∈ c, l.atom < n := by
  induction c with
  | nil => simp [Clause.reach]
  | cons l rest ih =>
    rw [show Clause.reach (l :: rest) = max (l.atom + 1) (Clause.reach rest) from rfl,
      Nat.max_le, ih, List.forall_mem_cons, Nat.lt_iff_add_one_le]

theorem reachOf_le_iff {clauses : List Clause} {n : Nat} :
    reachOf clauses ≤ n ↔ ∀ c ∈ clauses, ∀ l ∈ c, l.atom < n := by
  induction clauses with
  | nil => simp [reachOf]
  | cons c rest ih =>
    rw [show reachOf (c :: rest) = max (Clause.reach c) (reachOf rest) from rfl,
      Nat.max_le, ih, List.forall_mem_cons, Clause.reach_le_iff]

/-- Where clauses are added, those that reach farther count. -/
theorem reachOf_append (clauses others : List Clause) :
    reachOf (clauses ++ others) = max (reachOf clauses) (reachOf others) := by
  refine eq_of_forall_ge_iff fun n => ?_
  rw [Nat.max_le, reachOf_le_iff, reachOf_le_iff, reachOf_le_iff, List.forall_mem_append]

namespace Formula

/-! ## Texts and labels -/

/-- The words of a literal hold of some labels: one word is among them, or it is not and stands
after the negation marker. -/
def WordsHold (labels : List Text) : List Text → Prop
  | [label] => label ∈ labels
  | [marker, label] => isNegation marker = true ∧ label ∉ labels
  | _ => False

instance (labels : List Text) : (words : List Text) → Decidable (WordsHold labels words)
  | [] => inferInstanceAs (Decidable False)
  | [label] => inferInstanceAs (Decidable (label ∈ labels))
  | [marker, label] => inferInstanceAs (Decidable (isNegation marker = true ∧ label ∉ labels))
  | _ :: _ :: _ :: _ => inferInstanceAs (Decidable False)

/-- A literal as it is written holds of some labels. -/
def LiteralHolds (labels : List Text) (part : Text) : Prop := WordsHold labels (Text.words part)

instance (labels : List Text) (part : Text) : Decidable (LiteralHolds labels part) :=
  inferInstanceAs (Decidable (WordsHold labels (Text.words part)))

/-- A formula text holds of some labels: each part between conjunctions has a part between
disjunctions that does. -/
def Holds (labels : List Text) (t : Text) : Prop :=
  ∀ clause ∈ Text.split conjunction (Text.trim t),
    ∃ part ∈ Text.split disjunction clause, LiteralHolds labels part

instance (labels : List Text) (t : Text) : Decidable (Holds labels t) :=
  inferInstanceAs (Decidable (∀ clause ∈ _, ∃ part ∈ _, LiteralHolds labels part))

/-- A formula text mentions the last word of each of its literals. -/
def Mentions (t label : Text) : Prop :=
  ∃ clause ∈ Text.split conjunction (Text.trim t),
    ∃ part ∈ Text.split disjunction clause, (Text.words part).getLast? = some label

instance (t label : Text) : Decidable (Mentions t label) :=
  inferInstanceAs (Decidable (∃ clause ∈ _, ∃ part ∈ _, (Text.words part).getLast? = some label))

theorem literalHolds_congr {labels labels' : List Text} {part : Text}
    (h : ∀ label, (Text.words part).getLast? = some label → (label ∈ labels ↔ label ∈ labels')) :
    LiteralHolds labels part ↔ LiteralHolds labels' part := by
  unfold LiteralHolds WordsHold
  split
  · rename_i label hwords
    exact h label (by rw [hwords]; rfl)
  · rename_i marker label hwords
    rw [h label (by rw [hwords]; rfl)]
  · rfl

theorem holds_congr {labels labels' : List Text} {t : Text}
    (h : ∀ label, Mentions t label → (label ∈ labels ↔ label ∈ labels')) :
    Holds labels t ↔ Holds labels' t := by
  unfold Holds
  refine forall₂_congr fun clause hclause => exists_congr fun part => ?_
  refine and_congr_right fun hpart => literalHolds_congr fun label hlast => ?_
  exact h label ⟨clause, hclause, part, hpart, hlast⟩

/-! ## Reading keeps the meaning -/

variable {v : Vocabulary} {object : Object} {t : Text}

theorem parseLiteral_eq_ok {part : Text} {l : Literal} (h : parseLiteral v part = .ok l) :
    (∃ label, Text.words part = [label] ∧ v.resolve label = .ok l) ∨
      ∃ marker label m, Text.words part = [marker, label] ∧ isNegation marker = true ∧
        v.resolve label = .ok m ∧ l = m.negate := by
  unfold parseLiteral at h
  split at h
  · rename_i label hwords
    exact .inl ⟨label, hwords, h⟩
  · rename_i marker label hwords
    split at h
    · rename_i hmarker
      obtain ⟨m, hm, rfl⟩ := map_eq_ok_iff.mp h
      exact .inr ⟨marker, label, m, hwords, hmarker, hm, rfl⟩
    · cases h
  · cases h

theorem literalHolds_iff_eval (hobject : object ∈ v.objects) {part : Text} {l : Literal}
    (h : parseLiteral v part = .ok l) :
    LiteralHolds object.labels part ↔ l.eval object.valuation = true := by
  unfold LiteralHolds
  rcases parseLiteral_eq_ok h with
    ⟨label, hwords, hl⟩ | ⟨marker, label, m, hwords, hmarker, hm, rfl⟩
  · rw [hwords]
    exact Vocabulary.mem_labels_of_resolve hobject hl
  · rw [hwords]
    simp only [WordsHold, hmarker, true_and, Literal.eval_negate, Bool.not_eq_true',
      ← Bool.not_eq_true, Vocabulary.mem_labels_of_resolve hobject hm]

theorem clauseHolds_iff_eval (hobject : object ∈ v.objects) {c : Clause}
    (h : parseClause v t = .ok c) :
    (∃ part ∈ Text.split disjunction t, LiteralHolds object.labels part) ↔
      c.eval object.valuation = true := by
  have hparts := mapM_eq_ok_iff.mp h
  rw [exists_mem_iff_of_forall₂ (hparts.imp fun _ _ => literalHolds_iff_eval hobject),
    Clause.eval, List.any_eq_true]

theorem parse_eq_ok_iff {f : Formula} :
    parse v t = .ok f ↔ ∃ clauses,
      List.Forall₂ (fun part c => parseClause v part = .ok c)
        (Text.split conjunction (Text.trim t)) clauses ∧ f = ofClauses v.size clauses := by
  rw [parse, map_eq_ok_iff]
  simp only [mapM_eq_ok_iff, @eq_comm _ f]

theorem holds_iff_eval (hobject : object ∈ v.objects) {f : Formula} (h : parse v t = .ok f) :
    Holds object.labels t ↔ f.eval object.valuation = true := by
  obtain ⟨clauses, hclauses, rfl⟩ := parse_eq_ok_iff.mp h
  rw [eval_ofClauses, List.all_eq_true, Holds]
  exact forall_mem_iff_of_forall₂ (hclauses.imp fun _ _ => clauseHolds_iff_eval hobject)

theorem atom_lt_of_parseLiteral {part : Text} {l : Literal} (h : parseLiteral v part = .ok l) :
    l.atom < v.size := by
  rcases parseLiteral_eq_ok h with ⟨label, -, hl⟩ | ⟨marker, label, m, -, -, hm, rfl⟩
  · exact Vocabulary.atom_lt_of_label? (Vocabulary.resolve_eq_ok_iff.mp hl)
  · show m.atom < v.size
    exact Vocabulary.atom_lt_of_label? (Vocabulary.resolve_eq_ok_iff.mp hm)

theorem reach_le_of_parse {f : Formula} (h : parse v t = .ok f) : f.reach ≤ v.size := by
  obtain ⟨clauses, hclauses, rfl⟩ := parse_eq_ok_iff.mp h
  rw [reach, clauses_ofClauses, reachOf_le_iff]
  intro c hc
  obtain ⟨part, -, hpart⟩ := exists_mem_of_forall₂ hclauses hc
  intro l hl
  obtain ⟨text, -, htext⟩ := exists_mem_of_forall₂ (mapM_eq_ok_iff.mp hpart) hl
  exact atom_lt_of_parseLiteral htext

/-! ## Literals and labels of an object -/

/-- An object satisfies a formula within the attributes by its literals. -/
theorem eval_iff_literals (hobject : object ∈ v.objects) {f : Formula} (hreach : f.reach ≤ v.size) :
    f.eval object.valuation = true ↔ ∀ c ∈ f.clauses, ∃ l ∈ c, l ∈ object.literals := by
  rw [reach, reachOf_le_iff] at hreach
  rw [eval, List.all_eq_true]
  refine forall₂_congr fun c hc => ?_
  rw [Clause.eval, List.any_eq_true]
  refine exists_congr fun l => and_congr_right fun hl => ?_
  rw [Vocabulary.mem_literals_iff hobject]
  exact (and_iff_right (hreach c hc l hl)).symm

/-- **Meaning of formulas.** Over any vocabulary and for every text that can be read, the literals
of an object have one in common with each clause that is read exactly when each part of the text
between conjunctions has a part between disjunctions that is a label of the object, or the negation
marker and a label that the object does not have. -/
theorem literals_satisfy_iff_holds {f : Formula} (h : parse v t = .ok f)
    (hobject : object ∈ v.objects) :
    (∀ c ∈ f.clauses, ∃ l ∈ c, l ∈ object.literals) ↔ Holds object.labels t := by
  rw [holds_iff_eval hobject h, eval_iff_literals hobject (reach_le_of_parse h)]

/-- The size and the colour of a gift. -/
def gifts : Vocabulary where
  attributes :=
    [⟨"size".toList, "big".toList, "small".toList⟩, ⟨"colour".toList, "red".toList, "blue".toList⟩]
  nodup_labels := by decide

/-- What is not small is big, so the second gift from the end, big and blue, satisfies the text by
the same literals as its labels do. -/
theorem literals_satisfy_iff_holds_gifts :
    ∃ f object, parse gifts "red OR not small AND NOT red".toList = .ok f ∧
      object ∈ gifts.objects ∧ object.labels = ["big".toList, "blue".toList] ∧
      (∀ c ∈ f.clauses, ∃ l ∈ c, l ∈ object.literals) ∧
      Holds object.labels "red OR not small AND NOT red".toList := by
  obtain ⟨f, hparse, -⟩ : ∃ f, parse gifts "red OR not small AND NOT red".toList = .ok f ∧
      f.clauses = [[⟨1, true⟩, ⟨0, true⟩], [⟨1, false⟩]] := map_eq_ok_iff.mp (by decide)
  have hobject : gifts.object 2 ∈ gifts.objects := by decide
  have hholds : Holds (gifts.object 2).labels "red OR not small AND NOT red".toList := by decide
  exact ⟨f, gifts.object 2, hparse, hobject, rfl,
    (literals_satisfy_iff_holds hparse hobject).mpr hholds, hholds⟩

end Formula

end PreferenceLogic
