import PreferenceLogic.Proofs.Text.Joined
import PreferenceLogic.Proofs.Text.Numeral
import PreferenceLogic.Report

/-!
# What reports say

A report about two objects names them and says how they compare. Names are told apart by their
numbers, so no two such reports have the same text. The report on the optimal objects lists their
names, and they are found again in its text.

Definitions:
* `Report.Statement`: what can be said about how two objects compare.
* `Report.Statement.About`: a statement is about two objects, in the order in which they are named.
* `Report.exampleOf`: the text that names two objects and makes a statement.
* `Report.listed`: the names that are listed as optimal.

Results:
* `Text.decimal_append_inj`: a numeral ends where the digits end.
* `Report.exampleOf_inj`: objects and statements are found again in the text.
* `Report.exemplification_eq`: the text of an example makes a statement.
* `Report.nameOf_mem_listed_iff`: the names of exactly the optimal objects are listed.
-/

namespace PreferenceLogic

/-! ## Names -/

namespace Text

theorem decimal_inj {m n : Nat} : decimal m = decimal n ↔ m = n := by
  constructor
  · intro h
    have hnumber := readDecimal?_decimal m
    rw [h, readDecimal?_decimal] at hnumber
    exact (Option.some.inj hnumber).symm
  · exact congrArg decimal

/-- A numeral ends where the digits end. -/
theorem decimal_append_inj {m n : Nat} {c d : Char} {s t : Text} (hc : c.isDigit = false)
    (hd : d.isDigit = false) :
    decimal m ++ c :: s = decimal n ++ d :: t ↔ m = n ∧ c = d ∧ s = t := by
  have hdigits : ∀ (n : Nat) (c : Char) (s : Text), c.isDigit = false →
      (decimal n ++ c :: s).takeWhile Char.isDigit = decimal n := by
    intro n c s hc
    rw [List.takeWhile_append_of_pos fun _ => isDigit_of_mem_decimal,
      List.takeWhile_cons_of_neg (by simp [hc]), List.append_nil]
  constructor
  · intro h
    have hdecimal : decimal m = decimal n := by
      rw [← hdigits m c s hc, h, hdigits n d t hd]
    rw [hdecimal, List.append_cancel_left_eq, List.cons.injEq] at h
    exact ⟨decimal_inj.mp hdecimal, h⟩
  · rintro ⟨rfl, rfl, rfl⟩
    rfl

theorem dropEnding_of_not_mem {c : Char} {t : Text} (h : c ∉ t) : dropEnding [c] t = t := by
  rw [dropEnding, if_neg]
  intro hsuffix
  exact h ((List.isSuffixOf_iff_suffix.mp hsuffix).subset (List.mem_singleton_self c))

end Text

namespace Object

theorem nameOf_injective : Function.Injective nameOf := fun _ _ h =>
  Text.decimal_inj.mp (List.cons.inj h).2

theorem isWord_nameOf (id : Nat) : Text.IsWord (nameOf id) := by
  refine ⟨List.cons_ne_nil _ _, List.forall_mem_cons.mpr ⟨rfl, fun c hc => ?_⟩⟩
  obtain ⟨d, hd, rfl⟩ := Text.exists_digit (Text.isDigit_of_mem_decimal hc)
  exact (by decide : ∀ d < 10, Text.isBlank (Nat.digitChar d) = false) d hd

theorem comma_not_mem_nameOf (id : Nat) : ',' ∉ nameOf id := by
  rw [nameOf, List.mem_cons, not_or]
  exact ⟨by decide, fun hmem => absurd (Text.isDigit_of_mem_decimal hmem) (by decide)⟩

end Object

/-! ## Statements about two objects -/

namespace Report

/-- A line of output. -/
def line (t : Text) : Text := t ++ ['\n']

/-- What can be said about how two objects compare. -/
inductive Statement where
  | preferred (x y : Nat)
  | equivalent (x y : Nat)
  | equal (x y : Nat)
  | incomparable (x y : Nat)
deriving DecidableEq, Repr

namespace Statement

/-- The wording of a statement. -/
def text : Statement → Text
  | preferred x y => line ("and ".toList ++ Object.nameOf x ++
      " is strictly preferred over ".toList ++ Object.nameOf y ++ ".".toList)
  | equivalent x y =>
    line (Object.nameOf x ++ " and ".toList ++ Object.nameOf y ++ " are equivalent.".toList)
  | equal x y => line ("and ".toList ++ Object.nameOf x ++ " and ".toList ++ Object.nameOf y ++
      " are equal.".toList)
  | incomparable x y => line ("and ".toList ++ Object.nameOf x ++ " and ".toList ++
      Object.nameOf y ++ " are incomparable.".toList)

/-- A statement is about two objects. A preference is stated either way. -/
def About (a b : Nat) : Statement → Prop
  | preferred x y => x = a ∧ y = b ∨ x = b ∧ y = a
  | equivalent x y | equal x y | incomparable x y => x = a ∧ y = b

/-- What the outcome of a comparison says about two objects. -/
def ofOutcome (logic : Logic) (a b : Nat) : Comparison → Statement
  | .first => preferred a b
  | .second => preferred b a
  | tie =>
    match logic, tie with
    | .penalty, _ => equivalent a b
    | .qualitative, .equal => equal a b
    | .qualitative, _ => incomparable a b

theorem verdict_eq (logic : Logic) (a b : Nat) (c : Comparison) :
    (verdictParts logic (Object.nameOf a) (Object.nameOf b) c).flatten =
      (ofOutcome logic a b c).text := by
  cases c <;> cases logic <;> simp [verdictParts, ofOutcome, text, line]

end Statement

theorem Statement.text_inj {w w' : Statement} (h : w.text = w'.text) : w = w' := by
  cases w <;> cases w' <;>
    simp [text, line, Object.nameOf, Text.decimal_append_inj, Text.decimal_inj] at h ⊢ <;>
    exact h

/-- The text that names two objects and makes a statement. -/
def exampleOf (a b : Nat) (w : Statement) : Text :=
  line ("Two randomly selected feasible objects are ".toList ++ Object.nameOf a ++
    " and ".toList ++ Object.nameOf b ++ ",".toList) ++ w.text

theorem exemplification_eq (logic : Logic) (a b : Nat) (c : Comparison) :
    exemplification logic ⟨a, b, c⟩ = exampleOf a b (.ofOutcome logic a b c) := by
  rw [exemplification, exemplificationParts, List.flatten_append, Statement.verdict_eq, exampleOf]
  simp [line]

/-- The objects and the statement are found again in the text. -/
theorem exampleOf_inj {a b a' b' : Nat} {w w' : Statement} :
    exampleOf a b w = exampleOf a' b' w' ↔ a = a' ∧ b = b' ∧ w = w' := by
  constructor
  · intro h
    have hparts : a = a' ∧ b = b' ∧ w.text = w'.text := by
      simpa [exampleOf, line, Object.nameOf, Text.decimal_append_inj] using h
    exact ⟨hparts.1, hparts.2.1, Statement.text_inj hparts.2.2⟩
  · rintro ⟨rfl, rfl, rfl⟩
    rfl

/-! ## The list of optimal objects -/

/-- The names that are listed as optimal: what follows the first three words, without the commas. -/
def listed (t : Text) : List Text := ((Text.words t).drop 3).map (Text.dropEnding [','])

theorem map_dropEnding_words {names : List Text} (hword : ∀ name ∈ names, Text.IsWord name)
    (hcomma : ∀ name ∈ names, ',' ∉ name) :
    (Text.words (", ".toList.intercalate names)).map (Text.dropEnding [',']) = names := by
  induction names with
  | nil => rfl
  | cons name names ih =>
    rw [List.forall_mem_cons] at hword hcomma
    have ih := ih hword.2 hcomma.2
    cases names with
    | nil =>
      rw [List.intercalate_singleton, hword.1.words_eq, List.map_singleton,
        Text.dropEnding_of_not_mem hcomma.1]
    | cons next names =>
      have hsplit : ", ".toList.intercalate (name :: next :: names) =
          (name ++ [',']) ++ ' ' :: ", ".toList.intercalate (next :: names) := by
        simp
      have hfirst : Text.IsWord (name ++ [',']) :=
        ⟨by simp, List.forall_mem_append.mpr ⟨hword.1.2, List.forall_mem_singleton.mpr rfl⟩⟩
      rw [hsplit, Text.words_append_cons Text.isBlank_space, hfirst.words_eq, List.map_append, ih,
        List.map_singleton, Text.dropEnding_append, List.singleton_append]

theorem listed_optimization (p : Problem) (logic : Logic) :
    listed (optimization p logic) = (p.optimal logic).map Object.nameOf := by
  have htext : ∀ names : Text, ["All optimal objects: ".toList, names, "\n".toList].flatten =
      "All".toList ++ ' ' :: ("optimal".toList ++ ' ' :: ("objects:".toList ++
        ' ' :: (names ++ ['\n']))) := by
    simp
  have hwords : ∀ word ∈ ["All".toList, "optimal".toList, "objects:".toList],
      Text.words word = [word] := by decide
  simp only [List.forall_mem_cons] at hwords
  rw [listed, optimization, optimizationParts, htext,
    Text.words_append_cons Text.isBlank_space, hwords.1,
    Text.words_append_cons Text.isBlank_space, hwords.2.1,
    Text.words_append_cons Text.isBlank_space, hwords.2.2.1, Text.words_concat rfl]
  refine map_dropEnding_words ?_ ?_
  · rw [List.forall_mem_map]
    exact fun id _ => Object.isWord_nameOf id
  · rw [List.forall_mem_map]
    exact fun id _ => Object.comma_not_mem_nameOf id

theorem nameOf_mem_listed_iff {p : Problem} {logic : Logic} {id : Nat} :
    Object.nameOf id ∈ listed (optimization p logic) ↔ id ∈ p.optimal logic := by
  rw [listed_optimization, List.mem_map_of_injective Object.nameOf_injective]

end Report

end PreferenceLogic
