import PreferenceLogic.Problem.Basic

/-!
# Reports

The texts that answer the reasoning tasks: the list of all objects, the number of feasible objects,
the table of scores, a comparison of two sampled objects, and the optimal objects. Each is written
in parts, line by line and within a line as it is put together.

The scores are shown as a grid: a table of texts with a header, drawn with lines of plus signs,
minus signs and bars. Every cell is centered in its column; if the padding is odd, the larger part
stands to the right.

Definitions:
* `Grid.parts`: the drawn grid in the parts in which it is written.
* `Grid.render`: the drawn grid.
* `Report.encodingParts`, `Report.feasibilityParts`, `Report.tableParts`,
  `Report.exemplificationParts`, `Report.optimizationParts`: the reports, part by part.
* `Report.table`, `Report.exemplification`, `Report.optimization`: reports as whole texts.
-/

namespace PreferenceLogic

/-! ## Grids -/

/-- A table of texts. -/
structure Grid where
  header : List Text
  rows : List (List Text)
deriving DecidableEq, Repr

namespace Grid

/-- Column widths that also fit the cells of a row. There are no more columns than widths. -/
def widen : List Nat → List Text → List Nat
  | width :: widths, cell :: cells => max width cell.length :: widen widths cells
  | widths, _ => widths

/-- The width of every column: that of its longest cell. -/
def widths (g : Grid) : List Nat := g.rows.foldl widen (g.header.map List.length)

/-- The line between the parts of a grid. -/
def separator (widths : List Nat) : List Text :=
  widths.flatMap (fun width => ["+".toList, List.replicate (width + 2) '-']) ++ ["+\n".toList]

/-- A cell in the middle of a column. -/
def center (width : Nat) (cell : Text) : Text :=
  let padding := width - cell.length
  List.replicate (padding / 2) ' ' ++ cell ++ List.replicate (padding - padding / 2) ' '

/-- The line of a row, with no more cells than there are columns. -/
def line (widths : List Nat) (row : List Text) : List Text :=
  (List.zipWith (fun width cell => ["| ".toList, center width cell, " ".toList])
    widths row).flatten ++ ["|\n".toList]

/-- The drawn grid in the parts in which it is written. A grid without rows ends after its
header. -/
def parts (g : Grid) : List Text :=
  let head := separator g.widths ++ line g.widths g.header ++ separator g.widths
  if g.rows = [] then head else head ++ g.rows.flatMap (line g.widths) ++ separator g.widths

/-- The drawn grid. -/
def render (g : Grid) : Text := g.parts.flatten

end Grid

/-! ## The names of the logics -/

namespace Logic

/-- The name of a logic. -/
def name : Logic → Text
  | penalty => "penalty".toList
  | qualitative => "qualitative".toList

/-- The logic with a given name, in any case of its ASCII letters. -/
def ofName? (name : Text) : Option Logic :=
  [penalty, qualitative].find? fun logic => logic.name == name.map Char.toLower

/-- The wording for a name that no logic has. -/
def unknownText (name : Text) : Text := "Unknown preference logic ".toList ++ Text.quoted name

end Logic

/-! ## The reports -/

namespace Report

/-- All objects with their labels. -/
def encodingParts (p : Problem) : List Text :=
  p.objects.flatMap fun o => o.parts ++ ["\n".toList]

/-- Whether there are feasible objects, and how many. -/
def feasibilityParts (p : Problem) : List Text :=
  match p.feasible.length with
  | 0 => ["No feasible objects.\n".toList]
  | count => ["Yes, there are ".toList, Text.decimal count, " feasible objects.\n".toList]

/-- The penalties and totals of the feasible objects as a grid. -/
def penaltyGrid (table : PenaltyTable) : Grid where
  header := "encoding".toList :: table.rules ++ ["total penalty".toList]
  rows := table.rows.map fun row =>
    Object.nameOf row.object :: row.penalties.map Text.decimal ++ [Text.decimal row.total]

/-- The degrees of the feasible objects as a grid. -/
def degreeGrid (table : DegreeTable) : Grid where
  header := "encoding".toList :: table.rules
  rows := table.rows.map fun row => Object.nameOf row.object :: row.degrees.map Degree.text

/-- The scores of the feasible objects as a grid. -/
def grid (p : Problem) : Logic → Grid
  | .penalty => penaltyGrid p.penalties
  | .qualitative => degreeGrid p.degrees

/-- The scores of the feasible objects. -/
def tableParts (p : Problem) (logic : Logic) : List Text := (grid p logic).parts

/-- How two objects compare, in words. Penalty logic knows one kind of tie. -/
def verdictParts (logic : Logic) (first second : Text) : Comparison → List Text
  | .first =>
    ["and ".toList, first, " is strictly preferred over ".toList, second, ".\n".toList]
  | .second =>
    ["and ".toList, second, " is strictly preferred over ".toList, first, ".\n".toList]
  | tie =>
    match logic, tie with
    | .penalty, _ => [first, " and ".toList, second, " are equivalent.\n".toList]
    | .qualitative, .equal =>
      ["and ".toList, first, " and ".toList, second, " are equal.\n".toList]
    | .qualitative, _ =>
      ["and ".toList, first, " and ".toList, second, " are incomparable.\n".toList]

/-- Two sampled objects and how they compare. -/
def exemplificationParts (logic : Logic) (e : Problem.Example) : List Text :=
  let first := Object.nameOf e.first
  let second := Object.nameOf e.second
  ["Two randomly selected feasible objects are ".toList, first, " and ".toList, second,
    ",\n".toList] ++ verdictParts logic first second e.outcome

/-- The optimal objects. -/
def optimizationParts (p : Problem) (logic : Logic) : List Text :=
  ["All optimal objects: ".toList,
    List.intercalate ", ".toList ((p.optimal logic).map Object.nameOf), "\n".toList]

/-! ### Whole texts -/

/-- The table of scores. -/
def table (p : Problem) (logic : Logic) : Text := (tableParts p logic).flatten

/-- A comparison of two sampled objects. -/
def exemplification (logic : Logic) (e : Problem.Example) : Text :=
  (exemplificationParts logic e).flatten

/-- The list of the optimal objects. -/
def optimization (p : Problem) (logic : Logic) : Text := (optimizationParts p logic).flatten

end Report

end PreferenceLogic
