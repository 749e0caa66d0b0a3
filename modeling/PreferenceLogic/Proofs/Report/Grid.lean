import Mathlib.Data.List.Forall2
import PreferenceLogic.Proofs.Text.Lines
import PreferenceLogic.Report

/-!
# Grids can be read back

All lines of a drawn grid are equally long, and the bars of its rows stand under the plus signs of
its borders. So the cells are found again by cutting each row where a border has its plus signs,
whatever stands in the cells: a row starts with a bar and a border does not, so the one is not taken
for the other.

Definitions:
* `Grid.Tidy`: the grids that can be read back.
* `Grid.Aligned`: a text is drawn with bars under plus signs.
* `Grid.read?`: reads a drawn grid.
* `Grid.frame`: pieces with marks between them and around them.

Results:
* `Grid.cutUnder_frame`: a row is cut into its pieces where a border has its marks.
* `Grid.fits_widths`: columns are as wide as each of their cells.
* `Grid.Tidy.linesOf_render`: the lines of a drawn grid.
* `Grid.Tidy.aligned_render`, `Grid.Tidy.read?_render`: a drawn grid is aligned and reads back.
-/

namespace PreferenceLogic.Grid

/-! ## Reading a grid -/

/-- A text without the spaces at its two ends. -/
def strip (t : Text) : Text := (t.dropWhile (· == ' ')).rdropWhile (· == ' ')

/-- What stands in a line between the places where another line has a mark. -/
def cutUnder (mark : Char) (other line : Text) : List Text :=
  ((other.zip line).splitOnP fun place => place.1 == mark).map (List.map Prod.snd)

/-- The cells of a row: what stands between the places where a border has plus signs. -/
def cells (border row : Text) : List Text := (cutUnder '+' border row).tail.dropLast.map strip

/-- A line with which a border starts. -/
def isBorder (line : Text) : Bool := line.head? == some '+'

/-- A line with which a row starts. -/
def isRow (line : Text) : Bool := line.head? == some '|'

/-- The lines of a text that stops at a line end. -/
def linesOf (t : Text) : List Text := (Text.lines t).dropLast

/-- Reads a drawn grid. The first line is a border, the first row is the header. -/
def read? (t : Text) : Option Grid :=
  match linesOf t with
  | [] => none
  | border :: rest =>
    match (rest.filter isRow).map (cells border) with
    | [] => none
    | header :: rows => some { header, rows }

/-- A text is drawn with borders and rows of the same length, with a bar in every row where a border
has a plus sign. -/
structure Aligned (t : Text) : Prop where
  stops : t.getLast? = some '\n'
  length_eq : ∃ length, ∀ line ∈ linesOf t, line.length = length
  border_or_row : ∀ line ∈ linesOf t, isBorder line = true ∨ isRow line = true
  bar : ∀ border ∈ linesOf t, isBorder border = true → ∀ row ∈ linesOf t, isRow row = true →
    ∀ place : Nat, border[place]? = some '+' → row[place]? = some '|'

/-- A cell that is found again in its column: it fills no more than a part of one line, and no space
at its ends can be taken for padding. -/
structure Plain (cell : Text) : Prop where
  newline_not_mem : '\n' ∉ cell
  head_ne : cell.head? ≠ some ' '
  last_ne : cell.getLast? ≠ some ' '

/-- A grid with as many cells in each row as in its header, all of them plain. -/
structure Tidy (g : Grid) : Prop where
  length_eq : ∀ row ∈ g.rows, row.length = g.header.length
  plain : ∀ row ∈ g.header :: g.rows, ∀ cell ∈ row, Plain cell

/-! ## Marks and pieces -/

/-- Pieces with a mark before each of them and after the last one. -/
def frame (mark : Char) (pieces : List Text) : Text := pieces.flatMap (mark :: ·) ++ [mark]

theorem frame_cons (mark : Char) (piece : Text) (pieces : List Text) :
    frame mark (piece :: pieces) = mark :: (piece ++ frame mark pieces) := by
  simp [frame]

theorem head?_frame (mark : Char) (pieces : List Text) :
    (frame mark pieces).head? = some mark := by
  cases pieces with
  | nil => rfl
  | cons piece pieces => rw [frame_cons, List.head?_cons]

theorem not_mem_frame {c mark : Char} {pieces : List Text} (hmark : c ≠ mark)
    (h : ∀ piece ∈ pieces, c ∉ piece) : c ∉ frame mark pieces := by
  simp only [frame, List.mem_append, List.mem_flatMap, List.mem_cons, List.not_mem_nil, or_false,
    not_or, not_exists, not_and]
  exact ⟨fun piece hpiece => ⟨hmark, h piece hpiece⟩, hmark⟩

theorem cutUnder_cons_cons (mark c : Char) (other line : Text) :
    cutUnder mark (mark :: other) (c :: line) = [] :: cutUnder mark other line := by
  rw [cutUnder, List.zip_cons_cons, List.splitOnP_cons_eq_if_modifyHead,
    if_pos (beq_self_eq_true mark)]
  rfl

/-- Without a mark, a line goes on with what comes first after it. -/
theorem cutUnder_append {mark : Char} {x y other line piece : Text} {pieces : List Text}
    (hlength : x.length = y.length) (hx : mark ∉ x)
    (h : cutUnder mark other line = piece :: pieces) :
    cutUnder mark (x ++ other) (y ++ line) = (y ++ piece) :: pieces := by
  induction x generalizing y with
  | nil =>
    rw [List.length_eq_zero_iff.mp hlength.symm]
    exact h
  | cons c x ih =>
    obtain ⟨d, y, rfl⟩ := List.exists_cons_of_length_eq_add_one hlength.symm
    rw [List.mem_cons, not_or] at hx
    have ih := ih (Nat.succ.inj hlength) hx.2
    obtain ⟨start, starts, hstart⟩ := List.exists_cons_of_ne_nil
      (List.splitOnP_ne_nil (fun place => place.1 == mark) ((x ++ other).zip (y ++ line)))
    rw [cutUnder, hstart, List.map_cons, List.cons.injEq] at ih
    rw [List.cons_append, List.cons_append, cutUnder, List.zip_cons_cons,
      List.splitOnP_cons_eq_if_modifyHead, if_neg (by simpa using Ne.symm hx.1), hstart,
      List.modifyHead_cons, List.map_cons, ih.2, List.map_cons, ih.1]
    rfl

section

variable {first second : List Text}
  (h : List.Forall₂ (fun x y : Text => x.length = y.length) first second)

include h

theorem length_frame (mark mark' : Char) :
    (frame mark first).length = (frame mark' second).length := by
  induction h with
  | nil => rfl
  | cons hxy _ ih =>
    rw [frame_cons, frame_cons]
    simp only [List.length_cons, List.length_append, hxy, ih]

/-- Where one frame has its marks, the other one has its own. -/
theorem getElem?_frame {mark mark' : Char} (hmark : ∀ piece ∈ first, mark ∉ piece) {place : Nat}
    (hplace : (frame mark first)[place]? = some mark) :
    (frame mark' second)[place]? = some mark' := by
  induction h generalizing place with
  | nil =>
    cases place with
    | zero => rfl
    | succ place => cases hplace
  | @cons x y first second hxy _ ih =>
    rw [List.forall_mem_cons] at hmark
    rw [frame_cons] at hplace ⊢
    cases place with
    | zero => rfl
    | succ place =>
      rw [List.getElem?_cons_succ, List.getElem?_append] at hplace ⊢
      rw [← hxy]
      split at hplace
      · exact absurd (List.mem_of_getElem? hplace) hmark.1
      · rename_i hlt
        rw [if_neg hlt]
        exact ih hmark.2 hplace

/-- A frame is cut into its pieces where another one has its marks. -/
theorem cutUnder_frame {mark : Char} (mark' : Char) (hmark : ∀ piece ∈ first, mark ∉ piece) :
    cutUnder mark (frame mark first) (frame mark' second) = [] :: second ++ [[]] := by
  induction h with
  | nil => simp [frame, cutUnder, List.splitOnP_cons_eq_if_modifyHead, List.splitOnP_nil]
  | @cons x y first second hxy _ ih =>
    rw [List.forall_mem_cons] at hmark
    rw [frame_cons, frame_cons, cutUnder_cons_cons, cutUnder_append hxy hmark.1 (ih hmark.2),
      List.append_nil]
    rfl

end

/-! ## Columns -/

/-- The cells of a row fit into columns with given widths. -/
def Fits (widths : List Nat) (row : List Text) : Prop :=
  List.Forall₂ (fun width cell => cell.length ≤ width) widths row

theorem length_widen (widths : List Nat) (row : List Text) :
    (widen widths row).length = widths.length := by
  induction widths generalizing row with
  | nil => rfl
  | cons width widths ih =>
    cases row with
    | nil => rfl
    | cons cell row => exact congrArg (· + 1) (ih row)

/-- Widths do not shrink. -/
theorem Fits.widen {widths : List Nat} {row : List Text} (h : Fits widths row)
    (other : List Text) : Fits (widen widths other) row := by
  induction h generalizing other with
  | nil => exact .nil
  | cons hcell hrest ih =>
    cases other with
    | nil => exact .cons hcell hrest
    | cons cell other => exact .cons (hcell.trans (Nat.le_max_left _ _)) (ih other)

theorem fits_widen {widths : List Nat} {row : List Text} (h : row.length = widths.length) :
    Fits (Grid.widen widths row) row := by
  induction widths generalizing row with
  | nil =>
    rw [List.length_eq_zero_iff.mp h]
    exact .nil
  | cons width widths ih =>
    cases row with
    | nil => cases h
    | cons cell row => exact .cons (Nat.le_max_right _ _) (ih (Nat.succ.inj h))

theorem Fits.foldl {widths : List Nat} {row : List Text} (h : Fits widths row)
    (rows : List (List Text)) : Fits (rows.foldl Grid.widen widths) row := by
  induction rows generalizing widths with
  | nil => exact h
  | cons other rows ih => exact ih (h.widen other)

theorem fits_foldl {rows : List (List Text)} {widths : List Nat}
    (h : ∀ row ∈ rows, row.length = widths.length) :
    ∀ row ∈ rows, Fits (rows.foldl Grid.widen widths) row := by
  induction rows generalizing widths with
  | nil => simp
  | cons row rows ih =>
    rw [List.forall_mem_cons] at h ⊢
    refine ⟨(fits_widen h.1).foldl rows, ih fun other hother => ?_⟩
    rw [length_widen]
    exact h.2 other hother

/-- Columns are as wide as each of their cells. -/
theorem fits_widths {g : Grid} (h : ∀ row ∈ g.rows, row.length = g.header.length) :
    ∀ row ∈ g.header :: g.rows, Fits g.widths row := by
  have hheader : Fits (g.header.map List.length) g.header := by
    rw [Fits, List.forall₂_map_left_iff]
    exact List.forall₂_same.mpr fun _ _ => le_refl _
  rw [List.forall_mem_cons]
  refine ⟨hheader.foldl g.rows, fits_foldl fun row hrow => ?_⟩
  rw [h row hrow, List.length_map]

/-! ## Cells -/

/-- Padding is stripped. -/
theorem strip_padded {cell : Text} (h : Plain cell) (m n : Nat) :
    strip (List.replicate m ' ' ++ (cell ++ List.replicate n ' ')) = cell := by
  have hspace : ∀ n, ∀ c ∈ List.replicate n ' ', (c == ' ') = true := by
    intro n c hc
    rw [List.eq_of_mem_replicate hc]
    rfl
  have hend : (cell ++ List.replicate n ' ').rdropWhile (· == ' ') = cell := by
    rw [List.rdropWhile, List.reverse_append,
      List.dropWhile_append_of_pos (by simp), ← List.rdropWhile,
      List.rdropWhile_eq_self_iff]
    intro hne hlast
    exact h.last_ne (by rw [List.getLast?_eq_some_getLast hne, beq_iff_eq.mp hlast])
  rw [strip, List.dropWhile_append_of_pos (hspace m)]
  -- the padding of an empty cell is all stripped from the left
  cases cell with
  | nil =>
    rw [List.nil_append, List.dropWhile_eq_nil_iff.mpr (hspace n)]
    rfl
  | cons c cell =>
    have hc : (c == ' ') = false := beq_eq_false_iff_ne.mpr fun heq => h.head_ne (heq ▸ rfl)
    rw [List.cons_append, List.dropWhile_cons_of_neg (by simp [hc]), ← List.cons_append, hend]

/-- What stands under a column in a border. -/
def dashes (widths : List Nat) : List Text := widths.map fun width => List.replicate (width + 2) '-'

/-- What stands in the columns of a row. -/
def padded (widths : List Nat) (row : List Text) : List Text :=
  List.zipWith (fun width cell => ' ' :: (center width cell ++ [' '])) widths row

theorem length_center {width : Nat} {cell : Text} (h : cell.length ≤ width) :
    (center width cell).length = width := by
  simp only [center, List.length_append, List.length_replicate]
  omega

theorem forall₂_dashes_padded {widths : List Nat} {row : List Text} (h : Fits widths row) :
    List.Forall₂ (fun x y : Text => x.length = y.length) (dashes widths) (padded widths row) := by
  induction h with
  | nil => exact .nil
  | cons hcell _ ih =>
    refine .cons ?_ ih
    simp [length_center hcell]

theorem map_strip_padded {widths : List Nat} {row : List Text} (h : Fits widths row)
    (hplain : ∀ cell ∈ row, Plain cell) : (padded widths row).map strip = row := by
  induction h with
  | nil => rfl
  | @cons width cell widths row _ _ ih =>
    rw [List.forall_mem_cons] at hplain
    rw [padded, List.zipWith_cons_cons, List.map_cons, ← padded, ih hplain.2]
    congr 1
    have hpadding : ∀ m n, ' ' :: (List.replicate m ' ' ++ cell ++ List.replicate n ' ' ++ [' ']) =
        List.replicate (m + 1) ' ' ++ (cell ++ List.replicate (n + 1) ' ') := by
      intro m n
      rw [List.replicate_succ' (n := n)]
      simp [List.replicate_succ]
    rw [center, hpadding, strip_padded hplain.1]

theorem not_mem_dashes {c : Char} (hc : c ≠ '-') (widths : List Nat) :
    ∀ piece ∈ dashes widths, c ∉ piece := by
  intro piece hpiece hmem
  obtain ⟨width, -, rfl⟩ := List.mem_map.mp hpiece
  exact hc (List.eq_of_mem_replicate hmem)

theorem newline_not_mem_padded {row : List Text} (hplain : ∀ cell ∈ row, Plain cell)
    (widths : List Nat) : ∀ piece ∈ padded widths row, '\n' ∉ piece := by
  intro piece hpiece
  rw [padded, ← List.map_uncurry_zip_eq_zipWith] at hpiece
  obtain ⟨⟨width, cell⟩, hmem, rfl⟩ := List.mem_map.mp hpiece
  have hcell : '\n' ∉ cell := (hplain cell (List.of_mem_zip hmem).2).newline_not_mem
  simp [center, hcell]

/-! ## Drawn grids -/

/-- A border under or over the columns. -/
def border (g : Grid) : Text := frame '+' (dashes g.widths)

/-- A row between the borders. -/
def rowLine (g : Grid) (row : List Text) : Text := frame '|' (padded g.widths row)

/-- The lines of a drawn grid. -/
def drawn (g : Grid) : List Text :=
  g.border :: g.rowLine g.header :: g.border ::
    if g.rows = [] then [] else g.rows.map g.rowLine ++ [g.border]

theorem flatten_separator (widths : List Nat) :
    (separator widths).flatten = frame '+' (dashes widths) ++ ['\n'] := by
  have hcolumns : (widths.flatMap fun width =>
      ["+".toList, List.replicate (width + 2) '-']).flatten =
        (dashes widths).flatMap fun piece => '+' :: piece := by
    rw [dashes, List.flatMap_map, List.flatMap_def, List.flatten_flatten, List.flatMap_def,
      List.map_map]
    refine congrArg List.flatten (List.map_congr_left fun width _ => ?_)
    rw [Function.comp_apply, List.flatten_cons, List.flatten_singleton]
    rfl
  rw [separator, List.flatten_append, hcolumns, frame, List.append_assoc]
  rfl

theorem flatten_line (widths : List Nat) (row : List Text) :
    (line widths row).flatten = frame '|' (padded widths row) ++ ['\n'] := by
  have hcells : (List.zipWith (fun width cell => ["| ".toList, center width cell, " ".toList])
      widths row).flatten.flatten = (padded widths row).flatMap fun piece => '|' :: piece := by
    rw [List.flatten_flatten, padded, List.flatMap_def, List.map_zipWith, List.map_zipWith]
    rfl
  rw [line, List.flatten_append, hcells, frame, List.append_assoc]
  rfl

theorem render_eq (g : Grid) : g.render = g.drawn.flatMap (· ++ ['\n']) := by
  have hrows : (g.rows.flatMap (line g.widths)).flatten =
      g.rows.flatMap fun row => g.rowLine row ++ ['\n'] := by
    rw [List.flatMap_def, List.flatten_flatten, List.flatMap_def, List.map_map]
    exact congrArg List.flatten (List.map_congr_left fun row _ => flatten_line g.widths row)
  rw [render, parts, drawn]
  split
  · simp [flatten_separator, flatten_line, border, rowLine]
  · simp [flatten_separator, flatten_line, hrows, border, rowLine, List.flatMap_map]

variable {g : Grid}

theorem mem_drawn {line : Text} (h : line ∈ g.drawn) :
    line = g.border ∨ ∃ row ∈ g.header :: g.rows, line = g.rowLine row := by
  have hrows : ∀ line ∈ (if g.rows = [] then [] else g.rows.map g.rowLine ++ [g.border]),
      line = g.border ∨ ∃ row ∈ g.rows, line = g.rowLine row := by
    intro line hline
    split at hline
    · cases hline
    · rw [List.mem_append, List.mem_singleton, List.mem_map] at hline
      rcases hline with ⟨row, hrow, rfl⟩ | rfl
      · exact .inr ⟨row, hrow, rfl⟩
      · exact .inl rfl
  simp only [drawn, List.mem_cons] at h
  rcases h with rfl | rfl | rfl | h
  · exact .inl rfl
  · exact .inr ⟨g.header, List.mem_cons_self, rfl⟩
  · exact .inl rfl
  · rcases hrows line h with hborder | ⟨row, hrow, hline⟩
    · exact .inl hborder
    · exact .inr ⟨row, List.mem_cons_of_mem _ hrow, hline⟩

theorem head?_border (g : Grid) : g.border.head? = some '+' := head?_frame _ _

theorem head?_rowLine (g : Grid) (row : List Text) : (g.rowLine row).head? = some '|' :=
  head?_frame _ _

theorem isRow_border (g : Grid) : isRow g.border = false := by
  rw [isRow, head?_border]
  rfl

theorem isRow_rowLine (g : Grid) (row : List Text) : isRow (g.rowLine row) = true := by
  rw [isRow, head?_rowLine]
  rfl

theorem isBorder_border (g : Grid) : isBorder g.border = true := by
  rw [isBorder, head?_border]
  rfl

theorem isBorder_rowLine (g : Grid) (row : List Text) : isBorder (g.rowLine row) = false := by
  rw [isBorder, head?_rowLine]
  rfl

namespace Tidy

variable (h : g.Tidy)

include h

theorem fits {row : List Text} (hrow : row ∈ g.header :: g.rows) : Fits g.widths row :=
  fits_widths h.length_eq row hrow

theorem newline_not_mem {line : Text} (hline : line ∈ g.drawn) : '\n' ∉ line := by
  rcases mem_drawn hline with rfl | ⟨row, hrow, rfl⟩
  · exact not_mem_frame (by decide) (not_mem_dashes (by decide) _)
  · exact not_mem_frame (by decide) (newline_not_mem_padded (h.plain row hrow) _)

theorem linesOf_render : linesOf g.render = g.drawn := by
  rw [linesOf, render_eq, Text.lines_flatMap fun _ => h.newline_not_mem, List.dropLast_concat]

theorem aligned_render : Aligned g.render where
  stops := by
    obtain ⟨above, last, hdrawn⟩ :=
      (List.eq_nil_or_concat g.drawn).resolve_left (List.cons_ne_nil _ _)
    rw [render_eq, hdrawn, List.concat_eq_append, List.flatMap_append]
    simp
  length_eq := by
    refine ⟨g.border.length, fun line hline => ?_⟩
    rw [h.linesOf_render] at hline
    rcases mem_drawn hline with rfl | ⟨row, hrow, rfl⟩
    · rfl
    · exact (length_frame (forall₂_dashes_padded (h.fits hrow)) _ _).symm
  border_or_row line hline := by
    rw [h.linesOf_render] at hline
    rcases mem_drawn hline with rfl | ⟨row, hrow, rfl⟩
    · exact .inl g.isBorder_border
    · exact .inr (g.isRow_rowLine row)
  bar line hline hborder other hother hrow place hplace := by
    rw [h.linesOf_render] at hline hother
    rcases mem_drawn hline with rfl | ⟨row, -, rfl⟩
    · rcases mem_drawn hother with rfl | ⟨row, hmem, rfl⟩
      · rw [g.isRow_border] at hrow
        cases hrow
      · exact getElem?_frame (forall₂_dashes_padded (h.fits hmem)) (not_mem_dashes (by decide) _)
          hplace
    · rw [g.isBorder_rowLine] at hborder
      cases hborder

theorem cells_rowLine {row : List Text} (hrow : row ∈ g.header :: g.rows) :
    cells g.border (g.rowLine row) = row := by
  have hfits := h.fits hrow
  rw [cells, border, rowLine,
    cutUnder_frame (forall₂_dashes_padded hfits) '|' (not_mem_dashes (by decide) _),
    List.cons_append, List.tail_cons, List.dropLast_concat,
    map_strip_padded hfits (h.plain row hrow)]

theorem read?_render : read? g.render = some g := by
  have hrows : (g.rowLine g.header :: g.border ::
      if g.rows = [] then [] else g.rows.map g.rowLine ++ [g.border]).filter isRow =
        (g.header :: g.rows).map g.rowLine := by
    have hall : (g.rows.map g.rowLine).filter isRow = g.rows.map g.rowLine :=
      List.filter_eq_self.mpr fun line hline => by
        obtain ⟨row, -, rfl⟩ := List.mem_map.mp hline
        exact g.isRow_rowLine row
    split
    · rename_i hnil
      simp [hnil, isRow_border, isRow_rowLine]
    · simp [hall, isRow_border, isRow_rowLine]
  have hcells : ((g.header :: g.rows).map g.rowLine).map (cells g.border) = g.header :: g.rows := by
    rw [List.map_map]
    calc (g.header :: g.rows).map (cells g.border ∘ g.rowLine)
        = (g.header :: g.rows).map id := List.map_congr_left fun _ hrow => h.cells_rowLine hrow
      _ = g.header :: g.rows := List.map_id _
  rw [read?, h.linesOf_render, drawn]
  dsimp only
  rw [hrows, hcells]

end Tidy

end PreferenceLogic.Grid
