import PreferenceLogic.Text.Utf8
import PreferenceLogic.Toml.Value

/-!
# TOML documents

A document is a sequence of lines with entries and table headers. An entry gives a value to a key. A
header names the table that the entries after it belong to.

Definitions:
* `Place`: where something stands in a document.
* `Document.parse?`: what a document defines at its top level.
-/

namespace PreferenceLogic.Toml

/-! ## Lines -/

/-- What follows the end of a line. -/
def lineEnd? (tokens : List Token) : Option (List Token) :=
  match skipGap tokens with
  | [] => some []
  | .newline :: rest => some rest
  | _ => none

/-- Reads the header of a table after its first bracket: the first of its keys. Two brackets around
a header make the table an item of an array. -/
def header? : List Token → Option (Text × List Token)
  | .openBracket _ :: rest =>
    match path? rest with
    | some (path, .closeBracket :: .closeBracket :: rest) =>
      (lineEnd? rest).map fun rest => (path.key, rest)
    | _ => none
  | tokens =>
    match path? tokens with
    | some (path, .closeBracket :: rest) => (lineEnd? rest).map fun rest => (path.key, rest)
    | _ => none

/-- Reads an entry up to the end of its line, after those of the same table with the given paths. -/
def entry? (earlier : List Path) (tokens : List Token) : Option (Path × Value × List Token) := do
  let (path, rest) ← assignment? tokens
  let (value, rest) ← value? rest
  let rest ← lineEnd? rest
  if Path.clashes earlier path.key path.inner then none else some (path, value, rest)

/-! ## Documents -/

/-- Where a character stands in a document. -/
structure Place where
  /-- The number of the line, counted from one. -/
  line : Nat
  /-- The number of the byte in the line, counted from one. -/
  column : Nat
deriving DecidableEq, Repr

/-- The place after a text. -/
def Place.after (t : Text) : Place where
  line := (t.filter (· == '\n')).length + 1
  column := (Utf8.encode (t.reverse.takeWhile (· != '\n'))).length + 1

/-- What a document says about a key at its top level. -/
structure Entry where
  key : Text
  value : Value
deriving DecidableEq, Repr

/-- What some lines define at the top level. -/
structure Outline where
  /-- The entries before the first table. -/
  entries : List Entry
  /-- The first keys of the table headers. For each, the number of characters from the header to the
  end of the document. -/
  tables : List (Text × Nat)
deriving DecidableEq, Repr

namespace Outline

/-- The outline of no lines. -/
def empty : Outline := ⟨[], []⟩

/-- The outline with a table header in front. The entries belong to the table then. -/
def underHeader (key : Text) (left : Nat) (o : Outline) : Outline :=
  { entries := [], tables := (key, left) :: o.tables }

/-- The outline with an entry in front. An entry with a dotted key defines a table. -/
def afterEntry (path : Path) (value : Value) (o : Outline) : Outline :=
  { o with entries := ⟨path.key, if path.inner = [] then value else .other⟩ :: o.entries }

/-- Reads lines, after entries of the same table with the given paths. The fuel bounds the number of
lines. -/
def ofTokensWithin? : Nat → List Path → List Token → Option Outline
  | 0, _, _ => none
  | lines + 1, earlier, tokens =>
    match skipLines tokens with
    | [] => some empty
    | .openBracket left :: rest => do
      let (key, rest) ← header? rest
      (ofTokensWithin? lines [] rest).map (underHeader key left)
    | tokens => do
      let (path, value, rest) ← entry? earlier tokens
      (ofTokensWithin? lines (earlier ++ [path]) rest).map (afterEntry path value)

/-- Reads lines. Each takes a token at least. -/
def ofTokens? (tokens : List Token) : Option Outline :=
  ofTokensWithin? (tokens.length + 1) [] tokens

end Outline

/-- What a document defines at its top level. -/
structure Document where
  /-- The entries, in their order, and after them the tables with headers. -/
  entries : List Entry
  /-- Where the last header of a table stands; without one, the start of the document. -/
  lastTable : Place
deriving DecidableEq, Repr

namespace Document

/-- The text with a newline for each pair of a carriage return and a newline. -/
def unifyLineEnds : Text → Text
  | '\r' :: '\n' :: t => '\n' :: unifyLineEnds t
  | c :: t => c :: unifyLineEnds t
  | [] => []

/-- The text after its byte order mark, if it has one. -/
def afterMark : Text → Text
  | '\ufeff' :: t => t
  | t => t

/-- The document that a text denotes. -/
def parse? (t : Text) : Option Document := do
  let t := unifyLineEnds t
  let o ← Outline.ofTokens? (← tokens? (afterMark t))
  return {
    entries := o.entries ++ o.tables.map fun table => ⟨table.1, .other⟩
    lastTable := match o.tables.getLast? with
      | some (_, left) => .after (t.take (t.length - left))
      | none => ⟨1, 1⟩ }

end Document

end PreferenceLogic.Toml
