import PreferenceLogic.Toml.Scalar

/-!
# Values in TOML documents

A value is a scalar, an array of values, or a table of entries in braces. Arrays may go over several
lines, tables in braces may not. A key with periods reaches into the tables of the keys before them.

Definitions:
* `Path.clashes`: whether an entry contradicts earlier ones of its table.
* `value?`: reads a value.
-/

namespace PreferenceLogic.Toml

/-! ## Dotted keys -/

/-- A key and the keys inside its table. -/
structure Path where
  key : Text
  inner : List Text
deriving DecidableEq, Repr

namespace Path

/-- What a path says inside the table of a key. -/
def inside? (key : Text) : Path → Option Path
  | ⟨_, []⟩ => none
  | ⟨other, next :: inner⟩ => if other = key then some ⟨next, inner⟩ else none

/-- Whether a path reaches into what an earlier one has made a value that is no table. -/
def clashes (earlier : List Path) (key : Text) : List Text → Bool
  | [] => false
  | next :: inner =>
    match earlier.find? fun path => path.key == key with
    | none => false
    | some ⟨_, []⟩ => true
    | some ⟨_, _ :: _⟩ => clashes (earlier.filterMap (inside? key)) next inner

/-- Whether a token may belong to a path. -/
def isPart : Token → Bool
  | .bare _ | .quoted _ | .period | .gap _ => true
  | _ => false

/-- The key that a token is. -/
def key? : Token → Option Text
  | .bare t | .quoted t => some t
  | _ => none

/-- The path that keys with periods between them make. -/
def ofTokens? : List Token → Option Path
  | [token] => (key? token).map fun key => ⟨key, []⟩
  | token :: .period :: rest => do
    let key ← key? token
    let path ← ofTokens? rest
    return ⟨key, path.key :: path.inner⟩
  | _ => none

end Path

/-- Reads a path, with gaps around its keys. -/
def path? (tokens : List Token) : Option (Path × List Token) :=
  (Path.ofTokens? ((tokens.takeWhile Path.isPart).filter (!·.isGap))).map fun path =>
    (path, tokens.dropWhile Path.isPart)

/-! ## Arrays and tables in one value -/

/-- The tokens after a gap. -/
def skipGap (tokens : List Token) : List Token := tokens.dropWhile Token.isGap

/-- The tokens after gaps and line ends. -/
def skipLines (tokens : List Token) : List Token :=
  tokens.dropWhile fun token => token.isGap || token == .newline

/-- Reads a path and the equals sign after it, and skips the gap in front of the value. -/
def assignment? (tokens : List Token) : Option (Path × List Token) :=
  match path? tokens with
  | some (path, .equals :: rest) => some (path, skipGap rest)
  | _ => none

mutual

/-- Reads a value. The fuel bounds the number of steps. -/
def valueWithin? : Nat → List Token → Option (Value × List Token)
  | 0, _ => none
  | fuel + 1, tokens =>
    match tokens with
    | .openBracket _ :: rest => (itemsWithin? fuel (skipLines rest)).map fun rest => (.other, rest)
    | .openBrace :: rest =>
      match skipGap rest with
      | .closeBrace :: rest => some (.other, rest)
      | rest => (fieldsWithin? fuel [] rest).map fun rest => (.other, rest)
    | tokens => scalar? tokens

/-- What follows an array of which further items are to be read. A comma may follow the last one. -/
def itemsWithin? : Nat → List Token → Option (List Token)
  | 0, _ => none
  | fuel + 1, tokens =>
    match tokens with
    | .closeBracket :: rest => some rest
    | tokens => do
      let (_, rest) ← valueWithin? fuel tokens
      match skipLines rest with
      | .comma :: rest => itemsWithin? fuel (skipLines rest)
      | .closeBracket :: rest => some rest
      | _ => none

/-- What follows a table in braces of which further entries are to be read, after those with the
given paths. No comma may follow the last one. -/
def fieldsWithin? : Nat → List Path → List Token → Option (List Token)
  | 0, _, _ => none
  | fuel + 1, earlier, tokens => do
    let (path, rest) ← assignment? tokens
    let (_, rest) ← valueWithin? fuel rest
    if Path.clashes earlier path.key path.inner then none
    else match skipGap rest with
      | .closeBrace :: rest => some rest
      | .comma :: rest => fieldsWithin? fuel (earlier ++ [path]) (skipGap rest)
      | _ => none

end

/-- Enough fuel for some tokens: of two steps that follow each other, one at least takes a token. -/
def fuelFor (tokens : List Token) : Nat := 2 * tokens.length + 2

/-- Reads a value. -/
def value? (tokens : List Token) : Option (Value × List Token) :=
  valueWithin? (fuelFor tokens) tokens

end PreferenceLogic.Toml
