import PreferenceLogic.Text.Blank

/-!
# Tokens of TOML documents

A TOML document is cut into tokens from left to right. A comment leaves no token, as the end of its
line follows it anyway. Blanks and tabs are a token of their own, because some constructs must not
be torn apart.

Definitions:
* `Token.front?`: the token at the front of a text and the number of its characters.
* `tokens?`: all tokens of a text, if it can be cut into tokens.
-/

namespace PreferenceLogic.Toml

/-! ## Characters -/

/-- Whether a character may stand between tokens of one line. -/
def isGap (c : Char) : Bool := c == ' ' || c == '\t'

/-- Whether a character may stand in a bare word. -/
def isBare (c : Char) : Bool := c.isAlphanum || c == '_' || c == '-'

/-- Whether a character may stand in a comment. -/
def isComment (c : Char) : Bool := c == '\t' || ' ' ≤ c

/-- Whether a character may stand for itself in a quoted text. -/
def isQuotable (c : Char) : Bool := isComment c && c != '\x7f'

/-! ## Quoted texts of one line -/

/-- Reads a literal text up to its closing mark: the text and what follows it. -/
def literal? : Text → Option (Text × Text)
  | [] => none
  | '\'' :: rest => some ([], rest)
  | c :: rest =>
    if isQuotable c then (literal? rest).map fun (t, rest) => (c :: t, rest) else none

/-- The character that one character after a backslash stands for. -/
def escaped? : Char → Option Char
  | '"' => some '"'
  | '\\' => some '\\'
  | 'b' => some '\x08'
  | 'f' => some '\x0c'
  | 'n' => some '\n'
  | 'r' => some '\r'
  | 't' => some '\t'
  | _ => none

/-- The value of a digit in bases up to 16. -/
def digit? (base : Nat) (c : Char) : Option Nat :=
  let value? : Option Nat :=
    if c.isDigit then some (c.toNat - '0'.toNat)
    else if 'a' ≤ c ∧ c ≤ 'f' then some (c.toNat - 'a'.toNat + 10)
    else if 'A' ≤ c ∧ c ≤ 'F' then some (c.toNat - 'A'.toNat + 10)
    else none
  value?.filter (· < base)

/-- The number that digits denote. -/
def number (base : Nat) (digits : List Nat) : Nat := digits.foldl (fun n d => n * base + d) 0

/-- The character whose code point some hexadecimal digits denote. -/
def codePoint? (digits : Text) : Option Char := do
  let code := number 16 (← digits.mapM (digit? 16))
  if code.isValidChar then some (Char.ofNat code) else none

/-- Reads a text with escapes up to its closing mark: the text and what follows it. -/
def escapedText? : Text → Option (Text × Text)
  | [] => none
  | '"' :: rest => some ([], rest)
  | '\\' :: 'u' :: a :: b :: c :: d :: rest => do
    let char ← codePoint? [a, b, c, d]
    let (t, rest) ← escapedText? rest
    return (char :: t, rest)
  | '\\' :: 'U' :: a :: b :: c :: d :: e :: f :: g :: h :: rest => do
    let char ← codePoint? [a, b, c, d, e, f, g, h]
    let (t, rest) ← escapedText? rest
    return (char :: t, rest)
  | '\\' :: c :: rest => do
    let char ← escaped? c
    let (t, rest) ← escapedText? rest
    return (char :: t, rest)
  | c :: rest =>
    if isQuotable c then (escapedText? rest).map fun (t, rest) => (c :: t, rest) else none

/-! ## Quoted texts of several lines -/

/-- What follows the three marks that close a quoted text of several lines. Of more marks than
three, two at most still belong to the text. -/
def afterClosing? (mark : Char) (t : Text) : Option Text :=
  let marks := (t.takeWhile (· == mark)).length
  if marks < 3 then none else some (t.drop (min marks 5))

/-- What follows a literal text of several lines. -/
def afterLongLiteral? : Text → Option Text
  | [] => none
  | c :: rest =>
    match afterClosing? '\'' (c :: rest) with
    | some after => some after
    | none => if isQuotable c || c == '\n' then afterLongLiteral? rest else none

/-- Whether a backslash may stand before a text in a quoted text of several lines: before an escape,
or before the end of the line. -/
def mayEscape (t : Text) : Bool :=
  match t with
  | [] => false
  | 'u' :: rest => rest.length ≥ 4 && (codePoint? (rest.take 4)).isSome
  | 'U' :: rest => rest.length ≥ 8 && (codePoint? (rest.take 8)).isSome
  | c :: _ => (escaped? c).isSome || (t.dropWhile isGap).head? == some '\n'

/-- What follows a text of several lines with escapes. -/
def afterLongEscaped? : Text → Option Text
  | [] => none
  | '\\' :: c :: rest => if mayEscape (c :: rest) then afterLongEscaped? rest else none
  | c :: rest =>
    match afterClosing? '"' (c :: rest) with
    | some after => some after
    | none => if isQuotable c || c == '\n' then afterLongEscaped? rest else none

/-! ## Tokens -/

/-- A token. -/
inductive Token where
  | newline
  /-- Blanks and tabs. -/
  | gap (t : Text)
  | equals
  | period
  | comma
  | colon
  | plus
  | openBrace
  | closeBrace
  /-- An opening bracket, with the number of characters from it to the end of the document. -/
  | openBracket (left : Nat)
  | closeBracket
  /-- A word of letters, digits, underscores and hyphens. -/
  | bare (t : Text)
  /-- A quoted text of one line. -/
  | quoted (t : Text)
  /-- A quoted text of several lines. -/
  | longQuoted
deriving DecidableEq, Repr

namespace Token

/-- Whether a token is a gap. -/
def isGap : Token → Bool
  | gap _ => true
  | _ => false

/-- The token of a character that is always a token of its own. -/
def ofChar? (left : Nat) : Char → Option Token
  | '\n' => some newline
  | '=' => some equals
  | '.' => some period
  | ',' => some comma
  | ':' => some colon
  | '+' => some plus
  | '\x7b' => some openBrace
  | '\x7d' => some closeBrace
  | '[' => some (openBracket left)
  | ']' => some closeBracket
  | _ => none

/-- The token at the front of a text, none for a comment, and the number of its characters. -/
def front? (t : Text) : Option (Option Token × Nat) :=
  let upTo (token : Token) (rest : Text) := (some token, t.length - rest.length)
  match t with
  | [] => none
  | '#' :: rest =>
    let comment := rest.takeWhile (· != '\n')
    if comment.all isComment then some (none, comment.length + 1) else none
  | '\'' :: '\'' :: '\'' :: rest => (afterLongLiteral? rest).map (upTo longQuoted)
  | '\'' :: rest => (literal? rest).map fun (content, rest) => upTo (quoted content) rest
  | '"' :: '"' :: '"' :: rest => (afterLongEscaped? rest).map (upTo longQuoted)
  | '"' :: rest => (escapedText? rest).map fun (content, rest) => upTo (quoted content) rest
  | c :: _ =>
    match ofChar? t.length c with
    | some token => some (some token, 1)
    | none =>
      if Toml.isGap c then
        some (some (gap (t.takeWhile Toml.isGap)), (t.takeWhile Toml.isGap).length)
      else if isBare c then some (some (bare (t.takeWhile isBare)), (t.takeWhile isBare).length)
      else none

end Token

/-- The tokens of a text whose first `pending` characters belong to a token that stands before
them. -/
def tokensAfter? : Nat → Text → Option (List Token)
  | _, [] => some []
  | pending + 1, _ :: t => tokensAfter? pending t
  | 0, c :: t => do
    let (token, length) ← Token.front? (c :: t)
    let tokens ← tokensAfter? (length - 1) t
    return token.toList ++ tokens

/-- The tokens of a text. -/
def tokens? (t : Text) : Option (List Token) := tokensAfter? 0 t

end PreferenceLogic.Toml
