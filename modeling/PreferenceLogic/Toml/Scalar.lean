import PreferenceLogic.Text.Separator
import PreferenceLogic.Toml.Token

/-!
# Scalar values in TOML documents

A value is an integer or of another kind. Of the other kinds (texts, truth values, real numbers,
dates, arrays and tables) only the form is checked, as nothing looks at their contents.

Definitions:
* `integer?`: reads an integer.
* `number?`: reads an integer or a real number.
* `scalar?`: reads a value that is neither an array nor a table.
-/

namespace PreferenceLogic.Toml

/-- A value. -/
inductive Value where
  | integer (n : Int)
  /-- A value of another kind. -/
  | other
deriving DecidableEq, Repr

/-! ## Digits -/

/-- Reads further digits: them and what follows them. A single underscore may stand in front of
each. -/
def moreDigits? (base : Nat) : Text → Option (List Nat × Text)
  | [] => some ([], [])
  | ['_'] => none
  | '_' :: c :: rest => do
    let d ← digit? base c
    let (digits, rest) ← moreDigits? base rest
    return (d :: digits, rest)
  | c :: rest =>
    match digit? base c with
    | none => some ([], c :: rest)
    | some d => (moreDigits? base rest).map fun (digits, rest) => (d :: digits, rest)

/-- Reads one or more digits: them and what follows them. Unless they are padded, no digit may
follow a zero in front. -/
def digits? (base : Nat) (padded : Bool) : Text → Option (List Nat × Text)
  | [] => none
  | c :: rest => do
    let first ← digit? base c
    let (more, rest) ← moreDigits? base rest
    if first = 0 ∧ !padded ∧ more ≠ [] then none else some (first :: more, rest)

/-- The number that a text of digits denotes. -/
def natural? (base : Nat) (padded : Bool) (t : Text) : Option Nat :=
  match digits? base padded t with
  | some (digits, []) => some (number base digits)
  | _ => none

/-- The number that a text of decimal digits denotes, with a minus sign or not. -/
def signed? (padded : Bool) : Text → Option Int
  | '-' :: t => (natural? 10 padded t).map fun n => -Int.ofNat n
  | t => (natural? 10 padded t).map Int.ofNat

/-! ## Integers -/

/-- The integer that a text denotes, in the base that its beginning tells. It has to fit 64 bits
with a sign. -/
def integer? (t : Text) : Option Int :=
  let value? : Option Int := match t with
    | '0' :: 'x' :: digits => (natural? 16 true digits).map Int.ofNat
    | '0' :: 'o' :: digits => (natural? 8 true digits).map Int.ofNat
    | '0' :: 'b' :: digits => (natural? 2 true digits).map Int.ofNat
    | t => signed? false t
  value?.filter fun n => Int64.minValue.toInt ≤ n ∧ n ≤ Int64.maxValue.toInt

/-- Whether a text starts like an integer in another base than ten. -/
def hasBase : Text → Bool
  | '0' :: c :: _ => c == 'x' || c == 'o' || c == 'b'
  | _ => false

/-! ## Real numbers -/

/-- From this number on, half a unit above the largest double, reals are rounded to infinity. -/
def infinityBound : Nat := 1 <<< 1024 - 1 <<< 970

/-- Whether decimal digits with an exponent denote a real that is not rounded to infinity. The
number of digits before the decimal point tells it, unless it is that of the bound. -/
def isFinite (digits : List Nat) (exponent : Int) : Bool :=
  let digits := digits.dropWhile (· == 0)
  let size := digits.length + exponent
  let n := number 10 digits
  if digits = [] ∨ size < 309 then true
  else if 309 < size then false
  else n * Nat.pow 10 exponent.toNat < infinityBound * Nat.pow 10 (-exponent).toNat

/-- Reads the exponent of a real from the end of its last word and the tokens after it. -/
def exponent? : Text → List Token → Option (Int × List Token)
  | [], rest => some (0, rest)
  | mark :: t, rest =>
    if mark != 'e' && mark != 'E' then none
    else match t, rest with
      | [], .plus :: .bare t :: rest | [], .bare t :: rest =>
        (natural? 10 true t).map fun n => (Int.ofNat n, rest)
      | [], _ => none
      | t, rest => (signed? true t).map fun n => (n, rest)

/-- Reads a real number from its first word, the word after its decimal point, and the tokens after
them. -/
def real? (whole : Text) (fraction : Option Text) (rest : List Token) :
    Option (Value × List Token) := do
  let unsigned := match whole with
    | '-' :: t => t
    | t => t
  let (digits, suffix) ← digits? 10 false unsigned
  let (decimals, suffix) ← match fraction with
    | none => some ([], suffix)
    | some t => if suffix = [] then digits? 10 true t else none
  let (exponent, rest) ← exponent? suffix rest
  if isFinite (digits ++ decimals) (exponent - decimals.length) then some (.other, rest) else none

/-- Whether a word is a real that has no digits. -/
def isSpecial (t : Text) : Bool :=
  ["inf".toList, "-inf".toList, "nan".toList, "-nan".toList].contains t

/-- Reads a number from its first word and the tokens after it. -/
def number? (t : Text) (rest : List Token) : Option (Value × List Token) :=
  if hasBase t then (integer? t).map fun n => (.integer n, rest)
  else if t.contains 'e' || t.contains 'E' then real? t none rest
  else match rest with
    | .period :: .bare fraction :: rest => real? t (some fraction) rest
    | .period :: _ => none
    | rest =>
      if isSpecial t then some (.other, rest) else (integer? t).map fun n => (.integer n, rest)

/-! ## Dates and times -/

/-- Whether a word can only be a date, or a date and an hour. -/
def isDated (t : Text) : Bool :=
  let hasExponent := (Text.cutFirst? ['e', '-'] t).isSome || (Text.cutFirst? ['E', '-'] t).isSome
  t.contains 'T' || t.contains 't' || (t.drop 1).contains '-' && !hasExponent

/-- What follows a token and a word, if the token is there. -/
def afterPart? (mark : Token) : List Token → Option (List Token)
  | [] => some []
  | token :: rest =>
    if token = mark then
      match rest with
      | .bare _ :: rest => some rest
      | _ => none
    else some (token :: rest)

/-- What follows the minutes and seconds of a time, the fraction of a second, and the offset. -/
def afterTime? : List Token → Option (List Token)
  | .bare _ :: .colon :: .bare _ :: rest => do
    afterPart? .colon (← afterPart? .plus (← afterPart? .period rest))
  | _ => none

/-- What follows a date and perhaps a time, of which the first word is read. A single blank may
stand between date and time. -/
def afterDate? (tokens : List Token) : Option (List Token) :=
  let rest := match tokens with
    | .gap [' '] :: .bare _ :: rest => rest
    | tokens => tokens
  match rest with
  | .colon :: rest => afterTime? rest
  | rest => some rest

/-! ## Scalars -/

/-- Whether a word starts a number, a date or a time. -/
def startsNumber (t : Text) : Bool :=
  t == "inf".toList || t == "nan".toList || t.head?.any fun c => c == '-' || c.isDigit

/-- Reads a value that is neither an array nor a table. -/
def scalar? : List Token → Option (Value × List Token)
  | .quoted _ :: rest | .longQuoted :: rest => some (.other, rest)
  | .plus :: .bare t :: rest => number? t rest
  | .bare t :: rest =>
    if t = "true".toList ∨ t = "false".toList then some (.other, rest)
    else if !startsNumber t then none
    else if isDated t then (afterDate? rest).map fun rest => (.other, rest)
    else match rest with
      | .colon :: rest => (afterTime? rest).map fun rest => (.other, rest)
      | rest => number? t rest
  | _ => none

end PreferenceLogic.Toml
