import Lox.Decimal
import Lox.Text.Blank

/-! # Reading numerals

`Numeral.read?` gives the binary64 number that a text denotes. A numeral may stand between white
space and carry a sign, single underscores between digits, and an exponent; the words for
infinity and for the number that is none are numerals too. The numbers of a program are the plain
case, digits with an optional point and more digits. -/

namespace Lox.Numeral

/-- A decimal digit. -/
def isDigit (c : Char) : Bool := '0' ≤ c && c ≤ '9'

/-- The digits at the front of a text, and what follows them. An underscore is passed over where it
stands between two digits. -/
def digitGroup : List Char → List Char × List Char
  | [] => ([], [])
  | [c] => if isDigit c then ([c], []) else ([], [c])
  | c :: d :: rest =>
    if !isDigit c then ([], c :: d :: rest)
    else if d = '_' then
      if rest.head?.any isDigit then
        let (ds, remaining) := digitGroup rest
        (c :: ds, remaining)
      else ([c], d :: rest)
    else
      let (ds, remaining) := digitGroup (d :: rest)
      (c :: ds, remaining)

/-- A sign at the front of a text: whether it is a minus, and the rest. -/
def sign : List Char → Bool × List Char
  | '-' :: rest => (true, rest)
  | '+' :: rest => (false, rest)
  | rest => (false, rest)

/-- The exponent part that ends a numeral; without one the exponent is zero. -/
def exponentPart? : List Char → Option Int
  | [] => some 0
  | c :: rest =>
    if c = 'e' ∨ c = 'E' then
      let (negative, rest) := sign rest
      match digitGroup rest with
      | ([], _) => none
      | (ds, []) =>
        let n : Int := Decimal.natOfDigits ds
        some (if negative then -n else n)
      | _ => none
    else none

/-- A numeral made of digits: before the point, behind it, or both. -/
def decimal? (cs : List Char) : Option Decimal :=
  let (whole, rest) := digitGroup cs
  let (fraction, rest) := match rest with
    | '.' :: rest => digitGroup rest
    | rest => ([], rest)
  if whole.isEmpty && fraction.isEmpty then none
  else (exponentPart? rest).map fun e =>
    let d := Decimal.ofDigits whole fraction
    ⟨d.digits, d.exponent + e⟩

/-- A numeral without a sign. -/
def unsigned? (cs : List Char) : Option Float :=
  let word := String.ofList (cs.map Char.toLower)
  if word = "inf" ∨ word = "infinity" then some (1.0 / 0.0)
  else if word = "nan" then some (0.0 / 0.0)
  else (decimal? cs).map Decimal.toFloat

/-- **The number a text denotes**, if it is a numeral. -/
def read? (cs : List Char) : Option Float :=
  let (negative, body) := sign (Text.trimWhiteSpace cs)
  (unsigned? body).map fun n => if negative then -n else n

end Lox.Numeral
