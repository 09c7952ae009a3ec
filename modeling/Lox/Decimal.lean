/-! # Decimal numbers and binary64 numbers

A `Decimal` is a number `digits · 10 ^ exponent`. This file joins it to the binary64 numbers of
the language in both directions and writes it down:

* **`Decimal.toFloat`** — the nearest binary64 number, a tie going to the even neighbour;
* **`Decimal.ofDigits`** — the decimal that a run of digits with an optional point denotes;
* **`Decimal.shortest`** — the decimal with the fewest digits that reads back as a given ratio's
  binary64 number, found on ever finer grids by trying the two neighbours of the exact value;
* **`Decimal.positional`** and **`Decimal.exponential`** — its two written forms;
* **`plainNumber`** and **`exactNumber`** — how a number is printed by a program and how it is shown
  inside the description of a token. -/

namespace Lox

/-- The number `digits · 10 ^ exponent`. -/
structure Decimal where
  digits : Nat
  exponent : Int
deriving DecidableEq, Repr

namespace Decimal

/-! ## Reading -/

/-- The binary64 number nearest to a decimal; an exact tie goes to the even neighbour, and a
decimal beyond the finite range gives an infinity. -/
def toFloat (d : Decimal) : Float :=
  Float.ofModel (Float.Model.ofScientific d.digits d.exponent)

/-- The number a run of digit characters denotes. -/
def natOfDigits (ds : List Char) : Nat :=
  ds.foldl (fun n c => 10 * n + (c.toNat - '0'.toNat)) 0

@[simp] theorem natOfDigits_nil : natOfDigits [] = 0 := rfl

theorem natOfDigits_append_singleton (ds : List Char) (c : Char) :
    natOfDigits (ds ++ [c]) = 10 * natOfDigits ds + (c.toNat - '0'.toNat) := by
  simp [natOfDigits]

/-- The decimal written with the digits `whole` before the point and `fraction` after it. -/
def ofDigits (whole fraction : List Char) : Decimal :=
  ⟨natOfDigits (whole ++ fraction), -(fraction.length : Int)⟩

/-! ## The shortest decimal that reads back -/

/-- The digits of a natural number, most significant first. -/
def digitChars (n : Nat) : List Char := Nat.toDigits 10 n

/-- Moves trailing zeros of the digits into the exponent; the number stays the same. -/
def trim (digits : Nat) (exponent : Int) : Decimal :=
  if digits ≠ 0 ∧ digits % 10 = 0 then trim (digits / 10) (exponent + 1) else ⟨digits, exponent⟩
termination_by digits

/-- The position of the point of `num / den`: the least `p` with `num / den < 10 ^ p`, for a
positive `num`. -/
def pointPosition (num den : Nat) : Int :=
  if den ≤ num then ((digitChars (num / den)).length : Int)
  else 1 - ((digitChars ((den - 1) / num)).length : Int)

/-- The point of the grid of step `10 ^ exponent` that is nearest to `num / den` among those that
read back as `target`: of the two neighbours the nearer one is tried first, and of two equally near
ones the even one. -/
def onGrid? (num den : Nat) (exponent : Int) (target : Float) : Option Decimal :=
  let n := num * Nat.pow 10 (-exponent).toNat
  let d := den * Nat.pow 10 exponent.toNat
  let below := n / d
  let doubled := 2 * (n % d)
  let belowFirst := doubled < d ∨ (doubled = d ∧ below % 2 = 0)
  let candidates := if belowFirst then [below, below + 1] else [below + 1, below]
  (candidates.map fun c => trim c exponent).find? fun c => c.toFloat = target

/-- Every binary64 number has a decimal of at most this many digits that reads back as it. -/
def maxDigits : Nat := 17

/-- **The shortest decimal that reads back as `target`**, the binary64 number whose exact value is
the positive ratio `num / den` with `den` a power of two: the first grid, from coarse to fine, on
which a neighbour of the value reads back decides. -/
def shortest (num den : Nat) (target : Float) : Decimal :=
  let point := pointPosition num den
  let grids := (List.range maxDigits).map fun k => point - (k + 1 : Nat)
  match grids.findSome? fun exponent => onGrid? num den exponent target with
  | some d => d
  | none => trim (num * Nat.pow 5 den.log2) (-(den.log2 : Int))

/-! ## Writing -/

/-- Digits, without an exponent: zeros fill the places up to the point, and a point is written
only when digits follow it. -/
def positional (d : Decimal) : List Char :=
  let ds := digitChars d.digits
  if 0 ≤ d.exponent then ds ++ List.replicate d.exponent.toNat '0'
  else
    let places := (-d.exponent).toNat
    if places < ds.length then
      ds.take (ds.length - places) ++ '.' :: ds.drop (ds.length - places)
    else '0' :: '.' :: (List.replicate (places - ds.length) '0' ++ ds)

/-- The exponent of the leading digit. -/
def leadingExponent (d : Decimal) : Int :=
  d.exponent + ((digitChars d.digits).length : Int) - 1

/-- One digit before the point, the others after it, and the exponent with its sign and at least
two digits. -/
def exponential (d : Decimal) : List Char :=
  let e := d.leadingExponent
  let ds := digitChars e.natAbs
  let mantissa := match digitChars d.digits with
    | [] => []
    | [c] => [c]
    | c :: rest => c :: '.' :: rest
  mantissa ++ 'e' :: (if e < 0 then '-' else '+') :: (List.replicate (2 - ds.length) '0' ++ ds)

/-- Leading exponents written without an exponent part; the others take the exponential form. -/
def isPositional (e : Int) : Bool := -4 ≤ e && e < 16

/-- Positional where the leading exponent allows it, and then with `.0` behind an integer;
exponential elsewhere. -/
def mixed (d : Decimal) : List Char :=
  if isPositional d.leadingExponent then
    if 0 ≤ d.exponent then d.positional ++ ['.', '0'] else d.positional
  else d.exponential

end Decimal

/-! ## Texts of binary64 numbers -/

/-- A binary64 number as a reader sees it: its sign and the decimal that stands for it. -/
inductive NumberView
  | notANumber
  | infinite (negative : Bool)
  | finite (negative : Bool) (magnitude : Decimal)
deriving DecidableEq, Repr

/-- Whether a sign is the negative one. -/
def signIsNegative : Float.Model.UnpackedFloat.Sign → Bool
  | .positive => false
  | .negative => true

/-- The sign of a number and the shortest decimal that reads back as its magnitude. -/
def NumberView.ofFloat (n : Float) : NumberView :=
  match n.toModel.unpack with
  | .notANumber => .notANumber
  | .infinity s => .infinite (signIsNegative s)
  | .zero s => .finite (signIsNegative s) ⟨0, 0⟩
  | .finite s mantissa exponent _ =>
    let target := if signIsNegative s then -n else n
    .finite (signIsNegative s)
      (Decimal.shortest (mantissa * Nat.pow 2 exponent.toNat) (Nat.pow 2 (-exponent).toNat) target)

/-- The text of a number in a given form, with the names that stand for the numbers without
digits. -/
def NumberView.text (form : Decimal → List Char) (nan : String) : NumberView → String
  | .notANumber => nan
  | .infinite negative => if negative then "-inf" else "inf"
  | .finite negative d => String.ofList (if negative then '-' :: form d else form d)

/-- **The text a program prints for a number**: the shortest digits that read back, never with an
exponent, and with a point only when digits follow it. -/
def plainNumber (n : Float) : String :=
  (NumberView.ofFloat n).text Decimal.positional "NaN"

/-- **The text of a number inside the description of a token**: the same digits, always with a
point or an exponent. -/
def exactNumber (n : Float) : String :=
  (NumberView.ofFloat n).text Decimal.mixed "nan"

end Lox
