import Lox.Text.Printable

/-! # Quoted texts

A text is shown between quotes so that every character of it can be told apart: the quote in use
and the backslash are written behind a backslash, tabulator, line feed and carriage return by name,
and any other character that cannot be seen by its code point in hexadecimal digits. The quote is
the apostrophe, unless the text has apostrophes and no quotation marks. -/

namespace Lox.Text

/-- The last `width` hexadecimal digits of a number, in lower case. -/
def hexDigits : Nat → Nat → List Char
  | 0, _ => []
  | width + 1, n => hexDigits width (n / 16) ++ [Nat.digitChar (n % 16)]

/-- A number in hexadecimal takes exactly the digits asked for. -/
@[simp] theorem length_hexDigits (width n : Nat) : (hexDigits width n).length = width := by
  induction width generalizing n with
  | zero => rfl
  | succ width ih => simp [hexDigits, ih]

/-- A character by its code point, in the shortest of the three forms that has room for it. -/
def codePointEscape (c : Char) : List Char :=
  let n := c.toNat
  if n < 0x100 then '\\' :: 'x' :: hexDigits 2 n
  else if n < 0x10000 then '\\' :: 'u' :: hexDigits 4 n
  else '\\' :: 'U' :: hexDigits 8 n

/-- One character of a text inside the quotes `quote`. -/
def escapeChar (quote c : Char) : List Char :=
  if c = quote ∨ c = '\\' then ['\\', c]
  else if c = '\t' then ['\\', 't']
  else if c = '\n' then ['\\', 'n']
  else if c = '\r' then ['\\', 'r']
  else if isPrintable c then [c]
  else codePointEscape c

/-- The quote a text is shown in. -/
def quoteFor (cs : List Char) : Char :=
  if '\'' ∈ cs ∧ '"' ∉ cs then '"' else '\''

/-- **A text between quotes**, every character of it visible. -/
def quoted (s : String) : String :=
  let quote := quoteFor s.toList
  String.ofList (quote :: s.toList.flatMap (escapeChar quote) ++ [quote])

/-- The quotation mark is used exactly for texts with apostrophes and without quotation marks. -/
theorem quoteFor_eq_iff (cs : List Char) :
    quoteFor cs = '"' ↔ '\'' ∈ cs ∧ '"' ∉ cs := by
  unfold quoteFor
  split <;> simp_all

end Lox.Text
