/-! # Texts as bytes

A program is cut byte by byte, each byte standing for the character of its number; only the inside
of a string literal is read back as a text.

* **`Text.toBytes`** — the UTF-8 bytes of a text, as characters U+0000 to U+00FF;
* **`Text.ofBytes`** — the text that bytes stand for, where every maximal piece of a character that
  breaks off becomes one replacement character U+FFFD. -/

namespace Lox.Text

/-- The UTF-8 bytes of a character, as numbers below 256. -/
def charBytes (c : Char) : List Nat :=
  let n := c.toNat
  if n < 0x80 then [n]
  else if n < 0x800 then [0xC0 + n / 0x40, 0x80 + n % 0x40]
  else if n < 0x10000 then [0xE0 + n / 0x1000, 0x80 + n / 0x40 % 0x40, 0x80 + n % 0x40]
  else [0xF0 + n / 0x40000, 0x80 + n / 0x1000 % 0x40, 0x80 + n / 0x40 % 0x40, 0x80 + n % 0x40]

/-- The UTF-8 bytes of a text, each as the character of its number. -/
def toBytes (s : String) : List Char :=
  s.toList.flatMap fun c => (charBytes c).map Char.ofNat

/-- The character that stands for bytes which are no character. -/
def replacement : Char := '\uFFFD'

/-- What a first byte announces: how many bytes follow, the range of the second one, and the bits
of the character that the first byte holds. A byte that can start no character announces nothing. -/
structure Lead where
  following : Nat
  secondFrom : Nat
  secondTo : Nat
  bits : Nat
deriving DecidableEq, Repr

/-- The second byte of a three or four byte character is limited where a shorter form exists, where
surrogates would arise, and above the last code point. -/
def Lead.ofByte? (b : Nat) : Option Lead :=
  if b < 0xC2 then none
  else if b < 0xE0 then some ⟨1, 0x80, 0xBF, b - 0xC0⟩
  else if b < 0xF0 then
    some ⟨2, if b = 0xE0 then 0xA0 else 0x80, if b = 0xED then 0x9F else 0xBF, b - 0xE0⟩
  else if b < 0xF5 then
    some ⟨3, if b = 0xF0 then 0x90 else 0x80, if b = 0xF4 then 0x8F else 0xBF, b - 0xF0⟩
  else none

/-- Takes the bytes that continue a character: `missing` of them, the next one between `low` and
`high` and the later ones between 0x80 and 0xBF. Answers the character, or the replacement when a
byte does not fit, and how many bytes it took. -/
def continueChar : (missing low high bits taken : Nat) → List Char → Char × Nat
  | 0, _, _, bits, taken, _ => (Char.ofNat bits, taken)
  | _ + 1, _, _, _, taken, [] => (replacement, taken)
  | missing + 1, low, high, bits, taken, c :: rest =>
    if low ≤ c.toNat ∧ c.toNat ≤ high then
      continueChar missing 0x80 0xBF (bits * 0x40 + (c.toNat - 0x80)) (taken + 1) rest
    else (replacement, taken)

/-- The character at the front of bytes that start with `c`, and how many bytes after `c` belong
to it. -/
def firstChar (c : Char) (rest : List Char) : Char × Nat :=
  if c.toNat < 0x80 then (c, 0)
  else match Lead.ofByte? c.toNat with
    | none => (replacement, 0)
    | some lead => continueChar lead.following lead.secondFrom lead.secondTo lead.bits 0 rest

/-- The characters that bytes stand for, added to the ones found before, last first. -/
def decodeOnto (found : List Char) : List Char → List Char
  | [] => found.reverse
  | c :: rest =>
    let (d, taken) := firstChar c rest
    decodeOnto (d :: found) (rest.drop taken)
termination_by bytes => bytes.length
decreasing_by
  rw [List.length_drop, List.length_cons]
  omega

/-- **The text that bytes stand for.** Bytes that are no character become U+FFFD, one for each
longest run that could have started a character. -/
def ofBytes (bytes : List Char) : String := String.ofList (decodeOnto [] bytes)

end Lox.Text
