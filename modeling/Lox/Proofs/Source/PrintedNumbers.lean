import Lox.Proofs.Decimal.Positional
import Lox.Proofs.Decimal.Shortest
import Lox.Proofs.Source.Separation
import Lox.Proofs.Text.Utf8

/-! # Printed numbers read back

A finite number is printed with its sign, its digits, and a point with more digits if it is no
integer. Scanned as a program, this text is a number token for the magnitude of the number, with a
minus sign in front of it if the sign bit is set.

* **`Decimal.read?_pointed`**, **`Pattern.pointed`** — digits with a point are one number;
* **`Source.scan_signed`** — what is scanned from them behind a minus sign;
* **`Decimal.StandsFor.toFloat_ofDigits`** — the digits of a printed number denote its magnitude;
* **`Numeral.read?_plainNumber`** — the text of a finite number is a numeral for it;
* **`Printed`**, **`Source.printed_numbers`** — what is printed, and what is scanned from it. -/

namespace Lox

open Numeral (AllDigits)
open Decimal (pointed)
open Binary64 (IsIntegral signBit)

variable {whole fraction : List Char}

/-! ## Digits with a point -/

/-- Digits with a point are a numeral. -/
theorem Decimal.read?_pointed (hne : whole ≠ []) (hwhole : AllDigits whole)
    (hfraction : AllDigits fraction) :
    Numeral.read? (pointed whole fraction) = some (ofDigits whole fraction).toFloat := by
  unfold pointed
  split
  · next hnil =>
    rw [hnil]
    exact Numeral.read?_digits hne hwhole
  · exact Numeral.read?_point hne hwhole hfraction

/-- Digits with a point are of the pattern of numbers. -/
theorem Pattern.pointed (hne : whole ≠ []) (hwhole : AllDigits whole)
    (hfraction : AllDigits fraction) : Pattern .number (pointed whole fraction) := by
  unfold Decimal.pointed
  split
  · exact .digits hne hwhole
  · next hnil => exact .fraction hne hwhole hnil hfraction

/-- Digits with a point are digits, but for the point. -/
theorem Decimal.of_mem_pointed (hwhole : AllDigits whole) (hfraction : AllDigits fraction)
    {c : Char} (h : c ∈ pointed whole fraction) : isDigit c = true ∨ c = '.' := by
  unfold pointed at h
  split at h
  · exact .inl (hwhole c h)
  · rcases List.mem_append.1 h with h | h
    · exact .inl (hwhole c h)
    · rcases List.mem_cons.1 h with rfl | h
      · exact .inr rfl
      · exact .inl (hfraction c h)

/-- Digits with a point are ASCII text on one line. -/
theorem Decimal.ascii_of_mem_pointed (hwhole : AllDigits whole) (hfraction : AllDigits fraction)
    {c : Char} (h : c ∈ pointed whole fraction) : c.toNat < 0x80 ∧ c ≠ '\n' := by
  rcases of_mem_pointed hwhole hfraction h with hdigit | rfl
  · have := Numeral.toNat_of_isDigit hdigit
    exact ⟨by omega, Numeral.ne_of_isDigit hdigit (by decide)⟩
  · decide

/-- Digits with a point start with a digit. -/
theorem Decimal.exists_pointed_eq_cons (hne : whole ≠ []) (hwhole : AllDigits whole) :
    ∃ c cs, pointed whole fraction = c :: cs ∧ isDigit c = true := by
  obtain ⟨c, cs, rfl⟩ := List.exists_cons_of_ne_nil hne
  unfold pointed
  split
  · exact ⟨c, cs, rfl, hwhole c List.mem_cons_self⟩
  · exact ⟨c, _, rfl, hwhole c List.mem_cons_self⟩

/-! ## Numbers with a sign -/

/-- A text behind a minus sign, or without one. -/
def signed (negative : Bool) (text : List Char) : List Char :=
  if negative then '-' :: text else text

/-- A minus sign is a piece of its own. -/
theorem pieces_signed (negative : Bool) (text : List Char) :
    pieces (signed negative text) =
      (if negative then [⟨.operator .minus, ['-']⟩] else []) ++ pieces text := by
  cases negative with
  | false => rfl
  | true => exact pieces_cons '-' text

/-- A minus sign is ASCII text, too. -/
theorem ofText_signed {text : List Char} (negative : Bool) (h : ∀ c ∈ text, c.toNat < 0x80) :
    Source.ofText (String.ofList (signed negative text)) = signed negative text := by
  refine Text.toBytes_ofList_of_ascii ?_
  cases negative with
  | false => exact h
  | true => exact List.forall_mem_cons.2 ⟨by decide, h⟩

/-- The tokens of a number with a sign: a minus sign if there is one, the number, and the end. -/
def numberTokens (negative : Bool) (lexeme : String) (magnitude : Float) : List Token :=
  (if negative then [⟨.minus, "-", none, 1⟩] else []) ++
    [⟨.number, lexeme, some (.number magnitude), 1⟩, ⟨.endOfInput, "", none, 1⟩]

/-- **A number with a sign is scanned** without a report, to the number that its digits denote. -/
theorem Source.scan_signed (negative : Bool) (hne : whole ≠ []) (hwhole : AllDigits whole)
    (hfraction : AllDigits fraction) :
    let found := scan (ofText (String.ofList (signed negative (pointed whole fraction))))
    found.errors = #[] ∧
      found.tokens.toList = numberTokens negative (String.ofList (pointed whole fraction))
        (Decimal.ofDigits whole fraction).toFloat := by
  have hascii (c : Char) (hc : c ∈ pointed whole fraction) :=
    Decimal.ascii_of_mem_pointed hwhole hfraction hc
  have hsource := ofText_signed negative fun c hc => (hascii c hc).1
  have hnumber : pieces (pointed whole fraction) = [⟨.number, pointed whole fraction⟩] :=
    pieces_text (p := ⟨.number, pointed whole fraction⟩) (.pointed hne hwhole hfraction)
  have hlines : (pointed whole fraction).count '\n' = 0 :=
    List.count_eq_zero.2 fun h => (hascii _ h).2 rfl
  have hliteral := Decimal.read?_pointed hne hwhole hfraction
  refine ⟨Array.toList_inj.1 ?_, ?_⟩
  · rw [toList_errors_scan, hsource, pieces_signed, hnumber]
    cases negative <;> rfl
  · rw [toList_tokens_scan, endToken, hsource, pieces_signed, hnumber]
    cases negative <;>
      simp [tokensOf, Piece.token?, Piece.lines, Scan.numberLiteral, numberTokens, hlines, hliteral]

/-! ## Printed numbers -/

/-- **The digits of a printed number denote its magnitude.** -/
theorem Decimal.StandsFor.toFloat_ofDigits {d : Decimal} {n : Float} (h : d.StandsFor n)
    (hfinite : n.isFinite = true) (hwritten : d.Written whole fraction) :
    (ofDigits whole fraction).toFloat = n.abs := by
  rw [hwritten.ofDigits_eq, ← h.toFloat_eq]
  split
  · next hnonneg =>
    refine toFloat_zeros ?_ hnonneg
    rw [h.toFloat_eq]
    exact Binary64.isFinite_abs hfinite
  · rfl

/-- **How a number is printed**: a minus sign if the sign bit is set, digits, and, exactly if the
number is no integer, a point with more digits, the last of which is no zero. -/
structure Printed (n : Float) (whole fraction : List Char) : Prop where
  text_eq : plainNumber n = String.ofList (signed (signBit n) (pointed whole fraction))
  whole_ne : whole ≠ []
  whole_digits : AllDigits whole
  fraction_digits : AllDigits fraction
  fraction_eq_nil_iff : fraction = [] ↔ IsIntegral n
  last_ne : fraction.getLast? ≠ some '0'

/-- A number is printed as the decimal that stands for it is written. -/
theorem printed_of_standsFor {n : Float} {d : Decimal}
    (hview : NumberView.ofFloat n = .finite (signBit n) d) (hd : d.StandsFor n)
    (hwritten : d.Written whole fraction) : Printed n whole fraction where
  text_eq := by rw [plainNumber, hview, NumberView.text, hwritten.positional_eq, signed]
  whole_ne := hwritten.whole_ne
  whole_digits := hwritten.whole_digits
  fraction_digits := hwritten.fraction_digits
  fraction_eq_nil_iff := hwritten.fraction_eq_nil_iff.trans hd.nonneg_iff
  last_ne := by
    by_cases hneg : d.exponent < 0
    · exact hwritten.getLast?_ne (hd.last_ne hneg)
    · rw [hwritten.fraction_eq_nil_iff.2 (Int.not_lt.1 hneg)]
      exact nofun

/-- Every finite number is printed with digits that denote its magnitude. -/
theorem exists_printed {n : Float} (h : n.isFinite = true) :
    ∃ whole fraction, Printed n whole fraction ∧
      (Decimal.ofDigits whole fraction).toFloat = n.abs := by
  obtain ⟨d, hview, hd⟩ := NumberView.exists_ofFloat_eq h
  obtain ⟨whole, fraction, hwritten⟩ := Decimal.exists_written d
  exact ⟨whole, fraction, printed_of_standsFor hview hd hwritten, hd.toFloat_ofDigits h hwritten⟩

/-- **The text of a finite number is a numeral for it**, sign and all. -/
theorem Numeral.read?_plainNumber {n : Float} (h : n.isFinite = true) :
    read? (plainNumber n).toList = some n := by
  obtain ⟨whole, fraction, hprinted, hmagnitude⟩ := exists_printed h
  have hread := Decimal.read?_pointed hprinted.whole_ne hprinted.whole_digits
    hprinted.fraction_digits
  have hsigned := Binary64.signed_abs h
  rw [hprinted.text_eq, String.toList_ofList]
  cases hsign : signBit n with
  | false =>
    rw [hsign] at hsigned
    exact hread.trans (congrArg some (hmagnitude.trans hsigned))
  | true =>
    have hspace : ∀ d ∈ pointed whole fraction, Text.isWhiteSpace d = false := by
      intro d hd
      rcases Decimal.of_mem_pointed hprinted.whole_digits hprinted.fraction_digits hd with hd | rfl
      · exact isWhiteSpace_of_isDigit hd
      · decide
    obtain ⟨c, cs, hcons, hc⟩ := Decimal.exists_pointed_eq_cons
      hprinted.whole_ne hprinted.whole_digits
    rw [hsign] at hsigned
    rw [hcons] at hread hspace
    rw [signed, if_pos rfl, hcons, read?_minus hc hspace, hread, Option.map_some, hmagnitude]
    exact congrArg some hsigned

/-- **Printed numbers read back unchanged.** Every finite number is printed without an exponent, and
its text is scanned without a report, to one number whose literal is the magnitude of the number,
bit by bit, behind a minus sign exactly if the sign bit is set. -/
theorem Source.printed_numbers (n : Float) (h : n.isFinite = true) :
    ∃ whole fraction, Printed n whole fraction ∧
      (scan (ofText (plainNumber n))).errors = #[] ∧
      (scan (ofText (plainNumber n))).tokens.toList =
        numberTokens (signBit n) (String.ofList (pointed whole fraction)) n.abs := by
  obtain ⟨whole, fraction, hprinted, hmagnitude⟩ := exists_printed h
  refine ⟨whole, fraction, hprinted, ?_⟩
  rw [hprinted.text_eq, ← hmagnitude]
  exact scan_signed (signBit n) hprinted.whole_ne hprinted.whole_digits hprinted.fraction_digits

/-- The number -2.5 is printed and read back. -/
theorem Source.printed_numbers_minus_two_point_five :
    (-2.5 : Float).isFinite = true ∧ plainNumber (-2.5) = "-2.5" ∧
      (∃ whole fraction, Printed (-2.5) whole fraction ∧
        (scan (ofText (plainNumber (-2.5)))).errors = #[] ∧
        (scan (ofText (plainNumber (-2.5)))).tokens.toList =
          numberTokens (signBit (-2.5)) (String.ofList (pointed whole fraction))
            (Float.abs (-2.5))) ∧
      signBit (-2.5) = true :=
  ⟨by decide, by decide +kernel, Source.printed_numbers (-2.5) (by decide), by decide⟩

-- a zero keeps its sign
example : plainNumber (-0.0) = "-0" := by decide +kernel

end Lox
