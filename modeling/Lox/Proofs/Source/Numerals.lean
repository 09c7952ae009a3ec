import Lox.Source.Piece

/-! # The numbers of a program are numerals

A number piece is a run of digits, or two of them with a point between. Such a text is a numeral, so
every number token has a literal.

* **`Numeral.read?_digits`**, **`Numeral.read?_point`** — the numbers that these texts denote;
* **`Piece.read?_number_ne_none`** — a number piece is one of them. -/

namespace Lox

namespace Numeral

/-! ## Runs of digits -/

/-- A run of digits that may be empty. -/
def AllDigits (cs : List Char) : Prop := ∀ c ∈ cs, isDigit c = true

/-- A digit is neither blank nor a sign, an underscore or a point. -/
theorem toNat_of_isDigit {c : Char} (h : isDigit c = true) : 48 ≤ c.toNat ∧ c.toNat ≤ 57 := by
  simp only [isDigit, Bool.and_eq_true, decide_eq_true_eq] at h
  exact ⟨h.1, h.2⟩

/-- No digit is white space. -/
theorem isWhiteSpace_of_isDigit {c : Char} (h : isDigit c = true) :
    Text.isWhiteSpace c = false := by
  obtain ⟨hlow, hhigh⟩ := toNat_of_isDigit h
  simp only [Text.isWhiteSpace, Text.whiteSpaceRanges, List.any_cons, List.any_nil,
    Bool.or_eq_false_iff, Bool.and_eq_false_iff, decide_eq_false_iff_not, and_true]
  omega

/-- A digit is not another character. -/
theorem ne_of_isDigit {c d : Char} (h : isDigit c = true) (hd : isDigit d = false) : c ≠ d := by
  rintro rfl
  rw [h] at hd
  cases hd

/-- A run of digits is the whole group in front of a text that starts with no digit and no
underscore. -/
theorem digitGroup_append {ds rest : List Char} (hds : AllDigits ds)
    (hrest : ∀ c ∈ rest.head?, isDigit c = false ∧ c ≠ '_') :
    digitGroup (ds ++ rest) = (ds, rest) := by
  induction ds with
  | nil =>
    cases rest with
    | nil => rfl
    | cons c rest =>
      have hc := (hrest c rfl).1
      cases rest with
      | nil => simp [digitGroup, hc]
      | cons d more => simp [digitGroup, hc]
  | cons c ds ih =>
    have hc := hds c List.mem_cons_self
    have hgroup := ih fun d hd => hds d (List.mem_cons_of_mem c hd)
    -- the group looks two characters ahead, for an underscore between digits
    cases htail : ds ++ rest with
    | nil =>
      obtain ⟨rfl, rfl⟩ := List.append_eq_nil_iff.1 htail
      simp [digitGroup, hc]
    | cons d more =>
      have hd : d ≠ '_' := by
        cases ds with
        | nil =>
          rw [List.nil_append] at htail
          exact (hrest d (by rw [htail]; rfl)).2
        | cons e ds =>
          rw [List.cons_append, List.cons.injEq] at htail
          rw [← htail.1]
          exact ne_of_isDigit (hds e (by simp)) (by decide)
      rw [htail] at hgroup
      simp [List.cons_append, htail, digitGroup, hc, hd, hgroup]

/-- A run of digits is a group of digits alone. -/
theorem digitGroup_of_allDigits {ds : List Char} (hds : AllDigits ds) :
    digitGroup ds = (ds, []) := by
  have h := digitGroup_append hds (show ∀ c ∈ ([] : List Char).head?, _ by simp)
  rwa [List.append_nil] at h

/-! ## Plain numerals -/

/-- White space is trimmed off a text only if it has any. -/
theorem trimWhiteSpace_eq_self {cs : List Char} (h : ∀ c ∈ cs, Text.isWhiteSpace c = false) :
    Text.trimWhiteSpace cs = cs := by
  have hdrop : ∀ ds : List Char, (∀ c ∈ ds, Text.isWhiteSpace c = false) →
      ds.dropWhile Text.isWhiteSpace = ds := by
    intro ds hds
    cases ds with
    | nil => rfl
    | cons c ds => rw [List.dropWhile_cons, hds c List.mem_cons_self]; rfl
  unfold Text.trimWhiteSpace
  rw [hdrop cs h, hdrop cs.reverse fun c hc => h c (List.mem_reverse.1 hc), List.reverse_reverse]

/-- A digit has no other case. -/
theorem toLower_of_isDigit {c : Char} (hc : isDigit c = true) : c.toLower = c := by
  obtain ⟨-, hhigh⟩ := toNat_of_isDigit hc
  have hupper : ¬ (c.val ≥ 65 ∧ c.val ≤ 90) := by
    intro h
    have hlow : 65 ≤ c.toNat := h.1
    omega
  unfold Char.toLower
  simp [hupper]

/-- A text that starts with a digit has no sign. -/
theorem sign_cons_of_isDigit {c : Char} (hc : isDigit c = true) (cs : List Char) :
    sign (c :: cs) = (false, c :: cs) := by
  have hminus := ne_of_isDigit hc (d := '-') (by decide)
  have hplus := ne_of_isDigit hc (d := '+') (by decide)
  unfold sign
  split <;> simp_all

/-- A text that starts with a digit is no word, whatever the case of its letters. -/
theorem map_toLower_ne_of_isDigit {c d : Char} (hc : isDigit c = true) (hd : isDigit d = false)
    (cs ds : List Char) : String.ofList ((c :: cs).map Char.toLower) ≠ String.ofList (d :: ds) := by
  intro h
  have hlist := String.ofList_injective h
  rw [List.map_cons, List.cons.injEq, toLower_of_isDigit hc] at hlist
  exact ne_of_isDigit hc hd hlist.1

/-- A text that starts with a digit and has no white space is a decimal numeral, if it is one. -/
theorem read?_cons_of_isDigit {c : Char} {cs : List Char} (hc : isDigit c = true)
    (hcs : ∀ d ∈ cs, Text.isWhiteSpace d = false) :
    read? (c :: cs) = (decimal? (c :: cs)).map Decimal.toFloat := by
  have htrim : Text.trimWhiteSpace (c :: cs) = c :: cs := by
    refine trimWhiteSpace_eq_self fun d hd => ?_
    rcases List.mem_cons.1 hd with rfl | hd
    · exact isWhiteSpace_of_isDigit hc
    · exact hcs d hd
  -- neither trimmed nor signed nor one of the words, it is left to the decimal form
  unfold read?
  rw [htrim, sign_cons_of_isDigit hc]
  simp only [unsigned?]
  rw [if_neg, if_neg]
  · cases decimal? (c :: cs) <;> rfl
  · exact map_toLower_ne_of_isDigit hc (by decide) cs "an".toList
  · rintro (h | h)
    · exact map_toLower_ne_of_isDigit hc (by decide) cs "nf".toList h
    · exact map_toLower_ne_of_isDigit hc (by decide) cs "nfinity".toList h

/-- A minus sign in front of a text that starts with a digit is the sign of that numeral. -/
theorem read?_minus {c : Char} {cs : List Char} (hc : isDigit c = true)
    (hcs : ∀ d ∈ c :: cs, Text.isWhiteSpace d = false) :
    read? ('-' :: c :: cs) = (read? (c :: cs)).map (-·) := by
  have htrim' : Text.trimWhiteSpace ('-' :: c :: cs) = '-' :: c :: cs :=
    trimWhiteSpace_eq_self (List.forall_mem_cons.2 ⟨by decide, hcs⟩)
  unfold read?
  rw [trimWhiteSpace_eq_self hcs, htrim', sign_cons_of_isDigit hc]
  simp only [sign, Bool.false_eq_true, if_false, if_true]
  cases unsigned? (c :: cs) <;> rfl

/-- **A run of digits is a numeral.** -/
theorem read?_digits {ds : List Char} (hne : ds ≠ []) (hds : AllDigits ds) :
    read? ds = some (Decimal.ofDigits ds []).toFloat := by
  obtain ⟨c, cs, rfl⟩ := List.exists_cons_of_ne_nil hne
  rw [read?_cons_of_isDigit (hds c List.mem_cons_self) fun d hd =>
    isWhiteSpace_of_isDigit (hds d (List.mem_cons_of_mem c hd))]
  unfold decimal?
  rw [digitGroup_of_allDigits hds]
  simp [exponentPart?]

/-- **Two runs of digits with a point between them are a numeral.** -/
theorem read?_point {ds fs : List Char} (hne : ds ≠ []) (hds : AllDigits ds)
    (hfs : AllDigits fs) :
    read? (ds ++ '.' :: fs) = some (Decimal.ofDigits ds fs).toFloat := by
  have hgroup : digitGroup (ds ++ '.' :: fs) = (ds, '.' :: fs) :=
    digitGroup_append hds (by simp; decide)
  obtain ⟨c, cs, rfl⟩ := List.exists_cons_of_ne_nil hne
  have hspace : ∀ d ∈ cs ++ '.' :: fs, Text.isWhiteSpace d = false := by
    intro d hd
    rcases List.mem_append.1 hd with hd | hd
    · exact isWhiteSpace_of_isDigit (hds d (List.mem_cons_of_mem c hd))
    · rcases List.mem_cons.1 hd with rfl | hd
      · decide
      · exact isWhiteSpace_of_isDigit (hfs d hd)
  rw [List.cons_append] at hgroup ⊢
  rw [read?_cons_of_isDigit (hds c List.mem_cons_self) hspace]
  unfold decimal?
  rw [hgroup]
  simp [digitGroup_of_allDigits hfs, exponentPart?]

end Numeral

/-! ## Number pieces -/

namespace Piece

open Numeral

/-- What is taken as long as it is digits is digits. -/
theorem allDigits_takeWhile (cs : List Char) : AllDigits (cs.takeWhile isDigit) :=
  List.all_eq_true.1 List.all_takeWhile

/-- What is left behind the digits starts with none. -/
theorem isDigit_head?_dropWhile (cs : List Char) :
    ∀ c ∈ (cs.dropWhile isDigit).head?, isDigit c = false := by
  induction cs with
  | nil => simp
  | cons c cs ih =>
    rw [List.dropWhile_cons]
    split
    · exact ih
    · next hc => simpa using hc

/-- How many characters a point and the digits behind it take, if there are any behind it. -/
def fractionLength : List Char → Nat
  | '.' :: d :: more => if isDigit d then 1 + ((d :: more).takeWhile isDigit).length else 0
  | _ => 0

/-- A fraction is a point and digits. -/
theorem take_fractionLength (cs : List Char) :
    cs.take (fractionLength cs) = [] ∨
      ∃ fs, fs ≠ [] ∧ AllDigits fs ∧ cs.take (fractionLength cs) = '.' :: fs := by
  unfold fractionLength
  split
  · next d more =>
    split
    · next hd =>
      right
      refine ⟨(d :: more).takeWhile isDigit, ?_, allDigits_takeWhile _, ?_⟩
      · rw [List.takeWhile_cons_of_pos hd]
        exact List.cons_ne_nil _ _
      · rw [Nat.add_comm, List.take_succ_cons]
        exact congrArg _ (List.prefix_iff_eq_take.1 (List.takeWhile_prefix _)).symm
    · exact .inl rfl
  · exact .inl rfl

/-- The characters that continue a number are its digits and its fraction. -/
theorem numberLength_append {ds tail : List Char} (hds : AllDigits ds)
    (htail : ∀ c ∈ tail.head?, isDigit c = false) :
    numberLength (ds ++ tail) = ds.length + fractionLength tail := by
  have htake : (ds ++ tail).takeWhile isDigit = ds := by
    rw [List.takeWhile_append_of_pos hds]
    cases tail with
    | nil => simp
    | cons c tail => simp [htail c rfl]
  unfold numberLength
  rw [htake]
  simp only [List.drop_left]
  -- the three forms of what follows the digits are those of the fraction
  fun_cases fractionLength tail with
  | case1 d more hd => exact (if_pos hd).trans (Nat.add_assoc _ _ _)
  | case2 d more hd => exact if_neg hd
  | case3 tail hpoint =>
    split
    · next d more => exact absurd rfl (hpoint d more)
    · rfl

/-- A number piece is a run of digits, or two of them with a point between. -/
theorem cons_take_numberLength {c : Char} (hc : isDigit c = true) (rest : List Char) :
    ∃ ds, ds ≠ [] ∧ AllDigits ds ∧ (c :: rest.take (numberLength rest) = ds ∨
      ∃ fs, fs ≠ [] ∧ AllDigits fs ∧ c :: rest.take (numberLength rest) = ds ++ '.' :: fs) := by
  have hsplit := List.takeWhile_append_dropWhile (p := isDigit) (l := rest)
  have hds := allDigits_takeWhile rest
  have hcons : AllDigits (c :: rest.takeWhile isDigit) := by
    intro d hd
    rcases List.mem_cons.1 hd with rfl | hd
    · exact hc
    · exact hds d hd
  -- the piece is its digits with the fraction behind them
  have htext : c :: rest.take (numberLength rest) = (c :: rest.takeWhile isDigit) ++
      (rest.dropWhile isDigit).take (fractionLength (rest.dropWhile isDigit)) := by
    conv => lhs; rw [← hsplit]
    rw [numberLength_append hds (isDigit_head?_dropWhile rest), List.take_append,
      List.take_of_length_le (Nat.le_add_right _ _), Nat.add_sub_cancel_left]
    rfl
  refine ⟨_, List.cons_ne_nil _ _, hcons, ?_⟩
  rcases take_fractionLength (rest.dropWhile isDigit) with hfraction | ⟨fs, hne, hfs, hfraction⟩
  · rw [hfraction, List.append_nil] at htext
    exact .inl htext
  · rw [hfraction] at htext
    exact .inr ⟨fs, hne, hfs, htext⟩

/-- A number piece is a numeral. -/
theorem read?_number_ne_none {c : Char} (hc : isDigit c = true) (rest : List Char) :
    read? (c :: rest.take (numberLength rest)) ≠ none := by
  obtain ⟨ds, hne, hds, htext | ⟨fs, -, hfs, htext⟩⟩ := cons_take_numberLength hc rest
  · rw [htext, read?_digits hne hds]
    exact Option.some_ne_none _
  · rw [htext, read?_point hne hds hfs]
    exact Option.some_ne_none _

end Piece

end Lox
