import Lox.Source.Scan

/-! # Texts as bytes, and back

Bytes of a text are read back as that text. Every byte of a character of more than one byte is
above the ASCII range, so an ASCII character among the bytes of a text is one of the text, and
cutting the bytes there cuts no character.

* **`Text.charBytes_eq_utf8EncodeChar`** — the bytes of a character are those of UTF-8;
* **`Text.firstChar_charBytes`** — the bytes of a character are read as it, whatever follows;
* **`Text.ofBytes_toBytes`** — so bytes of a text are read as the text;
* **`Text.exists_of_toBytes_eq_append_cons`**, **`Text.exists_of_toBytes_eq_append`** — bytes of a
  text are cut at an ASCII character, and at both ends of a few, where the text is;
* **`Text.toBytes_eq_toList_iff`** — texts that are their own bytes. -/

namespace Lox.Text

/-! ## Bytes as characters -/

/-- The number of a character below the surrogates. -/
theorem toNat_ofNat {n : Nat} (h : n < 0xD800) : (Char.ofNat n).toNat = n := by
  have hvalid : n.isValidChar := .inl h
  unfold Char.ofNat
  rw [dif_pos hvalid]
  rfl

/-- A number that is that of a character is below the surrogates or above them. -/
theorem toNat_bounds (c : Char) : c.toNat < 0xD800 ∨ 0xDFFF < c.toNat ∧ c.toNat < 0x110000 :=
  c.valid

/-- **The bytes of a character are those of UTF-8.** -/
theorem charBytes_eq_utf8EncodeChar (c : Char) :
    charBytes c = (String.utf8EncodeChar c).map UInt8.toNat := by
  have hc := toNat_bounds c
  unfold charBytes String.utf8EncodeChar
  simp only [Char.toNat_val, ← Nat.lt_succ_iff]
  split
  · simp only [List.map_cons, List.map_nil, UInt8.toNat_ofNat', List.cons.injEq, and_true]
    omega
  split
  · simp only [List.map_cons, List.map_nil, UInt8.toNat_ofNat', List.cons.injEq, and_true]
    omega
  split
  · simp only [List.map_cons, List.map_nil, UInt8.toNat_ofNat', List.cons.injEq, and_true]
    omega
  · simp only [List.map_cons, List.map_nil, UInt8.toNat_ofNat', List.cons.injEq, and_true]
    omega

/-- The bytes of a character, then those of the text behind it. -/
theorem toBytes_ofList_cons (c : Char) (cs : List Char) :
    toBytes (String.ofList (c :: cs)) =
      (charBytes c).map Char.ofNat ++ toBytes (String.ofList cs) := by
  simp [toBytes]

@[simp] theorem toBytes_empty : toBytes "" = [] := by simp [toBytes]

/-- The bytes of two texts follow one another. -/
theorem toBytes_append (s t : String) : toBytes (s ++ t) = toBytes s ++ toBytes t := by
  simp [toBytes]

/-- A text of ASCII characters is its own bytes. -/
theorem toBytes_ofList_of_ascii {cs : List Char} (h : ∀ c ∈ cs, c.toNat < 0x80) :
    toBytes (String.ofList cs) = cs := by
  induction cs with
  | nil => exact toBytes_empty
  | cons c cs ih =>
    have hc : charBytes c = [c.toNat] := if_pos (h c List.mem_cons_self)
    rw [toBytes_ofList_cons, hc, ih fun d hd => h d (List.mem_cons_of_mem c hd)]
    simp

/-! ## Reading a character -/

/-- A byte that fits continues a character. -/
theorem continueChar_byte {b low high : Nat} (missing bits taken : Nat) (rest : List Char)
    (hlow : low ≤ b) (hhigh : b ≤ high) (hb : b < 0x100) :
    continueChar (missing + 1) low high bits taken (Char.ofNat b :: rest) =
      continueChar missing 0x80 0xBF (bits * 0x40 + (b - 0x80)) (taken + 1) rest := by
  rw [continueChar, toNat_ofNat (by omega), if_pos ⟨hlow, hhigh⟩]

/-- A first byte above the ASCII range, and what it announces. -/
theorem firstChar_of_lead {b following low high bits : Nat} (rest : List Char) (hb : ¬ b < 0x80)
    (h : Lead.ofByte? b = some ⟨following, low, high, bits⟩) :
    firstChar (Char.ofNat b) rest = continueChar following low high bits 0 rest := by
  have hlt : b < 0xF5 := by
    rcases Nat.lt_or_ge b 0xF5 with hlt | hge
    · exact hlt
    · unfold Lead.ofByte? at h
      rw [if_neg (by omega), if_neg (by omega), if_neg (by omega), if_neg (by omega)] at h
      cases h
  have hn : (Char.ofNat b).toNat = b := toNat_ofNat (by omega)
  unfold firstChar
  rw [hn, if_neg hb, h]

/-- Two bytes are read as a character. -/
theorem firstChar_of_two {n : Nat} (hlow : 0x80 ≤ n) (hhigh : n < 0x800) (rest : List Char) :
    firstChar (Char.ofNat (0xC0 + n / 0x40)) (Char.ofNat (0x80 + n % 0x40) :: rest) =
      (Char.ofNat n, 1) := by
  have hlead : Lead.ofByte? (0xC0 + n / 0x40) = some ⟨1, 0x80, 0xBF, n / 0x40⟩ := by
    unfold Lead.ofByte?
    rw [if_neg (by omega), if_pos (by omega), Nat.add_sub_cancel_left]
  have hbits : n / 0x40 * 0x40 + (0x80 + n % 0x40 - 0x80) = n := by omega
  rw [firstChar_of_lead _ (by omega) hlead, continueChar_byte _ _ _ _ (by omega) (by omega)
    (by omega), hbits, continueChar]

/-- Three bytes are read as a character, unless it is a surrogate. -/
theorem firstChar_of_three {n : Nat} (hlow : 0x800 ≤ n) (hhigh : n < 0x10000)
    (hvalid : n < 0xD800 ∨ 0xDFFF < n) (rest : List Char) :
    firstChar (Char.ofNat (0xE0 + n / 0x1000)) (Char.ofNat (0x80 + n / 0x40 % 0x40) ::
      Char.ofNat (0x80 + n % 0x40) :: rest) = (Char.ofNat n, 2) := by
  have hlead : Lead.ofByte? (0xE0 + n / 0x1000) =
      some ⟨2, if 0xE0 + n / 0x1000 = 0xE0 then 0xA0 else 0x80,
        if 0xE0 + n / 0x1000 = 0xED then 0x9F else 0xBF, n / 0x1000⟩ := by
    unfold Lead.ofByte?
    rw [if_neg (by omega), if_neg (by omega), if_pos (by omega), Nat.add_sub_cancel_left]
  -- no shorter form, and no surrogate
  have hfrom : (if 0xE0 + n / 0x1000 = 0xE0 then 0xA0 else 0x80) ≤ 0x80 + n / 0x40 % 0x40 := by
    split <;> omega
  have hto : 0x80 + n / 0x40 % 0x40 ≤ if 0xE0 + n / 0x1000 = 0xED then 0x9F else 0xBF := by
    split <;> omega
  have hbits : (n / 0x1000 * 0x40 + (0x80 + n / 0x40 % 0x40 - 0x80)) * 0x40 +
      (0x80 + n % 0x40 - 0x80) = n := by omega
  rw [firstChar_of_lead _ (by omega) hlead, continueChar_byte _ _ _ _ hfrom hto (by omega),
    continueChar_byte _ _ _ _ (by omega) (by omega) (by omega), hbits, continueChar]

/-- Four bytes are read as a character, up to the last code point. -/
theorem firstChar_of_four {n : Nat} (hlow : 0x10000 ≤ n) (hhigh : n < 0x110000)
    (rest : List Char) :
    firstChar (Char.ofNat (0xF0 + n / 0x40000)) (Char.ofNat (0x80 + n / 0x1000 % 0x40) ::
      Char.ofNat (0x80 + n / 0x40 % 0x40) :: Char.ofNat (0x80 + n % 0x40) :: rest) =
      (Char.ofNat n, 3) := by
  have hlead : Lead.ofByte? (0xF0 + n / 0x40000) =
      some ⟨3, if 0xF0 + n / 0x40000 = 0xF0 then 0x90 else 0x80,
        if 0xF0 + n / 0x40000 = 0xF4 then 0x8F else 0xBF, n / 0x40000⟩ := by
    unfold Lead.ofByte?
    rw [if_neg (by omega), if_neg (by omega), if_neg (by omega), if_pos (by omega),
      Nat.add_sub_cancel_left]
  -- no shorter form, and nothing above the last code point
  have hfrom : (if 0xF0 + n / 0x40000 = 0xF0 then 0x90 else 0x80) ≤
      0x80 + n / 0x1000 % 0x40 := by split <;> omega
  have hto : 0x80 + n / 0x1000 % 0x40 ≤
      if 0xF0 + n / 0x40000 = 0xF4 then 0x8F else 0xBF := by split <;> omega
  have hbits : ((n / 0x40000 * 0x40 + (0x80 + n / 0x1000 % 0x40 - 0x80)) * 0x40 +
      (0x80 + n / 0x40 % 0x40 - 0x80)) * 0x40 + (0x80 + n % 0x40 - 0x80) = n := by omega
  rw [firstChar_of_lead _ (by omega) hlead, continueChar_byte _ _ _ _ hfrom hto (by omega),
    continueChar_byte _ _ _ _ (by omega) (by omega) (by omega),
    continueChar_byte _ _ _ _ (by omega) (by omega) (by omega), hbits, continueChar]

/-- **The bytes of a character are read as that character**, whatever follows them. -/
theorem firstChar_charBytes (c : Char) :
    ∃ b more, (charBytes c).map Char.ofNat = b :: more ∧
      ∀ rest, firstChar b (more ++ rest) = (c, more.length) := by
  have hc := toNat_bounds c
  have hself : Char.ofNat c.toNat = c := Char.ofNat_toNat c
  unfold charBytes
  by_cases h1 : c.toNat < 0x80
  · refine ⟨c, [], ?_, fun rest => if_pos h1⟩
    rw [if_pos h1, List.map_singleton, hself]
  by_cases h2 : c.toNat < 0x800
  · refine ⟨_, _, by rw [if_neg h1, if_pos h2]; rfl, fun rest => ?_⟩
    exact (firstChar_of_two (by omega) h2 rest).trans (by rw [hself]; rfl)
  by_cases h3 : c.toNat < 0x10000
  · refine ⟨_, _, by rw [if_neg h1, if_neg h2, if_pos h3]; rfl, fun rest => ?_⟩
    exact (firstChar_of_three (by omega) h3 (by omega) rest).trans (by rw [hself]; rfl)
  · refine ⟨_, _, by rw [if_neg h1, if_neg h2, if_neg h3]; rfl, fun rest => ?_⟩
    exact (firstChar_of_four (by omega) (by omega) rest).trans (by rw [hself]; rfl)

/-! ## Reading a text -/

/-- The bytes of a text in front of others are read as its characters. -/
theorem decodeOnto_toBytes_append (found cs rest : List Char) :
    decodeOnto found (toBytes (String.ofList cs) ++ rest) =
      decodeOnto (cs.reverse ++ found) rest := by
  induction cs generalizing found with
  | nil => simp
  | cons c cs ih =>
    obtain ⟨b, more, hbytes, hfirst⟩ := firstChar_charBytes c
    rw [toBytes_ofList_cons, hbytes, List.cons_append, List.cons_append, List.append_assoc,
      decodeOnto, hfirst]
    show decodeOnto (c :: found) ((more ++ _).drop more.length) = _
    rw [List.drop_left, ih]
    simp

/-- **The bytes of a text are read as the text.** -/
@[simp] theorem ofBytes_toBytes (s : String) : ofBytes (toBytes s) = s := by
  have h := decodeOnto_toBytes_append [] s.toList []
  rw [String.ofList_toList, List.append_nil, List.append_nil, decodeOnto,
    List.reverse_reverse] at h
  rw [ofBytes, h, String.ofList_toList]

/-! ## Texts that are their own bytes -/

/-- A character has a byte, and more than one if it is no ASCII character. -/
theorem length_charBytes (c : Char) :
    1 ≤ (charBytes c).length ∧ (¬ c.toNat < 0x80 → 2 ≤ (charBytes c).length) := by
  unfold charBytes
  by_cases h : c.toNat < 0x80
  · simp [h]
  · simp only [if_neg h]
    split
    · simp
    split <;> simp

/-- A text has no more characters than bytes. -/
theorem length_le_length_toBytes (cs : List Char) :
    cs.length ≤ (toBytes (String.ofList cs)).length := by
  induction cs with
  | nil => exact Nat.zero_le _
  | cons c cs ih =>
    have hc := (length_charBytes c).1
    rw [toBytes_ofList_cons, List.length_append, List.length_map, List.length_cons]
    omega

/-- **A text is its own bytes exactly if it is ASCII.** -/
theorem toBytes_eq_toList_iff (s : String) :
    toBytes s = s.toList ↔ ∀ c ∈ s.toList, c.toNat < 0x80 := by
  constructor
  · intro h
    rw [← String.ofList_toList (s := s), String.toList_ofList] at h
    generalize s.toList = cs at h
    induction cs with
    | nil => exact nofun
    | cons c cs ih =>
      rw [toBytes_ofList_cons] at h
      by_cases hc : c.toNat < 0x80
      · rw [charBytes, if_pos hc] at h
        exact List.forall_mem_cons.2 ⟨hc, ih (List.cons.inj h).2⟩
      · -- a character of more bytes makes the text longer
        have hlength := congrArg List.length h
        rw [List.length_append, List.length_map, List.length_cons] at hlength
        have hlong := (length_charBytes c).2 hc
        have hrest := length_le_length_toBytes cs
        omega
  · intro h
    rw [← toBytes_ofList_of_ascii h, String.ofList_toList]

/-! ## Cutting a text -/

/-- An ASCII byte of a character is all of it. -/
theorem charBytes_of_mem_ascii {c d : Char} (hd : d.toNat < 0x80)
    (h : d ∈ (charBytes c).map Char.ofNat) : c = d := by
  have hc := toNat_bounds c
  obtain ⟨b, hb, rfl⟩ := List.mem_map.1 h
  unfold charBytes at hb
  by_cases h1 : c.toNat < 0x80
  · simp only [if_pos h1, List.mem_singleton] at hb
    rw [hb, Char.ofNat_toNat]
  · -- all other bytes are above the ASCII range
    have hlow : 0x80 ≤ b ∧ b < 0x100 := by
      simp only [if_neg h1] at hb
      split at hb
      · simp only [List.mem_cons, List.not_mem_nil, or_false] at hb
        omega
      split at hb
      · simp only [List.mem_cons, List.not_mem_nil, or_false] at hb
        omega
      · simp only [List.mem_cons, List.not_mem_nil, or_false] at hb
        omega
    rw [toNat_ofNat (by omega)] at hd
    omega

/-- **Bytes of a text are cut at an ASCII character where the text is.** -/
theorem exists_of_toBytes_eq_append_cons {cs front back : List Char} {d : Char}
    (hd : d.toNat < 0x80) (h : toBytes (String.ofList cs) = front ++ d :: back) :
    ∃ as bs, cs = as ++ d :: bs ∧ toBytes (String.ofList as) = front ∧
      toBytes (String.ofList bs) = back := by
  induction cs generalizing front with
  | nil => simp at h
  | cons c cs ih =>
    rw [toBytes_ofList_cons, List.append_eq_append_iff] at h
    -- a character that ends in front of the cut is in front of it
    have hbehind : ∀ more, front = (charBytes c).map Char.ofNat ++ more →
        toBytes (String.ofList cs) = more ++ d :: back →
          ∃ as bs, c :: cs = as ++ d :: bs ∧ toBytes (String.ofList as) = front ∧
            toBytes (String.ofList bs) = back := by
      intro more hfront hmore
      obtain ⟨as, bs, rfl, rfl, hback⟩ := ih hmore
      exact ⟨c :: as, bs, rfl, by rw [toBytes_ofList_cons, hfront], hback⟩
    rcases h with ⟨more, hfront, hmore⟩ | ⟨more, hbytes, hmore⟩
    · exact hbehind more hfront hmore
    · cases more with
      | nil =>
        have hfront : front = (charBytes c).map Char.ofNat ++ [] := by
          rw [hbytes, List.append_nil, List.append_nil]
        exact hbehind [] hfront hmore.symm
      | cons e more =>
        -- otherwise the cut is at one of its bytes
        obtain ⟨rfl, rfl⟩ : d = e ∧ back = more ++ toBytes (String.ofList cs) := by
          simpa using hmore
        have hmem : d ∈ (charBytes c).map Char.ofNat := by rw [hbytes]; simp
        obtain rfl := charBytes_of_mem_ascii hd hmem
        have hone : (charBytes c).map Char.ofNat = [c] := by
          rw [charBytes, if_pos hd, List.map_singleton, Char.ofNat_toNat]
        rw [hone] at hbytes
        obtain ⟨rfl, rfl⟩ : front = [] ∧ more = [] := by
          cases front with
          | nil => simpa using hbytes
          | cons => simp at hbytes
        exact ⟨[], cs, rfl, toBytes_empty, rfl⟩

/-- ASCII characters in front of other bytes of a text are in front of it. -/
theorem exists_of_toBytes_eq_ascii_append {cs ascii back : List Char}
    (hascii : ∀ d ∈ ascii, d.toNat < 0x80) (h : toBytes (String.ofList cs) = ascii ++ back) :
    ∃ bs, cs = ascii ++ bs ∧ toBytes (String.ofList bs) = back := by
  induction ascii generalizing cs with
  | nil => exact ⟨cs, rfl, h⟩
  | cons d ascii ih =>
    rw [List.forall_mem_cons] at hascii
    -- nothing is in front of the first one
    rw [← List.nil_append (d :: ascii ++ back), List.cons_append] at h
    obtain ⟨as, rest, rfl, hnone, hrest⟩ := exists_of_toBytes_eq_append_cons hascii.1 h
    have hlength := length_le_length_toBytes as
    rw [hnone] at hlength
    obtain rfl : as = [] := List.length_eq_zero_iff.1 (Nat.le_zero.1 hlength)
    obtain ⟨bs, rfl, hback⟩ := ih hascii.2 hrest
    exact ⟨bs, rfl, hback⟩

/-- **Bytes of a text are cut at both ends of ASCII characters where the text is.** -/
theorem exists_of_toBytes_eq_append {cs front ascii back : List Char} (hne : ascii ≠ [])
    (hascii : ∀ d ∈ ascii, d.toNat < 0x80)
    (h : toBytes (String.ofList cs) = front ++ (ascii ++ back)) :
    ∃ as bs, cs = as ++ (ascii ++ bs) ∧ toBytes (String.ofList as) = front ∧
      toBytes (String.ofList bs) = back := by
  obtain ⟨d, ascii, rfl⟩ := List.exists_cons_of_ne_nil hne
  rw [List.forall_mem_cons] at hascii
  obtain ⟨as, rest, rfl, hfront, hrest⟩ := exists_of_toBytes_eq_append_cons hascii.1 h
  obtain ⟨bs, rfl, hback⟩ := exists_of_toBytes_eq_ascii_append hascii.2 hrest
  exact ⟨as, bs, rfl, hfront, hback⟩

end Lox.Text
