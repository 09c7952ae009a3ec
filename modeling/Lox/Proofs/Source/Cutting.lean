import Lox.Proofs.Source.Tokens

/-! # Cutting a source between two pieces

A piece is measured by the characters in front of its end and a look at what follows. Cut off
between two of its pieces, a source has the pieces in front of the cut, as long as no string among
them is unterminated; what is behind the cut, on its own, has the others.

* **`Piece.measure_append`** — a first piece that ends in front of the cut is the same without what
  is behind it;
* **`pieces_flatten_append`** — the pieces of both parts;
* **`exists_pieces_of_tokensOf`** — every token of a source ends a piece at which it can be cut. -/

namespace Lox

/-! ## Runs of characters -/

/-- A run that ends in front of the cut ends there without what is behind it. -/
theorem takeWhile_append_of_length_le {α : Type} {p : α → Bool} {front back : List α}
    (h : ((front ++ back).takeWhile p).length ≤ front.length) :
    (front ++ back).takeWhile p = front.takeWhile p := by
  rw [List.takeWhile_append] at h ⊢
  split at h
  · next hall =>
    have hfront : front.takeWhile p = front :=
      (List.takeWhile_prefix p).eq_of_length hall
    rw [List.length_append] at h
    have hback : back.takeWhile p = [] := List.length_eq_zero_iff.1 (by omega)
    rw [if_pos hall, hback, hfront, List.append_nil]
  · next hall => rw [if_neg hall]

namespace Piece

variable {front back : List Char}

/-- A word that ends in front of the cut. -/
theorem wordLength_append (h : wordLength (front ++ back) ≤ front.length) :
    wordLength front = wordLength (front ++ back) := by
  unfold wordLength at h ⊢
  rw [takeWhile_append_of_length_le h]

/-- A comment that ends in front of the cut. -/
theorem commentLength_append (h : commentLength (front ++ back) ≤ front.length) :
    commentLength front = commentLength (front ++ back) := by
  unfold commentLength at h ⊢
  rw [takeWhile_append_of_length_le h]

/-- A string that ends in front of the cut. -/
theorem stringLength?_append {n : Nat} (h : stringLength? (front ++ back) = some n)
    (hn : n ≤ front.length) : stringLength? front = some n := by
  unfold stringLength? at h ⊢
  simp only at h ⊢
  split at h
  · cases h
    have hbody : (front ++ back).takeWhile (· ≠ '"') = front.takeWhile (· ≠ '"') :=
      takeWhile_append_of_length_le (Nat.le_of_succ_le hn)
    rw [hbody] at hn ⊢
    exact if_pos hn
  · cases h

/-- A fraction that ends in front of the cut. -/
theorem fractionLength_append (h : fractionLength (front ++ back) ≤ front.length) :
    fractionLength front = fractionLength (front ++ back) := by
  cases front with
  | nil => exact (Nat.le_zero.1 h).symm
  | cons p front =>
    by_cases hp : p = '.'
    · subst hp
      cases front with
      -- the cut is behind the point: a digit behind it would belong to the fraction
      | nil =>
        cases back with
        | nil => rfl
        | cons d more =>
          by_cases hd : isDigit d = true
          · simp only [List.cons_append, List.nil_append, fractionLength, hd, if_true,
              List.takeWhile_cons_of_pos, List.length_cons, List.length_nil] at h
            omega
          · simp [fractionLength, hd]
      | cons d front =>
        by_cases hd : isDigit d = true
        · simp only [List.cons_append, fractionLength, hd, if_true, List.length_cons] at h ⊢
          have hlen : ((d :: front ++ back).takeWhile isDigit).length ≤ (d :: front).length := by
            rw [List.cons_append, List.length_cons]
            omega
          rw [← List.cons_append, takeWhile_append_of_length_le hlen]
        · simp [fractionLength, hd]
    · simp [fractionLength, hp]

/-- A number that ends in front of the cut. -/
theorem numberLength_append_of_le (h : numberLength (front ++ back) ≤ front.length) :
    numberLength front = numberLength (front ++ back) := by
  have hsplit := List.takeWhile_append_dropWhile (p := isDigit) (l := front ++ back)
  have hds := allDigits_takeWhile (front ++ back)
  have htail := isDigit_head?_dropWhile (front ++ back)
  generalize (front ++ back).takeWhile isDigit = ds at hsplit hds
  generalize (front ++ back).dropWhile isDigit = tail at hsplit htail
  rw [← hsplit, numberLength_append hds htail] at h
  -- the digits end in front of the cut, so the cut is in what follows them
  obtain ⟨front', rfl, rfl⟩ : ∃ front', front = ds ++ front' ∧ tail = front' ++ back := by
    rcases List.append_eq_append_iff.1 hsplit with ⟨mid, hfront, htail'⟩ | ⟨mid, hds', hback⟩
    · exact ⟨mid, hfront, htail'⟩
    · have hnil : mid = [] := by
        rw [hds', List.length_append] at h
        exact List.length_eq_zero_iff.1 (by omega)
      subst hnil
      exact ⟨[], by simpa using hds'.symm, by simpa using hback.symm⟩
  have hfraction : fractionLength (front' ++ back) ≤ front'.length := by
    rw [List.length_append] at h
    omega
  have htail' : ∀ c ∈ front'.head?, isDigit c = false := by
    cases front' with
    | nil => simp
    | cons c front' => exact htail
  rw [List.append_assoc, numberLength_append hds htail', numberLength_append hds htail,
    fractionLength_append hfraction]

/-! ## The first piece -/

/-- **The first piece is the same without what is behind its end**, unless it is a string that is
never closed. -/
theorem measure_append {c : Char} {kind : PieceKind} {n : Nat}
    (h : measure c (front ++ back) = (kind, n)) (hn : n ≤ front.length)
    (hkind : kind ≠ .unterminated) : measure c front = (kind, n) := by
  rw [measure_eq] at h ⊢
  -- which form the piece has is known from its first character, which stays
  generalize head c = form at h ⊢
  cases form with
  | single kind' =>
    exact h
  | growing withEqual alone =>
    simp only [Head.measure] at h ⊢
    cases front with
    | nil =>
      -- nothing is taken, so no equals sign was
      split at h
      · cases h
        cases hn
      · exact h
    | cons d front => exact h
  | slash =>
    simp only [Head.measure] at h ⊢
    cases front with
    | nil =>
      split at h
      · cases h
        cases hn
      · exact h
    | cons d front =>
      rw [List.cons_append, List.head?_cons, List.tail_cons] at h
      rw [List.head?_cons, List.tail_cons]
      split at h
      · next hslash =>
        cases h
        rw [if_pos hslash, commentLength_append (Nat.le_of_succ_le_succ hn)]
      · next hslash =>
        rw [if_neg hslash]
        exact h
  | blank =>
    exact h
  | quote =>
    simp only [Head.measure] at h ⊢
    split at h
    · next m hm =>
      cases h
      rw [stringLength?_append hm hn]
    · cases h
      exact absurd rfl hkind
  | digit =>
    cases h
    rw [Head.measure, numberLength_append_of_le hn]
  | letter =>
    cases h
    rw [Head.measure, wordLength_append hn]
  | other =>
    exact h

end Piece

/-- The first piece and what follows it are the same without what is behind the cut. -/
theorem Piece.cut_append {c : Char} {front back tail : List Char}
    (htail : (cut c (front ++ back)).2 = tail ++ back)
    (hkind : (cut c (front ++ back)).1.kind ≠ .unterminated) :
    cut c front = ((cut c (front ++ back)).1, tail) := by
  cases hmeasure : measure c (front ++ back) with
  | mk kind n =>
    simp only [cut, hmeasure] at htail hkind ⊢
    by_cases hn : n ≤ front.length
    · rw [measure_append hmeasure hn hkind]
      rw [List.drop_append_of_le_length hn] at htail
      rw [List.take_append_of_le_length hn, List.append_cancel_right htail]
    · -- the piece takes all characters, so nothing is behind the cut
      have hback : back = [] := by
        have hlen := congrArg List.length htail
        rw [List.length_drop, List.length_append, List.length_append] at hlen
        exact List.length_eq_zero_iff.1 (by omega)
      subst hback
      rw [List.append_nil] at hmeasure htail ⊢
      rw [List.append_nil] at htail
      rw [hmeasure, htail]

/-! ## All pieces -/

/-- No string is left open if none is reported to be. -/
theorem kind_ne_unterminated {line : Nat} {ps : List Piece}
    (h : ∀ e ∈ errorsOf line ps, e.kind ≠ .unterminatedString) :
    ∀ p ∈ ps, p.kind ≠ .unterminated := by
  induction ps generalizing line with
  | nil => exact nofun
  | cons p ps ih =>
    rw [errorsOf, List.forall_mem_append] at h
    intro q hq hkind
    rcases List.mem_cons.1 hq with rfl | hq
    · rw [Piece.error?, hkind] at h
      exact h.1 _ (List.mem_singleton_self _) rfl
    · exact ih h.2 q hq hkind

/-- **Cut between two of its pieces, a source has the pieces of both parts**, as long as no string
in front of the cut is never closed. -/
theorem pieces_flatten_append {ps qs : List Piece} {back : List Char}
    (hps : ∀ p ∈ ps, p.kind ≠ .unterminated) :
    pieces ((ps.map Piece.text).flatten ++ back) = ps ++ qs →
      pieces (ps.map Piece.text).flatten = ps ∧ pieces back = qs := by
  induction ps with
  | nil => exact fun h => ⟨pieces_nil, h⟩
  | cons p ps ih =>
    intro h
    rw [List.map_cons, List.flatten_cons, List.append_assoc] at h
    cases hsource : p.text ++ ((ps.map Piece.text).flatten ++ back) with
    | nil =>
      rw [hsource, pieces_nil] at h
      cases h
    | cons c rest =>
      rw [hsource, pieces_cons, List.cons_append, List.cons.injEq] at h
      obtain ⟨rfl, hbehind⟩ := h
      have htext := Piece.text_append_rest c rest
      have hrest : (Piece.cut c rest).2 = (ps.map Piece.text).flatten ++ back :=
        List.append_cancel_left (htext.trans hsource.symm)
      rw [hrest] at hbehind
      -- the others are found behind the first one
      obtain ⟨hfront, hback⟩ := ih (fun q hq => hps q (List.mem_cons_of_mem _ hq)) hbehind
      refine ⟨?_, hback⟩
      -- the first piece lies in front of the cut
      let front := (Piece.cut c rest).1.text.tail ++ (ps.map Piece.text).flatten
      have hsplit : rest = front ++ back := by
        have hcons : (Piece.cut c rest).1.text = c :: (Piece.cut c rest).1.text.tail := rfl
        rw [hcons, List.cons_append, List.cons.injEq] at hsource
        rw [← hsource.2, List.append_assoc]
      have hcut : Piece.cut c front = ((Piece.cut c rest).1, (ps.map Piece.text).flatten) := by
        have hkind := hps _ List.mem_cons_self
        rw [hsplit] at hrest hkind ⊢
        exact Piece.cut_append hrest hkind
      show pieces (c :: front) = _
      rw [pieces_cons, hcut, hfront]

/-! ## Tokens and cuts -/

/-- **Every token of a source ends a piece**: where the tokens of some pieces are divided, the
pieces can be. -/
theorem exists_pieces_of_tokensOf {line : Nat} {ps : List Piece} {front back : List Token}
    (h : tokensOf line ps = front ++ back) :
    ∃ ps₁ ps₂, ps = ps₁ ++ ps₂ ∧ tokensOf line ps₁ = front := by
  induction ps generalizing line front with
  | nil =>
    obtain ⟨rfl, -⟩ := List.append_eq_nil_iff.1 h.symm
    exact ⟨[], [], rfl, rfl⟩
  | cons p ps ih =>
    cases front with
    | nil => exact ⟨[], p :: ps, rfl, rfl⟩
    | cons t front =>
      rw [tokensOf] at h
      cases htoken : p.token? (line + p.lines) with
      -- a piece without a token goes with the next one that has one
      | none =>
        rw [htoken] at h
        obtain ⟨ps₁, ps₂, rfl, htokens⟩ := ih h
        exact ⟨p :: ps₁, ps₂, rfl, by rw [tokensOf, htoken, htokens]; rfl⟩
      | some t' =>
        rw [htoken, Option.toList_some, List.singleton_append, List.cons_append,
          List.cons.injEq] at h
        obtain ⟨rfl, hrest⟩ := h
        obtain ⟨ps₁, ps₂, rfl, htokens⟩ := ih hrest
        exact ⟨p :: ps₁, ps₂, rfl, by rw [tokensOf, htoken, htokens]; rfl⟩

end Lox
