import Mathlib.Order.Bounds.Basic
import Lox.Proofs.Grammar.Calls

/-! # Where reading resumes

Behind an error the cursor moves to the nearest boundary of statements that is further on, and to no
other: recovery passes one token whatever it is, and then as many as it takes for the pair of the
token just passed and the next one to be a boundary. At the end token it stays.

* **`BoundaryAt`** — the places where a statement may start, or the tokens end;
* **`Recovery.landing?_eq_some_iff`** — the tokens passed are those up to the first such place;
* **`Cursor.Lands`** — where recovery from a place has to end;
* **`Cursor.Seeks`**, **`Cursor.seeks_of_landing?`** — the same, token by token, with the state of
  recovery looking at each pair of them;
* **`Cursor.exists_resumes`** — recovery from any place ends there;
* **`Cursor.lands_on_next_boundary`** — and so does the reading of a program that is rejected. -/

namespace Lox

/-! ## Boundaries -/

/-- A boundary of statements: the end token or a token that opens a statement is at the place, or a
semicolon is right in front of it. -/
def BoundaryAt (ts : List Token) (i : Nat) : Prop :=
  ∃ t, ts[i]? = some t ∧ (t.kind = .endOfInput ∨ t.kind.startsStatement = true ∨
    ∃ j p, i = j + 1 ∧ ts[j]? = some p ∧ p.kind = .semicolon)

/-- The first boundary behind a token is between that token and the next one, or behind the next
one. -/
theorem boundaryAt_one_iff {p t : Token} {ts : List Token} :
    BoundaryAt (p :: t :: ts) 1 ↔ Recovery.isBoundary p.kind t.kind = true := by
  simp only [BoundaryAt, Recovery.isBoundary, Bool.or_eq_true, decide_eq_true_eq]
  constructor
  · rintro ⟨t', ht, hcases⟩
    cases ht
    rcases hcases with hend | hstarts | ⟨j, p', hj, hp, hsemicolon⟩
    · exact .inl (.inl hend)
    · exact .inr hstarts
    · obtain rfl : j = 0 := by omega
      cases hp
      exact .inl (.inr hsemicolon)
  · rintro ((hend | hsemicolon) | hstarts)
    · exact ⟨t, rfl, .inl hend⟩
    · exact ⟨t, rfl, .inr (.inr ⟨0, p, rfl, rfl, hsemicolon⟩)⟩
    · exact ⟨t, rfl, .inr (.inl hstarts)⟩

/-- Further on a boundary does not look at the first token. -/
theorem boundaryAt_cons_iff {p : Token} {ts : List Token} {i : Nat} :
    BoundaryAt (p :: ts) (i + 2) ↔ BoundaryAt ts (i + 1) := by
  unfold BoundaryAt
  constructor
  · rintro ⟨t, ht, hcases⟩
    refine ⟨t, ht, hcases.imp_right (Or.imp_right ?_)⟩
    rintro ⟨j, q, hj, hq, hsemicolon⟩
    obtain rfl : j = i + 1 := by omega
    exact ⟨i, q, rfl, hq, hsemicolon⟩
  · rintro ⟨t, ht, hcases⟩
    refine ⟨t, ht, hcases.imp_right (Or.imp_right ?_)⟩
    rintro ⟨j, q, hj, hq, hsemicolon⟩
    obtain rfl : j = i := by omega
    exact ⟨j + 1, q, rfl, hq, hsemicolon⟩

/-- A boundary behind some tokens is one of what follows them. -/
theorem boundaryAt_drop_iff {ts : List Token} {n i : Nat} :
    BoundaryAt (ts.drop n) (i + 1) ↔ BoundaryAt ts (n + i + 1) := by
  induction n generalizing ts with
  | zero => simp
  | succ n ih =>
    cases ts with
    | nil => simp [BoundaryAt]
    | cons p ts =>
      have hplace : n + 1 + i + 1 = n + i + 2 := by omega
      rw [List.drop_succ_cons, ih, hplace, boundaryAt_cons_iff]

/-- **The tokens passed are those up to the first boundary.** -/
theorem Recovery.landing?_eq_some_iff {p : Token} {ts : List Token} {n : Nat} :
    landing? p ts = some n ↔ IsLeast { i | BoundaryAt (p :: ts) (i + 1) } n := by
  induction ts generalizing p n with
  | nil =>
    -- behind the last token there is no place
    constructor
    · intro h
      cases h
    · rintro ⟨⟨t, ht, -⟩, -⟩
      cases ht
  | cons t ts ih =>
    by_cases hboundary : isBoundary p.kind t.kind = true
    · have hzero : IsLeast { i | BoundaryAt (p :: t :: ts) (i + 1) } 0 :=
        ⟨boundaryAt_one_iff.2 hboundary, fun i _ => Nat.zero_le i⟩
      rw [landing?, if_pos hboundary, Option.some.injEq]
      constructor
      · rintro rfl
        exact hzero
      · intro h
        exact hzero.unique h
    · rw [landing?, if_neg hboundary, Option.map_eq_some_iff]
      constructor
      · rintro ⟨m, hm, rfl⟩
        obtain ⟨hmem, hleast⟩ := ih.1 hm
        refine ⟨boundaryAt_cons_iff.2 hmem, fun i hi => ?_⟩
        cases i with
        | zero => exact absurd (boundaryAt_one_iff.1 hi) hboundary
        | succ i => exact Nat.succ_le_succ (hleast (boundaryAt_cons_iff.1 hi))
      · rintro ⟨hmem, hleast⟩
        cases n with
        | zero => exact absurd (boundaryAt_one_iff.1 hmem) hboundary
        | succ m =>
          refine ⟨m, ih.2 ⟨boundaryAt_cons_iff.1 hmem, fun i hi => ?_⟩, rfl⟩
          exact Nat.le_of_succ_le_succ (hleast (boundaryAt_cons_iff.2 hi))

namespace Cursor

/-- **Where recovery from a place has to end**: at that place if the end token is there, and else at
the first boundary further on. -/
inductive Lands (ts : List Token) (i : Nat) : Nat → Prop
  | stays {t : Token} (ht : ts[i]? = some t) (hkind : t.kind = .endOfInput) : Lands ts i i
  | moves {t : Token} {j : Nat} (ht : ts[i]? = some t) (hkind : t.kind ≠ .endOfInput)
      (hj : IsLeast { j | i < j ∧ BoundaryAt ts j } j) : Lands ts i j

variable {c c' : Cursor}

/-! ## Token by token -/

/-- Shows the recovery the token just passed and the next one. -/
def observe (c : Cursor) : Cursor :=
  match c.previous?, c.rest.head? with
  | some p, some t => { c with recovery := c.recovery.step p.kind t.kind }
  | _, _ => c

/-- **Seeking a boundary**: the cursor passes tokens until the recovery it shows them to has
resumed. -/
inductive Seeks : Cursor → Cursor → Prop
  | found {c : Cursor} (h : c.observe.recovery = .resumed) : Seeks c c.observe
  | pass {c mid c' : Cursor} {t : Token} (h : c.observe.recovery = .seeking)
      (hpass : advance c.observe = .ok t mid) (hseeks : Seeks mid c') : Seeks c c'

/-- What the recovery looks at, with a token in front of the cursor and one behind it. -/
theorem observe_of_seeking {p t : Token} {more : List Token} (hseeking : c.recovery = .seeking)
    (hprevious : c.previous? = some p) (hrest : c.rest = t :: more) :
    c.observe = { c with
      recovery := if Recovery.isBoundary p.kind t.kind then .resumed else .seeking } := by
  simp only [observe, hprevious, hrest, List.head?_cons, hseeking, Recovery.step]

/-- The next token is the one at the place of the cursor. -/
theorem getElem?_position {t : Token} {more : List Token} (hrest : c.rest = t :: more) :
    c.tokens[c.position]? = some t := by
  rw [← List.head?_drop]
  exact congrArg List.head? hrest

/-- Behind a token the cursor has just passed it. -/
theorem previous?_succ {t : Token} {more : List Token} (hrest : c.rest = t :: more) :
    ({ c with position := c.position + 1 } : Cursor).previous? = some t := by
  simpa [previous?] using getElem?_position hrest

/-- Behind a token the tokens that follow it are left. -/
theorem rest_succ {t : Token} {more : List Token} (hrest : c.rest = t :: more) :
    ({ c with position := c.position + 1 } : Cursor).rest = more := by
  show c.tokens.drop (c.position + 1) = more
  rw [← List.tail_drop]
  exact congrArg List.tail hrest

/-- **Seeking ends behind the tokens passed up to the first boundary.** -/
theorem seeks_of_landing? {p : Token} {n : Nat} (hseeking : c.recovery = .seeking)
    (hprevious : c.previous? = some p) (hn : Recovery.landing? p c.rest = some n) :
    Seeks c { c with position := c.position + n, recovery := .resumed } := by
  generalize hrest : c.rest = ts at hn
  induction ts generalizing c p n with
  | nil => cases hn
  | cons t more ih =>
    have hobserve := observe_of_seeking hseeking hprevious hrest
    rw [Recovery.landing?] at hn
    by_cases hboundary : Recovery.isBoundary p.kind t.kind = true
    · rw [if_pos hboundary] at hn hobserve
      cases hn
      have hfound : Seeks c c.observe := .found (by rw [hobserve])
      rwa [hobserve] at hfound
    · rw [if_neg hboundary] at hn hobserve
      obtain ⟨m, hm, rfl⟩ := Option.map_eq_some_iff.1 hn
      -- the end token is a boundary, so the next token can be passed
      have hkind : t.kind ≠ .endOfInput := by
        intro heof
        simp [Recovery.isBoundary, heof] at hboundary
      have hsame : c.observe = c := by
        rw [hobserve, ← hseeking]
      have hpass : advance c = .ok t { c with position := c.position + 1 } := by
        simp only [advance, hrest, if_neg hkind]
      have hseeks := ih (c := { c with position := c.position + 1 }) hseeking
        (previous?_succ hrest) (rest_succ hrest) hm
      have hplace : c.position + (m + 1) = c.position + 1 + m := by omega
      rw [hplace]
      refine .pass (t := t) ?_ ?_ hseeks
      · rw [hsame, hseeking]
      · rw [hsame, hpass]

/-! ## Recovery -/

/-- **Recovery has led from one cursor to another**: it entered its seeking state, passed one token
unless the end was next, and sought a boundary from there. It has resumed where it has to end, with
nothing reported. -/
structure Resumes (c c' : Cursor) : Prop where
  tokens_eq : c'.tokens = c.tokens
  ledger_eq : c'.ledger = c.ledger
  recovery_eq : c'.recovery = .resumed
  lands : Lands c.tokens c.position c'.position
  stepwise : ∃ t mid, advance { c with recovery := .seeking } = .ok t mid ∧ Seeks mid c'

/-- At the end token recovery stays. -/
theorem resumes_of_end (h : c.OnTrack) {t : Token} {more : List Token} (hrest : c.rest = t :: more)
    (hkind : t.kind = .endOfInput) : Resumes c { c with recovery := .resumed } where
  tokens_eq := rfl
  ledger_eq := rfl
  recovery_eq := rfl
  lands := .stays (getElem?_position hrest) hkind
  stepwise := by
    obtain ⟨p, hp⟩ := exists_previous?_eq h
    let seeking : Cursor := { c with recovery := .seeking }
    have hadvance : advance seeking = .ok p seeking := by
      simp only [seeking, advance, previous, show seeking.rest = t :: more from hrest, if_pos hkind,
        show seeking.previous? = some p from hp]
    have hlanding : Recovery.landing? p seeking.rest = some 0 := by
      rw [show seeking.rest = t :: more from hrest, Recovery.landing?, Recovery.isBoundary]
      simp [hkind]
    exact ⟨p, seeking, hadvance, seeks_of_landing? (c := seeking) rfl hp hlanding⟩

/-- From any other token recovery moves on to the first boundary. -/
theorem resumes_of_landing? {t : Token} {more : List Token} {n : Nat} (hrest : c.rest = t :: more)
    (hkind : t.kind ≠ .endOfInput) (hn : Recovery.landing? t more = some n) :
    Resumes c { c with position := c.position + 1 + n, recovery := .resumed } where
  tokens_eq := rfl
  ledger_eq := rfl
  recovery_eq := rfl
  lands := by
    obtain ⟨hmem, hleast⟩ := Recovery.landing?_eq_some_iff.1 hn
    rw [← hrest] at hmem hleast
    refine .moves (getElem?_position hrest) hkind ⟨⟨?_, ?_⟩, ?_⟩
    · show c.position < c.position + 1 + n
      omega
    · have hboundary := boundaryAt_drop_iff.1 hmem
      rwa [Nat.add_right_comm] at hboundary
    · rintro j ⟨hlt, hj⟩
      obtain ⟨i, rfl⟩ : ∃ i, j = c.position + i + 1 := ⟨j - c.position - 1, by omega⟩
      have hle : n ≤ i := hleast (boundaryAt_drop_iff.2 hj)
      show c.position + 1 + n ≤ c.position + i + 1
      omega
  stepwise := by
    let mid : Cursor := { c with position := c.position + 1, recovery := .seeking }
    have hadvance : advance { c with recovery := .seeking } = .ok t mid := by
      simp only [advance, show ({ c with recovery := .seeking } : Cursor).rest = t :: more from
        hrest, if_neg hkind]
      rfl
    have hmore : mid.rest = more := rest_succ hrest
    exact ⟨t, mid, hadvance, seeks_of_landing? rfl (previous?_succ hrest) (hmore.symm ▸ hn)⟩

/-- **Recovery from any place ends where it has to.** -/
theorem exists_resumes (h : c.OnTrack) : ∃ c', resume c = .ok () c' ∧ Resumes c c' := by
  obtain ⟨t, more, hrest⟩ := h.ended_rest.exists_cons
  unfold resume
  rw [hrest]
  by_cases hkind : t.kind = .endOfInput
  · simp only [if_pos hkind]
    exact ⟨_, rfl, resumes_of_end h hrest hkind⟩
  · have hmore : Ended (t :: more) := hrest ▸ h.ended_rest
    obtain ⟨n, hn⟩ := Recovery.exists_landing?_eq (hmore.of_cons hkind) t
    simp only [if_neg hkind, hn]
    exact ⟨_, rfl, resumes_of_landing? hrest hkind hn⟩

/-- A cursor that is not behind the only end token of its tokens is on track. -/
theorem onTrack_of_position_le {ts : List Token} {eof : Token} (heof : eof.kind = .endOfInput)
    (hts : ∀ t ∈ ts, t.kind ≠ .endOfInput) (htokens : c.tokens = ts ++ [eof])
    (hposition : c.position ≤ ts.length) : c.OnTrack where
  ended := ⟨eof, by simp [htokens], heof⟩
  position_le := by
    rw [htokens, List.length_append]
    omega
  passes := by
    refine ⟨c.tokens.take c.position, List.take_append_drop _ _, fun t ht => hts t ?_⟩
    rw [htokens, List.take_append_of_le_length hposition] at ht
    exact List.mem_of_mem_take ht

/-- A program that is rejected is reported, and recovery starts from where it was rejected. -/
theorem exists_readProgram_resumes (h : c.OnTrack) {rejection : Rejection} {stopped : Cursor}
    (hrun : run Grammar.program c = .error rejection stopped) :
    ∃ e c', rejection = .error e ∧ stopped.ledger = c.ledger ∧ readProgram c = .ok none c' ∧
      Resumes (stopped.report e) c' := by
  have hadvances : Advances 0 c (run Grammar.program c) :=
    advances_run h (Grammar.settles_program _ _ h.ended_rest (Nat.le_refl _))
  rw [hrun] at hadvances
  cases rejection with
  | endOfTokens => exact hadvances.elim
  | error e =>
    obtain ⟨htokens, htrack, -⟩ := hadvances
    have hledger : stopped.ledger = c.ledger := by
      unfold run at hrun
      split at hrun <;> cases hrun
      rfl
    have hreported : (stopped.report e).OnTrack :=
      ⟨htrack.ended, htrack.position_le, htrack.passes⟩
    obtain ⟨c', hresume, hresumes⟩ := exists_resumes hreported
    refine ⟨e, c', rfl, hledger, ?_, hresumes⟩
    unfold readProgram
    simp only [hrun]
    exact bind_eq_of_eq_ok hresume _

/-- **Reading resumes at the next boundary, and reports once.** In tokens with one end token, behind
all others, recovery ends from every place that is not behind them, whatever state it was in. A
program that is rejected is reported with the one error it is rejected with, there is no result, and
the cursor is where recovery from the place of the rejection ends. -/
theorem lands_on_next_boundary {ts : List Token} (eof : Surface.Mark .endOfInput)
    (hts : ∀ t ∈ ts, t.kind ≠ .endOfInput) (htokens : c.tokens = ts ++ [eof.token])
    (hposition : c.position ≤ ts.length) :
    (∃ c', resume c = .ok () c' ∧ Resumes c c') ∧
      ∀ rejection stopped, run Grammar.program c = .error rejection stopped →
        ∃ e c', rejection = .error e ∧ readProgram c = .ok none c' ∧
          c'.tokens = c.tokens ∧ c'.recovery = .resumed ∧
          c'.ledger = c.ledger.rejected e ∧
          c'.ledger.messages = c.ledger.messages.push e.render ∧
          Lands c.tokens stopped.position c'.position := by
  have htrack := onTrack_of_position_le eof.kind_token hts htokens hposition
  refine ⟨exists_resumes htrack, fun rejection stopped hrun => ?_⟩
  obtain ⟨e, c', hrejection, hledger, hread, hresumes⟩ := exists_readProgram_resumes htrack hrun
  have hsame : stopped.tokens = c.tokens := by
    unfold run at hrun
    split at hrun <;> cases hrun
    rfl
  have hreport : c'.ledger = c.ledger.rejected e := by
    rw [hresumes.ledger_eq, report, hledger]
  refine ⟨e, c', hrejection, hread, hresumes.tokens_eq.trans hsame, hresumes.recovery_eq, hreport,
    ?_, hsame ▸ hresumes.lands⟩
  rw [hreport, Ledger.messages_rejected]

/-- A closing parenthesis starts no statement. From there the tokens up to the semicolon are passed,
and the boundary behind it is the nearest one. -/
theorem lands_on_next_boundary_behind_semicolon :
    let parenthesis : Token := ⟨.rightParen, ")", none, 1⟩
    let ts : List Token := [parenthesis, ⟨.leftParen, "(", none, 1⟩, ⟨.semicolon, ";", none, 1⟩,
      ⟨.keyword .nilWord, "nil", none, 1⟩]
    let eof : Surface.Mark .endOfInput := .ofKind (t := ⟨.endOfInput, "", none, 1⟩) rfl
    let c : Cursor := { tokens := ts ++ [eof.token] }
    let e : SyntaxError := ⟨parenthesis, .missingExpression⟩
    (∀ t ∈ ts, t.kind ≠ .endOfInput) ∧ c.tokens = ts ++ [eof.token] ∧ c.position ≤ ts.length ∧
      run Grammar.program c = .error (.error e) c ∧
      ∃ c', readProgram c = .ok none c' ∧ c'.recovery = .resumed ∧
        c'.ledger.messages = #[e.render] ∧ Lands c.tokens 0 c'.position ∧ c'.position = 3 := by
  intro parenthesis ts eof c e
  have hts : ∀ t ∈ ts, t.kind ≠ .endOfInput := by decide
  have hrun : run Grammar.program c = .error (.error e) c := rfl
  obtain ⟨-, hreads⟩ := lands_on_next_boundary eof hts (c := c) rfl (Nat.zero_le _)
  obtain ⟨e', c', he, hread, -, hrecovery, -, hmessages, hlands⟩ := hreads _ _ hrun
  cases he
  refine ⟨hts, rfl, Nat.zero_le _, hrun, c', hread, hrecovery, hmessages, hlands, ?_⟩
  -- reading these tokens gives one cursor, and that one stands behind the semicolon
  have hplace : readProgram c = .ok none
      { c with position := 3, ledger := ({} : Ledger).rejected e } := rfl
  rw [hread] at hplace
  injection hplace with _ hcursor
  rw [hcursor]

end Cursor

end Lox
