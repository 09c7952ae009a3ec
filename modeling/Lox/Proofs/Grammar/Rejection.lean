import Lox.Proofs.Grammar.Reading
import Lox.Proofs.Grammar.Viability

/-! # Where programs are rejected

A program that is rejected is rejected at the first token that makes it hopeless: what stands in
front of that token begins some program, and with that token it begins none. Whatever stands behind
it, and whatever the lines are, the same token is blamed for the same reason.

* **`Grammar.exists_of_program_eq_error`** — what a rejected program has passed, and what it would
  answer with other tokens behind;
* **`Cursor.readProgram_blames`** — an error blames the first hopeless token;
* **`Grammar.statements?_moved`**, **`Grammar.syntaxError?_moved`** — programs on other lines are
  read as the same statements or rejected at the same token. -/

namespace Lox

open Surface

namespace Grammar

/-- **What a rejected program has passed** begins declarations. With any other tokens behind the one
it blames, and on other lines, it is rejected at the same token for the same reason. -/
theorem exists_of_program_eq_error {n : Nat} {ts rest : List Token} {e : SyntaxError}
    (hts : ts.length ≤ n) (h : program n ts = .error (.error e) rest) :
    ∃ front back, ts = front ++ e.token :: back ∧ rest = e.left back ∧
      Declaration.AllViable front ∧ ∀ (f : Int → Int) (n' : Nat) (back' : List Token),
        (front ++ e.token :: back').length ≤ n' →
          program n' ((front ++ [e.token]).map (Token.moved f) ++ back') =
            .error (.error (e.moved f)) ((e.moved f).left back') := by
  have hsplit : ∀ (f : Int → Int) (n' : Nat) (seen back back' : List Token), ts = seen ++ back →
      seen.length + back'.length ≤ n' → ∃ front left, ts = front ++ e.token :: left ∧
        rest = e.left left ∧ Declaration.AllViable front ∧ ∀ more, left = more ++ back →
          program n' (seen.map (Token.moved f) ++ back') = .error (.error (e.moved f))
            ((e.moved f).left (more.map (Token.moved f) ++ back')) := by
    rintro f n' seen back back' rfl hlen
    have hagree := follows_program (f := f) n n' seen back back' hts hlen
    rw [h] at hagree
    exact hagree
  obtain ⟨front, back, htokens, hrest, hviable, -⟩ :=
    hsplit id ts.length ts [] [] (List.append_nil _).symm (Nat.le_refl _)
  refine ⟨front, back, htokens, hrest, hviable, fun f n' back' hlen => ?_⟩
  -- shared are the tokens up to the one blamed, and it is the same one
  have hseen : ts = (front ++ [e.token]) ++ back := by rw [htokens, List.append_assoc]; rfl
  obtain ⟨front', left, -, hrest', -, hsame⟩ := hsplit f n' _ back back' hseen (by
    simpa [Nat.add_assoc, Nat.add_comm 1] using hlen)
  exact hsame [] (e.left_injective (hrest'.symm.trans hrest))

/-- A program that is read is read as the same statements on other lines. -/
theorem program_moved_of_eq_ok (f : Int → Int) {n : Nat} {ts rest : List Token}
    {statements : List Stmt} (hts : ts.length ≤ n) (h : program n ts = .ok statements rest) :
    program n (ts.map (Token.moved f)) =
      .ok (Stmt.allMoved f statements) (rest.map (Token.moved f)) := by
  have hagree := follows_program (f := f) n n ts [] [] ((List.append_nil ts).symm ▸ hts)
    (by simpa using hts)
  rw [List.append_nil, List.append_nil, h] at hagree
  -- a program is read up to an end token, so a token is left
  obtain ⟨p, -, -, hmeets⟩ := (program_eq_ok_iff hts).1 h
  cases rest with
  | nil => exact hmeets.elim
  | cons t rest => exact (hagree.2 t rest (by simp)).trans (by simp)

/-- A program that is rejected is rejected at the same token on other lines. -/
theorem program_moved_of_eq_error (f : Int → Int) {n : Nat} {ts rest : List Token}
    {e : SyntaxError} (hts : ts.length ≤ n) (h : program n ts = .error (.error e) rest) :
    program n (ts.map (Token.moved f)) =
      .error (.error (e.moved f)) (rest.map (Token.moved f)) := by
  obtain ⟨front, back, htokens, rfl, -, hsame⟩ := exists_of_program_eq_error hts h
  have hmoved := hsame f n (back.map (Token.moved f)) (by simpa [htokens] using hts)
  rw [← List.map_append, List.append_assoc, List.singleton_append, ← htokens] at hmoved
  rw [hmoved, e.map_left]

variable {ts : List Token}

/-- Programs on other lines are read as the same statements, or not at all. -/
theorem statements?_moved (f : Int → Int) (hts : Ended ts) :
    statements? (ts.map (Token.moved f)) = (statements? ts).map (Stmt.allMoved f) := by
  have hsettled := settles_program ts.length ts hts (Nat.le_refl _)
  unfold statements?
  rw [List.length_map]
  cases h : program ts.length ts with
  | ok statements rest => rw [program_moved_of_eq_ok f (Nat.le_refl _) h, Option.map_some]
  | error e rest =>
    rw [h] at hsettled
    cases e with
    | endOfTokens => exact hsettled.elim
    | error e => rw [program_moved_of_eq_error f (Nat.le_refl _) h, Option.map_none]

/-- The error that tokens are rejected with is that of the rule for programs. -/
theorem syntaxError?_eq_some_iff {e : SyntaxError} :
    syntaxError? ts = some e ↔ ∃ rest, program ts.length ts = .error (.error e) rest := by
  unfold syntaxError?
  constructor
  · intro h
    split at h
    · next hprogram =>
      cases h
      exact ⟨_, hprogram⟩
    · cases h
  · rintro ⟨rest, hprogram⟩
    rw [hprogram]

/-- Programs on other lines are rejected with the same error, or not at all. -/
theorem syntaxError?_moved (f : Int → Int) (hts : Ended ts) :
    syntaxError? (ts.map (Token.moved f)) = (syntaxError? ts).map (SyntaxError.moved f) := by
  have hsettled := settles_program ts.length ts hts (Nat.le_refl _)
  unfold syntaxError?
  rw [List.length_map]
  cases h : program ts.length ts with
  | ok statements rest => rw [program_moved_of_eq_ok f (Nat.le_refl _) h, Option.map_none]
  | error e rest =>
    rw [h] at hsettled
    cases e with
    | endOfTokens => exact hsettled.elim
    | error e => rw [program_moved_of_eq_error f (Nat.le_refl _) h, Option.map_some]

end Grammar

/-! ## Programs without an end token -/

/-- No end token stands in a program. -/
theorem Surface.Program.kind_ne_of_mem (p : Program) {t : Token} (h : t ∈ p.tokens) :
    t.kind ≠ .endOfInput := by
  let eof : Token := ⟨.endOfInput, "", none, 0⟩
  have hended : Ended (p.tokens ++ [eof]) := ⟨eof, by simp, rfl⟩
  have hsettled := Grammar.settles_program _ _ hended (Nat.le_refl _)
  rw [(program_eq_ok_iff (Nat.le_refl _)).2 ⟨p, rfl, rfl, List.mem_singleton_self _⟩] at hsettled
  -- the tokens passed in front of the end token are those of the program
  obtain ⟨passed, hpassed, hkinds⟩ := hsettled.1
  rw [← List.append_cancel_right hpassed] at h
  exact hkinds t h

namespace Cursor

/-- Some tokens, with an end token behind them, are read as a program. -/
def Accepts (ts : List Token) : Prop :=
  ∃ (eof : Mark .endOfInput) (ledger : Ledger) (statements : List Stmt) (c : Cursor),
    readProgram { tokens := ts ++ [eof.token], ledger } = .ok (some statements) c

/-- Where tokens are read, the rule for programs succeeds on them. -/
theorem Accepts.exists_program_eq_ok {ts : List Token} (h : Accepts ts) :
    ∃ (eof : Mark .endOfInput) (statements : List Stmt) (rest : List Token),
      Grammar.program (ts ++ [eof.token]).length (ts ++ [eof.token]) = .ok statements rest := by
  obtain ⟨eof, ledger, statements, c, hread⟩ := h
  obtain ⟨p, rest, htokens, hdesugar, hmeets, -⟩ := readProgram_eq_some_iff.1 hread
  exact ⟨eof, statements, rest,
    (program_eq_ok_iff (Nat.le_refl _)).2 ⟨p, htokens, hdesugar, hmeets⟩⟩

/-- Tokens without an end token among them are read exactly if they are those of a program. -/
theorem accepts_iff {ts : List Token} (hts : ∀ t ∈ ts, t.kind ≠ .endOfInput) :
    Accepts ts ↔ ∃ p : Program, p.tokens = ts := by
  constructor
  · rintro ⟨eof, ledger, statements, c, hread⟩
    obtain ⟨⟨p, htokens, -⟩, -⟩ := existsUnique_program_of_readProgram eof ledger hts hread
    exact ⟨p, htokens.1⟩
  · rintro ⟨p, rfl⟩
    exact ⟨default, {}, _, _, readProgram_tokens p default {}⟩

/-- What begins declarations begins a program that is read. -/
theorem exists_accepts_of_allViable {front : List Token} (h : Declaration.AllViable front) :
    ∃ more, (∀ t ∈ more, t.kind ≠ .endOfInput) ∧ Accepts (front ++ more) := by
  obtain ⟨ds, hall, more, hmore⟩ := h
  let p : Program := ⟨ds, hall⟩
  have hp : p.tokens = front ++ more := hmore.symm
  refine ⟨more, fun t ht => p.kind_ne_of_mem (hp ▸ List.mem_append_right _ ht), ?_⟩
  rw [← hp]
  exact (accepts_iff fun t ht => p.kind_ne_of_mem ht).2 ⟨p, rfl⟩

/-- Where nothing is read, the rule for programs was rejected, and its error is reported. -/
theorem exists_syntaxError?_of_readProgram {ts : List Token} {ledger : Ledger} {c : Cursor}
    (hts : Ended ts) (h : readProgram { tokens := ts, ledger } = .ok none c) :
    ∃ e, Grammar.syntaxError? ts = some e ∧ c.ledger = ledger.rejected e := by
  obtain ⟨c', hread, hledger⟩ := exists_readProgram_eq_ok hts ledger
  rw [h] at hread
  injection hread with hnone hcursor
  subst hcursor
  cases herror : Grammar.syntaxError? ts with
  | none =>
    obtain ⟨statements, hsome⟩ := (Grammar.syntaxError?_eq_none_iff hts).1 herror
    rw [← hnone] at hsome
    cases hsome
  | some e =>
    rw [herror] at hledger
    exact ⟨e, rfl, hledger⟩

/-- **An error blames the first hopeless token** of some tokens with an end token behind them. The
tokens `front` in front of it begin a program that is read, and no program that is read begins with
them and the token blamed. Reading stops in front of that token, or right behind it where the target
of an assignment is blamed. If it is the end token, all others begin a program but are none. -/
structure Blames (ts : List Token) (eof : Mark .endOfInput) (e : SyntaxError)
    (front back : List Token) : Prop where
  tokens_eq : ts ++ [eof.token] = front ++ e.token :: back
  stops : Grammar.program (ts ++ [eof.token]).length (ts ++ [eof.token]) =
    .error (.error e) (e.left back)
  extensible : ∃ more, (∀ t ∈ more, t.kind ≠ .endOfInput) ∧ Accepts (front ++ more)
  hopeless : ∀ more, ¬ Accepts (front ++ e.token :: more)
  at_end : e.token.kind = .endOfInput → front = ts ∧ ¬ Accepts ts

/-- **Syntax errors are located exactly.** Where tokens with one end token, behind all others, are
not read, the one error reported blames the first hopeless token. -/
theorem readProgram_blames {ts : List Token} (eof : Mark .endOfInput) (ledger : Ledger)
    (hts : ∀ t ∈ ts, t.kind ≠ .endOfInput) {c : Cursor}
    (h : readProgram { tokens := ts ++ [eof.token], ledger } = .ok none c) :
    ∃ e front back, Blames ts eof e front back ∧ c.ledger = ledger.rejected e := by
  have hended : Ended (ts ++ [eof.token]) := ⟨eof.token, by simp, eof.kind_token⟩
  obtain ⟨e, herror, hledger⟩ := exists_syntaxError?_of_readProgram hended h
  obtain ⟨rest, hprogram⟩ := Grammar.syntaxError?_eq_some_iff.1 herror
  obtain ⟨front, back, htokens, rfl, hviable, hsame⟩ :=
    Grammar.exists_of_program_eq_error (Nat.le_refl _) hprogram
  refine ⟨e, front, back, ⟨htokens, hprogram, exists_accepts_of_allViable hviable, ?_, ?_⟩,
    hledger⟩
  · intro more haccepts
    obtain ⟨eof', statements, rest', hok⟩ := haccepts.exists_program_eq_ok
    -- with other tokens behind it the same token is blamed
    have hrejected := hsame id _ (more ++ [eof'.token]) (Nat.le_refl _)
    rw [Token.moved_id, List.map_id, List.append_assoc, List.singleton_append,
      ← List.cons_append, ← List.append_assoc, hok] at hrejected
    cases hrejected
  · intro hkind
    have hback : Meets [.endOfInput] (e.token :: back) := List.mem_singleton.2 hkind
    refine ⟨(append_eq_append_eof htokens.symm hback hts).1, fun haccepts => ?_⟩
    obtain ⟨p, rfl⟩ := (accepts_iff hts).1 haccepts
    have hmeets : Meets [.endOfInput] [eof.token] := eof.kind_mem
    rw [(program_eq_ok_iff (Nat.le_refl _)).2 ⟨p, rfl, rfl, hmeets⟩] at hprogram
    cases hprogram

/-- An assignment to a sum blames its equals sign. -/
theorem readProgram_blames_equals_sign :
    let a : Token := ⟨.identifier, "a", none, 1⟩
    let plus : Token := ⟨.plus, "+", none, 1⟩
    let equals : Token := ⟨.equal, "=", none, 1⟩
    let nilWord : Token := ⟨.keyword .nilWord, "nil", none, 1⟩
    let semicolon : Token := ⟨.semicolon, ";", none, 1⟩
    let ts := [a, plus, a, equals, nilWord, semicolon]
    let eof : Mark .endOfInput := .ofKind (t := ⟨.endOfInput, "", none, 1⟩) rfl
    let e : SyntaxError := ⟨equals, .invalidAssignmentTarget⟩
    let c : Cursor := ⟨ts ++ [eof.token], 6, .resumed, ({} : Ledger).rejected e⟩
    (∀ t ∈ ts, t.kind ≠ .endOfInput) ∧
      readProgram ⟨ts ++ [eof.token], 0, .resumed, {}⟩ = .ok none c ∧
      ∃ e front back, Blames ts eof e front back ∧ c.ledger = ({} : Ledger).rejected e :=
  ⟨by decide, rfl, readProgram_blames (.ofKind (t := ⟨.endOfInput, "", none, 1⟩) rfl) {}
    (by decide) rfl⟩

end Cursor

end Lox
