import Mathlib.Data.List.Forall2
import Lox.Proofs.Grammar.Rejection
import Lox.Proofs.Session.Endings
import Lox.Proofs.Source.Layout

/-! # Layout never changes meaning

Sources of the same lexemes with separators between them have the same tokens on other lines. So
they are read alike, as the same statements or rejected at the same place for the same reason, and
they run alike in every session. Only the lines in their reports differ.

* **`Grammar.RejectsAt`** — tokens are rejected at the one in a given place;
* **`Source.ReadAlike`** — two sources are read alike;
* **`Ledger.SameButLines`** — two ledgers got the same messages but for the lines in them;
* **`Source.laidOut_alike`** — sources of the same lexemes are read and run alike. -/

namespace Lox

/-! ## Where tokens are rejected -/

namespace Grammar

/-- **Tokens are rejected at the one in place `i`**: reading them stops there, and blames it. -/
def RejectsAt (ts : List Token) (e : SyntaxError) (i : Nat) : Prop :=
  ∃ back, ts.drop i = e.token :: back ∧
    program ts.length ts = .error (.error e) (e.left back)

variable {f : Int → Int} {ts ts' : List Token} {e e' : SyntaxError} {i i' : Nat}

/-- A syntax error is one of the tokens in some place. -/
theorem exists_rejectsAt (h : syntaxError? ts = some e) : ∃ i, RejectsAt ts e i := by
  obtain ⟨rest, hprogram⟩ := syntaxError?_eq_some_iff.1 h
  obtain ⟨front, back, htokens, rfl, -, -⟩ := exists_of_program_eq_error (Nat.le_refl _) hprogram
  refine ⟨front.length, back, ?_, hprogram⟩
  rw [htokens, List.drop_left]

/-- Tokens that are the same up to lines are rejected in the same place. -/
theorem RejectsAt.place_eq (h : RejectsAt ts e i) (h' : RejectsAt ts' e' i')
    (htokens : ts.map (Token.moved f) = ts'.map (Token.moved f)) :
    e.moved f = e'.moved f ∧ i = i' := by
  obtain ⟨back, hdrop, hprogram⟩ := h
  obtain ⟨back', hdrop', hprogram'⟩ := h'
  have hlength : ts.length = ts'.length := by simpa using congrArg List.length htokens
  have hmoved := program_moved_of_eq_error f (Nat.le_refl _) hprogram
  rw [htokens, hlength, program_moved_of_eq_error f (Nat.le_refl _) hprogram'] at hmoved
  injection hmoved with herror hrest
  injection herror with herror
  refine ⟨herror.symm, ?_⟩
  -- as much is left behind the token blamed, so it is in the same place
  rw [SyntaxError.map_left, SyntaxError.map_left, herror] at hrest
  have hback := congrArg List.length (SyntaxError.left_injective _ hrest)
  have hlen := congrArg List.length hdrop
  have hlen' := congrArg List.length hdrop'
  simp only [List.length_map, List.length_drop, List.length_cons] at hback hlen hlen'
  omega

end Grammar

/-! ## Reading -/

namespace Source

/-- The lexemes of a source, in order. -/
def lexemes (source : Source) : List (List Char) := source.body.map (·.lexeme.toList)

/-- **A source is rejected at its token in place `i`**, with one syntax error that blames it. -/
structure RejectedAt (source : Source) (e : SyntaxError) (i : Nat) : Prop where
  syntaxErrors_eq : source.syntaxErrors = [e]
  rejects : Grammar.RejectsAt source.tokens e i

/-- **Two sources are read alike**: both are accepted, and their statements are the same up to
lines, or both are rejected, for the same reason and at the token in the same place. -/
inductive ReadAlike (source source' : Source) : Prop
  | accepted (h : source.Accepted) (h' : source'.Accepted)
      (hstatements : Stmt.allMoved (fun _ => 0) source.statements =
        Stmt.allMoved (fun _ => 0) source'.statements)
  | rejected {e e' : SyntaxError} {i : Nat} (h : source.RejectedAt e i)
      (h' : source'.RejectedAt e' i) (hkind : e.kind = e'.kind)
      (htoken : e.token.moved (fun _ => 0) = e'.token.moved fun _ => 0)

variable {source source' : Source}

/-- **Sources with the same tokens up to lines are read alike.** -/
theorem readAlike_of_tokens (hclean : source.lexicalErrors = [])
    (hclean' : source'.lexicalErrors = [])
    (htokens : source.tokens.map (Token.moved fun _ => 0) =
      source'.tokens.map (Token.moved fun _ => 0)) : ReadAlike source source' := by
  have herrors := Grammar.syntaxError?_moved (fun _ => 0) source.ended_tokens
  rw [htokens, Grammar.syntaxError?_moved (fun _ => 0) source'.ended_tokens] at herrors
  cases herror : Grammar.syntaxError? source.tokens with
  | none =>
    rw [herror, Option.map_none, Option.map_eq_none_iff] at herrors
    have hnone : source.syntaxErrors = [] := by rw [syntaxErrors, herror]; rfl
    have hnone' : source'.syntaxErrors = [] := by rw [syntaxErrors, herrors]; rfl
    refine .accepted ⟨hclean, hnone⟩ ⟨hclean', hnone'⟩ ?_
    obtain ⟨-, -, -, hread⟩ := exists_program_of_syntaxErrors_eq_nil hnone
    obtain ⟨-, -, -, hread'⟩ := exists_program_of_syntaxErrors_eq_nil hnone'
    have hmoved := Grammar.statements?_moved (fun _ => 0) source.ended_tokens
    rw [htokens, Grammar.statements?_moved (fun _ => 0) source'.ended_tokens, hread,
      hread'] at hmoved
    exact (Option.some.inj hmoved).symm
  | some e =>
    rw [herror, Option.map_some] at herrors
    obtain ⟨e', herror', -⟩ := Option.map_eq_some_iff.1 herrors
    obtain ⟨i, hrejects⟩ := Grammar.exists_rejectsAt herror
    obtain ⟨i', hrejects'⟩ := Grammar.exists_rejectsAt herror'
    obtain ⟨hmoved, rfl⟩ := hrejects.place_eq hrejects' htokens
    have hrejected : source.syntaxErrors = [e] := by rw [syntaxErrors, herror]; rfl
    have hrejected' : source'.syntaxErrors = [e'] := by rw [syntaxErrors, herror']; rfl
    refine .rejected ⟨hrejected, hrejects⟩ ⟨hrejected', hrejects'⟩ ?_ ?_
    · simpa using congrArg SyntaxError.kind hmoved
    · simpa using congrArg SyntaxError.token hmoved

end Source

/-! ## Reports -/

/-- Two messages that are the same but for the line that they name. -/
def SameButLine (message message' : String) : Prop :=
  ∃ (front back : String) (line line' : Int),
    message = front ++ "[line " ++ toString line ++ "]" ++ back ∧
      message' = front ++ "[line " ++ toString line' ++ "]" ++ back

/-- Messages about the text of a program. -/
theorem sameButLine_renderReport (line line' : Int) (location message : String) :
    SameButLine (renderReport line location message) (renderReport line' location message) := by
  have hform : ∀ n : Int, renderReport n location message =
      "" ++ "[line " ++ toString n ++ "]" ++ (" Error" ++ location ++ ": " ++ message) := by
    intro n
    have hsplit : "] Error" = "]" ++ " Error" := rfl
    unfold renderReport
    simp only [hsplit, String.append_assoc, String.empty_append]
  exact ⟨_, _, line, line', hform line, hform line'⟩

/-- The messages of syntax errors of one kind, at tokens that are the same up to lines. -/
theorem SyntaxError.sameButLine_render {e e' : SyntaxError} (hkind : e.kind = e'.kind)
    (htoken : e.token.moved (fun _ => 0) = e'.token.moved fun _ => 0) :
    SameButLine e.render e'.render := by
  have htokenKind : e.token.kind = e'.token.kind := by simpa using congrArg Token.kind htoken
  have hlexeme : e.token.lexeme = e'.token.lexeme := by simpa using congrArg Token.lexeme htoken
  unfold render
  rw [htokenKind, hlexeme, hkind]
  exact sameButLine_renderReport _ _ _ _

/-- The messages of runtime errors with the same wording. -/
theorem RuntimeError.sameButLine_render {e e' : RuntimeError} (h : e.message = e'.message) :
    SameButLine e.render e'.render := by
  have hform : ∀ n : Int, e'.message ++ "\n[line " ++ toString n ++ "]" =
      e'.message ++ "\n" ++ "[line " ++ toString n ++ "]" ++ "" := by
    intro n
    have hsplit : "\n[line " = "\n" ++ "[line " := rfl
    simp only [hsplit, String.append_assoc, String.append_empty]
  refine ⟨_, _, e.token.line, e'.token.line, ?_, hform _⟩
  rw [render, h, hform]

namespace Ledger

/-- **Two ledgers got the same messages but for the lines in them**, since they were both what
`start` is, and the same flags are set. -/
structure SameButLines (start l l' : Ledger) : Prop where
  messages : ∃ new new' : List String, List.Forall₂ SameButLine new new' ∧
    l.messages = start.messages ++ new.toArray ∧ l'.messages = start.messages ++ new'.toArray ∧
    l.written = start.written ++ new.toArray ∧ l'.written = start.written ++ new'.toArray
  hadError : l.hadError = l'.hadError
  hadRuntimeError : l.hadRuntimeError = l'.hadRuntimeError

variable {start l l' l'' : Ledger}

/-- Nothing was reported. -/
theorem sameButLines_self (l : Ledger) : SameButLines l l l :=
  ⟨⟨[], [], .nil, by simp⟩, rfl, rfl⟩

/-- A runtime error of the same wording was reported. -/
theorem sameButLines_aborted {e e' : RuntimeError} (h : e.message = e'.message) :
    SameButLines l (l.aborted e) (l.aborted e') := by
  refine ⟨⟨[e.render], [e'.render], .cons (RuntimeError.sameButLine_render h) .nil, ?_⟩, ?_, ?_⟩
  · simp
  · simp
  · simp

/-- Ledgers that are both what the ledger of a third run is, but for a line, are the same but for
lines. -/
theorem Aborts.sameButLines (h : Aborts (fun _ => 0) start l l'')
    (h' : Aborts (fun _ => 0) start l' l'') : SameButLines start l l' := by
  have hne : ∀ e, start.aborted e ≠ start := by
    intro e he
    have hsize := congrArg (·.messages.size) he
    simp at hsize
  rcases h with ⟨rfl, hl⟩ | ⟨e, rfl, hl⟩
  · rcases h' with ⟨rfl, -⟩ | ⟨e', -, hl'⟩
    · exact sameButLines_self _
    · exact absurd (hl'.symm.trans hl) (hne _)
  · rcases h' with ⟨rfl, hl'⟩ | ⟨e', rfl, hl'⟩
    · exact absurd (hl.symm.trans hl') (hne _)
    · -- without their lines both errors have the same message, so the same wording
      have hmessages := congrArg (·.messages) (hl.symm.trans hl')
      have hrender : e.message ++ "\n[line " ++ toString (0 : Int) ++ "]" =
          e'.message ++ "\n[line " ++ toString (0 : Int) ++ "]" :=
        (Array.push_eq_push.1 hmessages).1
      rw [String.append_left_inj, String.append_left_inj, String.append_left_inj] at hrender
      exact sameButLines_aborted hrender

variable {source source' : Source}

/-- The messages of sources that are read alike are the same but for lines. -/
theorem sameButLine_messagesOf (hclean : source.lexicalErrors = [])
    (hclean' : source'.lexicalErrors = []) (h : source.ReadAlike source') :
    List.Forall₂ SameButLine (messagesOf source) (messagesOf source') := by
  unfold messagesOf
  rw [hclean, hclean']
  cases h with
  | accepted h h' =>
    rw [h.2, h'.2]
    exact .nil
  | rejected h h' hkind htoken =>
    rw [h.syntaxErrors_eq, h'.syntaxErrors_eq]
    exact .cons (SyntaxError.sameButLine_render hkind htoken) .nil

/-- Sources with the same messages but for lines leave ledgers that are the same but for lines. -/
theorem sameButLines_reported (l : Ledger)
    (h : List.Forall₂ SameButLine (messagesOf source) (messagesOf source')) :
    SameButLines l (l.reported source) (l.reported source') := by
  have hempty : (messagesOf source).isEmpty = (messagesOf source').isEmpty := by
    generalize messagesOf source = new at h
    generalize messagesOf source' = new' at h
    cases h <;> rfl
  rw [reported_eq, reported_eq, hempty]
  exact ⟨⟨_, _, h, rfl, rfl, rfl, rfl⟩, rfl, rfl⟩

end Ledger

/-! ## Running -/

namespace Session

variable {source source' : Source} {s s' : Session}

/-- Statements that are the same up to lines are run alike. -/
theorem runStatements_endAs_of_unlined (fuel : Nat) {statements statements' : List Stmt}
    (hstatements : Stmt.allMoved (fun _ => 0) statements = Stmt.allMoved (fun _ => 0) statements')
    (halike : s.machine.Alike s'.machine) (hledger : s'.ledger = s.ledger) :
    EndAs Eq (Ledger.SameButLines s.ledger) (runStatements fuel statements s)
      (runStatements fuel statements' s') := by
  let f : Int → Int := fun _ => 0
  -- both end as the statements without their lines do
  have hends : EndAs Eq (s.ledger.Aborts f) (runStatements fuel statements s)
      (runStatements fuel (Stmt.allMoved f statements) s) :=
    runStatements_endAs (Run.mirrors_program f fuel _ _ _ ⟨rfl, rfl, rfl⟩) rfl
  have hends' : EndAs Eq (s.ledger.Aborts f) (runStatements fuel statements' s')
      (runStatements fuel (Stmt.allMoved f statements) s) := by
    rw [hstatements, ← hledger]
    exact runStatements_endAs (Run.mirrors_program f fuel _ _ _ halike.symm) hledger.symm
  exact hends.join hends' fun _ _ _ => Ledger.Aborts.sameButLines

/-- **Sources that are read alike run alike.** -/
theorem run_endAs_of_readAlike (hclean : source.lexicalErrors = [])
    (hclean' : source'.lexicalErrors = []) (h : source.ReadAlike source') (fuel : Nat)
    (s : Session) :
    EndAs Eq (Ledger.SameButLines s.ledger) (run fuel source s) (run fuel source' s) := by
  have halike : (s.afterReading source).machine.Alike (s.afterReading source').machine :=
    (alike_of_afterReading s source).trans (alike_of_afterReading s source').symm
  have hreported := Ledger.sameButLines_reported s.ledger
    (Ledger.sameButLine_messagesOf hclean hclean' h)
  cases herror : (s.ledger.reported source).hadError with
  | true =>
    rw [run_eq_of_hadError herror, run_eq_of_hadError (hreported.hadError ▸ herror)]
    exact ⟨rfl, hreported, halike⟩
  | false =>
    obtain ⟨hclear, haccepted⟩ := hadError_reported_eq_false_iff.1 herror
    cases h with
    | rejected h => exact absurd (h.syntaxErrors_eq.symm.trans haccepted.2) (List.cons_ne_nil _ _)
    | accepted _ haccepted' hstatements =>
      have hledgers : (s.afterReading source').ledger = (s.afterReading source).ledger := by
        rw [ledger_afterReading haccepted, ledger_afterReading haccepted']
      rw [run_eq_of_accepted hclear haccepted, run_eq_of_accepted hclear haccepted',
        ← ledger_afterReading haccepted]
      exact runStatements_endAs_of_unlined fuel hstatements halike hledgers

end Session

/-! ## Layout -/

/-- **Layout never changes meaning.** Take a source without lexical errors, and any source of the
same lexemes, in the same order, with separators between them, and maybe in front of them and behind
them. It has no lexical errors either, and the same tokens on other lines. Both are read alike, and
from every session both run alike: with the same output, bindings and answer, and the same messages
but for the lines in them. -/
theorem Source.laidOut_alike {source source' : Source} (hclean : source.lexicalErrors = [])
    (h : LaidOut source.lexemes source') :
    source'.lexicalErrors = [] ∧
      source.tokens.map (Token.moved fun _ => 0) = source'.tokens.map (Token.moved fun _ => 0) ∧
      source.ReadAlike source' ∧
      ∀ (fuel : Nat) (s : Session), Session.EndAs Eq (Ledger.SameButLines s.ledger)
        (Session.run fuel source s) (Session.run fuel source' s) := by
  have herrors : errorsOf 1 (pieces source) = [] := by rwa [← toList_errors_scan]
  have hspells : Spells source (source.body.map (Token.moved fun _ => 0)) :=
    .of_errorsOf_eq_nil herrors
  have hlexemes : source.lexemes =
      (source.body.map (Token.moved fun _ => 0)).map (·.lexeme.toList) := by
    rw [lexemes, List.map_map]
    rfl
  rw [hlexemes] at h
  have hspells' := h.spells fun t ht => hspells.spelled_of_mem ht
  have hclean' : source'.lexicalErrors = [] := by
    rw [lexicalErrors, toList_errors_scan]
    exact errorsOf_pieces_eq_nil_iff.2 hspells'.pattern
  have htokens : source.tokens.map (Token.moved fun _ => 0) =
      source'.tokens.map (Token.moved fun _ => 0) := by
    rw [tokens_eq, tokens_eq, List.map_append, List.map_append, ← hspells'.tokens_eq,
      ← tokensOf_unlined 1]
    rfl
  have hread := readAlike_of_tokens hclean hclean' htokens
  exact ⟨hclean', htokens, hread, Session.run_endAs_of_readAlike hclean hclean' hread⟩

/-- A name printed on one line, and on three lines with a comment between them. -/
theorem Source.laidOut_alike_of_comment :
    let source : Source := "print a;".toList
    let source' : Source := " print\t// b;\n a\n;".toList
    source.lexicalErrors = [] ∧ LaidOut source.lexemes source' ∧ source.ReadAlike source' ∧
      ∀ (fuel : Nat) (s : Session), Session.EndAs Eq (Ledger.SameButLines s.ledger)
        (Session.run fuel source s) (Session.run fuel source' s) := by
  intro source source'
  have hclean : source.lexicalErrors = [] := by decide +kernel
  have hlexemes : source.lexemes = ["print".toList, "a".toList, ";".toList] := by decide +kernel
  have hlaid : LaidOut source.lexemes source' := by
    rw [hlexemes]
    have hcomment : Separator "\t// b;\n ".toList :=
      .mk (by decide) (.comment (show '\n' ∉ " b;".toList by decide) (.blank (by decide) .nil))
    have hline : Separator "\n".toList := .mk (by decide) .nil
    exact .behind (.mk (by decide) .nil) (.cons hcomment (.cons hline (.last _)))
  obtain ⟨-, -, hread, hrun⟩ := laidOut_alike hclean hlaid
  exact ⟨hclean, hlaid, hread, hrun⟩

end Lox
