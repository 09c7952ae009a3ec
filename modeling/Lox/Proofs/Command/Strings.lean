import Lox.Proofs.Command.Statuses
import Lox.Proofs.Run.Lockstep
import Lox.Proofs.Source.Separation
import Lox.Proofs.Source.Strings

/-! # Strings from the source to the output

A text between quotation marks is a string of that text, and a program that prints the string writes
the text, whatever characters it has.

* **`Source.pieces_printing`**, **`Source.accepted_printing`** — the program that prints a text;
* **`Session.exists_run_printing`** — what running it prints;
* **`strings_survive`** — string tokens hold the texts that are written, and printing them writes
  these texts. -/

namespace Lox

/-! ## The program that prints a text -/

/-- A string ends at the first quotation mark behind its opening one. -/
theorem Piece.cut_string {body : List Char} (h : '"' ∉ body) (rest : List Char) :
    cut '"' (body ++ '"' :: rest) = (⟨.string, '"' :: (body ++ ['"'])⟩, rest) := by
  have hmeasure : measure '"' (body ++ '"' :: rest) = (.string, body.length + 1) := by
    rw [measure_eq]
    show Head.quote.measure _ = _
    simp only [Head.measure, stringLength?_of_not_mem h]
  simp only [cut, hmeasure]
  rw [List.take_length_add_append, List.drop_length_add_append]
  rfl

namespace Source

variable {text : String}

/-- The program that prints a text, with the text between quotation marks. -/
def printing (text : String) : Source := ofText ("print \"" ++ text ++ "\";")

/-- The bytes of a text without quotation marks have none. -/
theorem not_mem_ofText (h : '"' ∉ text.toList) : '"' ∉ ofText text := by
  intro hmem
  obtain ⟨front, back, hsplit⟩ := List.append_of_mem hmem
  rw [← String.ofList_toList (s := text)] at hsplit
  obtain ⟨as, bs, htext, -, -⟩ := Text.exists_of_toBytes_eq_append_cons (by decide) hsplit
  rw [htext] at h
  simp at h

/-- The pieces of the program that prints a text. -/
theorem pieces_printing (h : '"' ∉ text.toList) :
    pieces (printing text) = [⟨.word, "print".toList⟩, ⟨.blank, [' ']⟩,
      ⟨.string, '"' :: (ofText text ++ ['"'])⟩, ⟨.operator .semicolon, [';']⟩] := by
  have hprinting : printing text =
      "print".toList ++ ' ' :: '"' :: (ofText text ++ '"' :: [';']) := by
    have hfront : Text.toBytes "print \"" = "print".toList ++ [' ', '"'] := by decide
    have hback : Text.toBytes "\";" = ['"', ';'] := by decide
    rw [printing, ofText, Text.toBytes_append, Text.toBytes_append, hfront, hback]
    simp [ofText]
  have hletters : ['r', 'i', 'n', 't'].all isLetter = true := by decide
  have hword : Pattern .word ('p' :: ['r', 'i', 'n', 't']) :=
    .word (by decide) fun d hd => .inl (List.all_eq_true.1 hletters d hd)
  have hprint : pieces "print".toList = [⟨.word, "print".toList⟩] :=
    pieces_text (p := ⟨.word, "print".toList⟩) hword
  have hsemicolon : pieces [';'] = [⟨.operator .semicolon, [';']⟩] :=
    pieces_text (p := ⟨.operator .semicolon, _⟩) (.operator (by decide))
  have hmem : ∀ p ∈ pieces "print".toList, p = ⟨.word, "print".toList⟩ := by
    rw [hprint]
    exact fun p hp => List.mem_singleton.1 hp
  rw [hprinting, pieces_append_blank (fun p hp => hmem p hp ▸ hword.kind_ne.2) (by decide)
    (fun p hp hkind => by rw [hmem p hp] at hkind; cases hkind), hprint, pieces_cons,
    Piece.cut_string (not_mem_ofText h), hsemicolon]
  rfl

/-- The tokens of the program that prints a text. -/
theorem exists_body_printing (h : '"' ∉ text.toList) :
    ∃ word literal closing, (printing text).body = [word, literal, closing] ∧
      word.kind = .keyword .printWord ∧ literal.kind = .string ∧
      literal.literal = some (.string text) ∧ closing.kind = .semicolon := by
  have hvalue : Scan.stringLiteral ('"' :: (ofText text ++ ['"'])) = some (.string text) := by
    rw [Scan.stringLiteral, List.tail_cons, List.dropLast_concat, ofText, Text.ofBytes_toBytes]
  rw [body, pieces_printing h]
  exact ⟨_, _, _, rfl, rfl, rfl, hvalue, rfl⟩

/-- **The program that prints a text** is accepted, and prints a literal of the text. -/
theorem accepted_printing (h : '"' ∉ text.toList) :
    (printing text).Accepted ∧
      (printing text).statements = [.print (.literal (some (.string text)))] := by
  have hlexical : (printing text).lexicalErrors = [] := by
    rw [lexicalErrors, toList_errors_scan, pieces_printing h]
    rfl
  obtain ⟨word, literal, closing, hbody, hword, hkind, hliteral, hclosing⟩ :=
    exists_body_printing h
  let inner : Surface.ExprTree .primary := .literal ⟨literal, by rw [hkind]; decide⟩
  let p : Surface.Program :=
    ⟨[.statement (.print (.ofKind hword) (.plain (inner.lift .logicOr)) (.ofKind hclosing))],
      trivial, trivial⟩
  obtain ⟨haccepted, hstatements⟩ := accepted_of_program (p := p) hlexical hbody.symm
  refine ⟨haccepted, hstatements.trans ?_⟩
  show [Stmt.print (.literal (Surface.literalValue literal))] = _
  rw [Surface.literalValue, hkind, hliteral]

end Source

/-! ## Running it -/

/-- A literal is printed as its text. -/
theorem Run.exists_execute_print_literal (fuel : Nat) (v : Value) (m : Machine) :
    ∃ m', execute fuel (.print (.literal (some v))) m = .ok none m' ∧
      m'.output = m.output.push v.text := by
  obtain ⟨t, -, hnoted⟩ := exists_noted_eq_ok .literal v m
  refine ⟨_, bind_eq_of_eq_ok hnoted _, rfl⟩

/-- **Running the program that prints a text** prints the text, and nothing else, and reports
nothing. -/
theorem Session.exists_run_printing {text : String} (h : '"' ∉ text.toList) (fuel : Nat)
    {s : Session} (hclear : s.ledger.hadError = false) :
    ∃ s', run fuel (Source.printing text) s = .ok none s' ∧ s'.ledger = s.ledger ∧
      s'.listing = s.listing ∧ s'.machine.output = s.machine.output.push text := by
  obtain ⟨haccepted, hstatements⟩ := Source.accepted_printing h
  obtain ⟨m, hprint, houtput⟩ := Run.exists_execute_print_literal fuel (.string text)
    (s.afterReading (Source.printing text)).machine
  have hprogram : Run.program fuel [.print (.literal (some (.string text)))]
      (s.afterReading (Source.printing text)).machine = .ok none m :=
    Run.program_eq_ok_iff.2 (.inr ⟨[], _, _, rfl, rfl, hprint⟩)
  rw [run_eq_of_accepted hclear haccepted, hstatements]
  unfold runStatements
  rw [hprogram]
  refine ⟨_, rfl, ?_, rfl, houtput⟩
  exact ledger_afterReading haccepted

namespace Command

variable {fuel : Nat} {d : Directory} {o : Options} {arguments : List String}

/-- **A script that prints a text** writes the text and a line end. -/
theorem RunsScript.invoke_printing {text : String} (h : '"' ∉ text.toList) {bytes : List UInt8}
    (hbytes : Source.ofBytes bytes = Source.printing text)
    (hscript : RunsScript d arguments o bytes) (htrace : TraceKept d o) (input : String) :
    (invoke fuel d arguments input).output = text ++ "\n" ∧
      (invoke fuel d arguments input).errors = "" ∧
      (invoke fuel d arguments input).status = none ∧
      (invoke fuel d arguments input).failure = none := by
  obtain ⟨s', hrun, hledger, hlisting, houtput⟩ :=
    Session.exists_run_printing h fuel (s := Session.new o.verbosity) rfl
  rw [← hbytes] at hrun
  rw [hscript.invoke_eq_of_run htrace input hrun]
  refine ⟨?_, ?_, ?_, rfl⟩
  · show "" ++ Text.ofLines s'.machine.output ++ Text.ofLines s'.listing = _
    rw [houtput, hlisting]
    show "" ++ Text.ofLines (#[].push text) ++ Text.ofLines #[] = _
    rw [Text.ofLines_push, Text.ofLines_empty, String.empty_append, String.empty_append,
      String.append_empty]
  · show s'.ledger.stream = ""
    rw [hledger]
    rfl
  · show statusOf s'.ledger = none
    rw [hledger]
    rfl

/-- **String literals survive the scan byte by byte.** In a text, every string token stands where
the text has two quotation marks, and its literal is what is between them there. In any source, the
literal of a string token is the text whose UTF-8 form is between its quotation marks, if there is
such a text. So a text without quotation marks that is printed as a string is written as it is. -/
theorem strings_survive :
    (∀ (text : String) (t : Token), t ∈ (scan (Source.ofText text)).tokens.toList →
      t.kind = .string → ∃ q ∈ placedPieces (Source.ofText text), q.token? = some t ∧
        ∃ before inner behind, text = before ++ ("\"" ++ inner ++ "\"") ++ behind ∧
          q.front = Source.ofText before ∧ t.Quotes inner) ∧
    (∀ (source : Source) (t : Token), t ∈ (scan source).tokens.toList → t.kind = .string →
      ∀ inner : String,
        t.lexeme.toList = '"' :: (Source.ofBytes inner.toByteArray.data.toList ++ ['"']) →
          t.literal = some (.string inner)) ∧
    ∀ text : String, '"' ∉ text.toList → ∀ fuel : Nat,
      (∀ s : Session, s.ledger.hadError = false →
        ∃ s', Session.run fuel (Source.ofText ("print \"" ++ text ++ "\";")) s = .ok none s' ∧
          s'.ledger = s.ledger ∧ s'.machine.output = s.machine.output.push text) ∧
      ∀ (d : Directory) (arguments : List String) (o : Options),
        RunsScript d arguments o ("print \"" ++ text ++ "\";").toByteArray.data.toList →
        TraceKept d o → ∀ input : String,
          (invoke fuel d arguments input).output = text ++ "\n" ∧
          (invoke fuel d arguments input).errors = "" ∧
          (invoke fuel d arguments input).status = none ∧
          (invoke fuel d arguments input).failure = none := by
  refine ⟨fun text t => Source.exists_quotes, fun source t h hkind inner hlexeme => ?_,
    fun text h fuel => ⟨fun s hclear => ?_, fun d arguments o hscript htrace input => ?_⟩⟩
  · exact (Token.quotes_of_lexeme h hkind hlexeme).literal
  · obtain ⟨s', hrun, hledger, -, houtput⟩ := Session.exists_run_printing h fuel hclear
    exact ⟨s', hrun, hledger, houtput⟩
  · exact hscript.invoke_printing h (Source.ofText_eq_ofBytes _).symm htrace input

/-- A letter of two bytes between quotation marks is a string of that letter, and is written as that
letter. -/
theorem strings_survive_of_accent :
    let source := Source.ofText ("print \"" ++ "é" ++ "\";")
    let d : Directory :=
      { files := [("a", ("print \"" ++ "é" ++ "\";").toByteArray.data.toList)] }
    (∃ t ∈ (scan source).tokens.toList, t.kind = .string ∧ t.Quotes "é" ∧
      t.literal = some (.string "é")) ∧
    (∃ s', Session.run 0 source {} = .ok none s' ∧ s'.machine.output = #["é"]) ∧
    (invoke 0 d ["a"] "").output = "é\n" := by
  intro source d
  obtain ⟨htexts, hsources, hprinted⟩ := strings_survive
  have hmark : '"' ∉ "é".toList := by decide
  obtain ⟨hsession, hcommand⟩ := hprinted "é" hmark 0
  refine ⟨?_, ?_, ?_⟩
  · obtain ⟨word, t, closing, hbody, -, hkind, hliteral, -⟩ := Source.exists_body_printing hmark
    have hmem : t ∈ (scan source).tokens.toList := by
      have htokens : (scan source).tokens.toList = [word, t, closing] ++ [endToken source] :=
        hbody ▸ toList_tokens_scan source
      simp [htokens]
    obtain ⟨q, -, -, before, inner, behind, -, -, hquotes⟩ := htexts _ t hmem hkind
    obtain rfl : inner = "é" := by simpa [hliteral] using hquotes.literal.symm
    exact ⟨t, hmem, hkind, hquotes, hsources source t hmem hkind "é" hquotes.lexeme⟩
  · obtain ⟨s', hrun, -, houtput⟩ := hsession {} rfl
    exact ⟨s', hrun, houtput⟩
  · have hscript : RunsScript d ["a"] { script := some "a" }
        ("print \"" ++ "é" ++ "\";").toByteArray.data.toList :=
      ⟨rfl, rfl, ⟨"a", "a", rfl, by decide +kernel, rfl⟩⟩
    exact (hcommand d ["a"] _ hscript (.inl rfl) "").1

end Command

end Lox
