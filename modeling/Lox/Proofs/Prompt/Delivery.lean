import Mathlib.Data.List.DropRight
import Lox.Prompt
import Lox.Proofs.Outcomes

/-! # What the prompt hands over

At the prompt every line is handed over that shows something: first the lines of the queue, then
those of the standard input, in their order and once each. What a line says makes no difference to
the prompt; only the end of the input ends it.

* **`Prompt.linesOf`** — the lines of a standard input;
* **`Prompt.Deed`**, **`Prompt.deeds`** — a text is written or a line is handed over, and all that is
  done at the prompt, in order;
* **`Console.loop_eq`** — one pass of the loop: a line is read and handled, or the prompt ends;
* **`Console.loop_eq_deeds`** — the loop does just these deeds;
* **`Console.hands_over_every_line`** — which lines are handed over, and what is written. -/

namespace Lox

/-! ## The lines of an input -/

namespace Prompt

variable {line back : List Char}

/-- What stands between the line ends of an input, and what follows the last one if anything
does. -/
def unstrippedLines (input : List Char) : List (List Char) :=
  if (input.splitOn '\n').getLast? = some [] then (input.splitOn '\n').dropLast
  else input.splitOn '\n'

/-- A line without the carriage returns and line ends at its end. -/
def stripped (line : List Char) : String :=
  String.ofList (line.rdropWhile fun c => c = '\r' || c = '\n')

/-- **The lines of a standard input**, without what ends them. -/
def linesOf (input : List Char) : List String := (unstrippedLines input).map stripped

/-- An empty input has no line. -/
@[simp] theorem linesOf_nil : linesOf [] = [] := rfl

/-- The last line of an input may go without a line end. -/
theorem linesOf_last (hline : line ≠ []) (h : '\n' ∉ line) : linesOf line = [stripped line] := by
  rw [linesOf, unstrippedLines, List.splitOn_eq_singleton h, if_neg (by simpa using hline)]
  rfl

/-- A line end closes the line in front of it. -/
theorem linesOf_append (h : '\n' ∉ line) (back : List Char) :
    linesOf (line ++ '\n' :: back) = stripped line :: linesOf back := by
  rw [linesOf, linesOf, unstrippedLines, unstrippedLines,
    List.splitOn_append_cons_self_of_not_mem h back]
  obtain ⟨piece, pieces, hpieces⟩ := List.exists_cons_of_ne_nil (List.splitOn_ne_nil '\n' back)
  rw [hpieces, List.getLast?_cons_cons, List.dropLast_cons_cons]
  split <;> rfl

/-- The line that is read is the part in front of the first line end. -/
theorem firstLine_append (h : '\n' ∉ line) (back : List Char) :
    firstLine (line ++ '\n' :: back) = (line, back) := by
  have hfront : ∀ c ∈ line, decide (c ≠ '\n') = true := fun c hc => by
    simpa using ne_of_mem_of_not_mem hc h
  rw [firstLine, List.takeWhile_append_of_pos hfront, List.dropWhile_append_of_pos hfront]
  simp

/-- Without a line end, everything is read. -/
theorem firstLine_last (h : '\n' ∉ line) : firstLine line = (line, []) := by
  have hfront : ∀ c ∈ line, decide (c ≠ '\n') = true := fun c hc => by
    simpa using ne_of_mem_of_not_mem hc h
  rw [firstLine, List.takeWhile_eq_self_iff.2 hfront, List.dropWhile_eq_nil_iff.2 hfront]
  rfl

/-- What is dropped from a list depends on the elements of the list only. -/
theorem dropWhile_congr {p q : Char → Bool} {cs : List Char} (h : ∀ c ∈ cs, p c = q c) :
    cs.dropWhile p = cs.dropWhile q := by
  induction cs with
  | nil => rfl
  | cons c cs ih =>
    obtain ⟨hc, hcs⟩ := List.forall_mem_cons.1 h
    rw [List.dropWhile_cons, List.dropWhile_cons, hc, ih hcs]

/-- A line that is not taken as it is, is stripped. -/
theorem lineText_eq_stripped (h : '\n' ∉ line) : lineText false line = stripped line := by
  have hends : ∀ c ∈ line.reverse, decide (c = '\r') = (decide (c = '\r') || decide (c = '\n')) :=
    fun c hc => by simp [ne_of_mem_of_not_mem (List.mem_reverse.1 hc) h]
  rw [lineText, stripped, List.rdropWhile, dropWhile_congr hends]
  rfl

/-! ## Deeds -/

/-- What is done at the prompt: a text is written to the standard output, or a line is handed over
to be handled. -/
inductive Deed
  | wrote (text : String)
  | handed (line : String)
deriving DecidableEq, Repr

/-- The text that is written. -/
def Deed.text? : Deed → Option String
  | wrote text => some text
  | handed _ => none

/-- The line that is handed over. -/
def Deed.line? : Deed → Option String
  | wrote _ => none
  | handed line => some line

/-- A line is handed over if it shows something. -/
def handing (line : String) : List Deed := if Text.isBlankLine line then [] else [.handed line]

/-- **All that is done at the prompt**: the lines of the queue are handed over. Each line of the
standard input is asked for before it is, and so is the end of the input, behind which a new line is
begun. -/
def deeds (queue lines : List String) : List Deed :=
  queue.flatMap handing ++
    (lines.flatMap (fun line => .wrote Console.promptText :: handing line) ++
      [.wrote Console.promptText, .wrote "\n"])

theorem deeds_cons (line : String) (queue lines : List String) :
    deeds (line :: queue) lines = handing line ++ deeds queue lines := by
  simp [deeds]

theorem deeds_nil_cons (line : String) (lines : List String) :
    deeds [] (line :: lines) =
      .wrote Console.promptText :: (handing line ++ deeds [] lines) := by
  simp [deeds]

theorem deeds_nil_nil : deeds [] [] = [.wrote Console.promptText, .wrote "\n"] := rfl

theorem filterMap_line?_handing (line : String) :
    (handing line).filterMap Deed.line? = [line].filter fun line => !Text.isBlankLine line := by
  rw [handing]
  cases h : Text.isBlankLine line <;> simp [h, Deed.line?]

theorem filterMap_text?_handing (line : String) : (handing line).filterMap Deed.text? = [] := by
  rw [handing]
  split <;> rfl

/-- **The lines that are handed over** are those that show something. -/
theorem filterMap_line?_deeds (queue lines : List String) :
    (deeds queue lines).filterMap Deed.line? =
      (queue ++ lines).filter fun line => !Text.isBlankLine line := by
  induction queue with
  | cons line queue ih =>
    rw [deeds_cons, List.filterMap_append, ih, filterMap_line?_handing, ← List.filter_append]
    rfl
  | nil =>
    induction lines with
    | nil => rfl
    | cons line lines ih =>
      rw [deeds_nil_cons, List.filterMap_cons_none rfl, List.filterMap_append, ih,
        filterMap_line?_handing, ← List.filter_append]
      rfl

/-- **The texts that are written** ask for every line of the standard input once, and for the
end. -/
theorem filterMap_text?_deeds (queue lines : List String) :
    (deeds queue lines).filterMap Deed.text? =
      List.replicate (lines.length + 1) Console.promptText ++ ["\n"] := by
  induction queue with
  | cons line queue ih =>
    rw [deeds_cons, List.filterMap_append, ih, filterMap_text?_handing, List.nil_append]
  | nil =>
    induction lines with
    | nil => rfl
    | cons line lines ih =>
      have htail : (handing line ++ deeds [] lines).filterMap Deed.text? =
          List.replicate (lines.length + 1) Console.promptText ++ ["\n"] := by
        rw [List.filterMap_append, ih, filterMap_text?_handing, List.nil_append]
      rw [deeds_nil_cons, List.length_cons, List.replicate_succ, List.cons_append, ← htail]
      rfl

end Prompt

namespace Console

variable {ε : Type} {handle : String → Action ε Unit}

/-- What a deed does, with a way to handle lines. -/
def perform (handle : String → Action ε Unit) : Prompt.Deed → Action ε Unit
  | .wrote text => write text
  | .handed line => handle line

/-- What deeds do, one after the other. -/
def performAll (handle : String → Action ε Unit) (deeds : List Prompt.Deed) : Action ε Unit :=
  deeds.forM (perform handle)

theorem performAll_cons (handle : String → Action ε Unit) (d : Prompt.Deed)
    (deeds : List Prompt.Deed) :
    performAll handle (d :: deeds) = (do perform handle d; performAll handle deeds) := rfl

theorem performAll_append (handle : String → Action ε Unit) (front back : List Prompt.Deed) :
    performAll handle (front ++ back) =
      (do performAll handle front; performAll handle back) :=
  List.forM_append

/-- A line that is entered is handed over if it shows something. -/
theorem enter_eq_performAll (handle : String → Action ε Unit) (line : String) :
    enter handle line = performAll handle (Prompt.handing line) := by
  rw [enter, Prompt.handing]
  split
  · rfl
  · simp [performAll, perform]

/-! ## The loop -/

/-- **One pass of the loop.** A line of the standard input is asked for. The line that is read is
handled, and the loop goes on behind it; if there is none, the prompt ends. -/
theorem loop_eq (handle : String → Action ε Unit) (p : Prompt) :
    loop handle p = (do
      if p.asks then write promptText
      match p.read with
      | (some line, rest) => do
        enter handle line
        loop handle rest
      | (none, _) => finish) := by
  obtain ⟨queue, input, raw⟩ := p
  cases queue with
  | cons line queue => simp [loop, Prompt.events, Prompt.read, Prompt.asks, respond]
  | nil =>
    cases input with
    | nil => simp [loop, Prompt.events, Prompt.inputEvents, Prompt.read, Prompt.asks, respond]
    | cons c rest =>
      simp [loop, Prompt.events, Prompt.inputEvents, Prompt.read, Prompt.asks, respond]

/-- A line of the queue is handled without being asked for. -/
theorem loop_queued (handle : String → Action ε Unit) (line : String) (queue : List String)
    (input : List Char) :
    loop handle { queue := line :: queue, input := input } =
      (do enter handle line; loop handle { queue := queue, input := input }) := by
  rw [loop_eq]
  rfl

/-- At the end of the input the prompt ends. -/
theorem loop_ended (handle : String → Action ε Unit) :
    loop handle {} = performAll handle (Prompt.deeds [] []) := by
  rw [loop_eq, Prompt.deeds_nil_nil, performAll_cons, performAll_cons]
  rfl

/-- A line of the standard input is asked for and handled. -/
theorem loop_asked (handle : String → Action ε Unit) {input line rest : List Char}
    (hinput : input ≠ []) (hline : '\n' ∉ line) (hread : Prompt.firstLine input = (line, rest)) :
    loop handle { input := input } = (do
      write promptText
      enter handle (Prompt.stripped line)
      loop handle { input := rest }) := by
  obtain ⟨c, cs, rfl⟩ := List.exists_cons_of_ne_nil hinput
  rw [loop_eq, ← Prompt.lineText_eq_stripped hline]
  simp only [Prompt.read, hread]
  rfl

/-- **The loop does the deeds of the prompt.** The induction is on the queue, and then on the length
of the input, of which each pass takes a line. -/
theorem loop_eq_deeds (handle : String → Action ε Unit) (queue : List String) (input : List Char) :
    loop handle { queue := queue, input := input } =
      performAll handle (Prompt.deeds queue (Prompt.linesOf input)) := by
  induction queue with
  | cons line queue ih =>
    rw [loop_queued, ih, enter_eq_performAll, Prompt.deeds_cons, performAll_append]
  | nil =>
    induction hn : input.length using Nat.strongRecOn generalizing input with
    | ind n ih =>
      by_cases hend : '\n' ∈ input
      · obtain ⟨line, back, rfl, hline⟩ := List.eq_append_cons_of_mem hend
        have hback : back.length < n := by
          rw [← hn, List.length_append, List.length_cons]
          omega
        rw [loop_asked handle (by simp) hline (Prompt.firstLine_append hline back),
          ih _ hback back rfl, enter_eq_performAll, Prompt.linesOf_append hline,
          Prompt.deeds_nil_cons, performAll_cons, performAll_append]
        rfl
      · by_cases hinput : input = []
        · rw [hinput, loop_ended, Prompt.linesOf_nil]
        · rw [loop_asked handle hinput hend (Prompt.firstLine_last hend), loop_ended,
            enter_eq_performAll, Prompt.linesOf_last hinput hend, Prompt.deeds_nil_cons,
            performAll_cons, performAll_append]
          rfl

/-! ## Lines that are handled without a stop -/

/-- Where handling lines returns, so does all that is done at the prompt. -/
theorem exists_performAll_eq_ok (hreturns : ∀ line c, ∃ c', handle line c = .ok () c')
    (deeds : List Prompt.Deed) (c : Console) :
    ∃ c', performAll handle deeds c = .ok () c' := by
  induction deeds generalizing c with
  | nil => exact ⟨c, rfl⟩
  | cons d deeds ih =>
    obtain ⟨mid, hmid⟩ : ∃ mid, perform handle d c = .ok () mid := by
      cases d with
      | wrote text => exact ⟨_, rfl⟩
      | handed line => exact hreturns line c
    obtain ⟨c', hc'⟩ := ih mid
    exact ⟨c', (bind_eq_of_eq_ok hmid _).trans hc'⟩

/-- Where handling lines writes nothing, the texts that the prompt writes are all there is. -/
theorem written_of_performAll
    (hquiet : ∀ line c c', handle line c = .ok () c' → c'.written = c.written)
    {deeds : List Prompt.Deed} {c c' : Console} (h : performAll handle deeds c = .ok () c') :
    c'.written = c.written ++ String.join (deeds.filterMap Prompt.Deed.text?) := by
  induction deeds generalizing c with
  | nil =>
    cases h
    simp
  | cons d deeds ih =>
    rw [performAll_cons] at h
    obtain ⟨_, mid, hmid, hrest⟩ := bind_eq_ok_iff.1 h
    rw [ih hrest]
    cases d with
    | wrote text =>
      cases hmid
      simp [Prompt.Deed.text?, String.append_assoc]
    | handed line =>
      rw [hquiet line c mid hmid]
      rfl

/-- **Every line is handed over once, in order.** Where handling lines returns, so does the loop, on
any queue and any input, and it does nothing but the deeds of the prompt. What it hands over are the
lines of the queue and then those of the input, less the blank ones, whatever they say. What it
writes itself are a prompt text for each line of the input, one more for its end, and a line end;
nothing else is on the standard output if handling lines writes nothing to it. -/
theorem hands_over_every_line {handle : String → Action ε Unit}
    (hreturns : ∀ line c, ∃ c', handle line c = .ok () c') (queue : List String) (input : String)
    (c : Console) :
    let lines := Prompt.linesOf input.toList
    let deeds := Prompt.deeds queue lines
    ∃ c', loop handle { queue := queue, input := input.toList } c = .ok () c' ∧
      performAll handle deeds c = .ok () c' ∧
      deeds.filterMap Prompt.Deed.line? =
        ((queue ++ lines).filter fun line => !Text.isBlankLine line) ∧
      deeds.filterMap Prompt.Deed.text? =
        List.replicate (lines.length + 1) promptText ++ ["\n"] ∧
      ((∀ line c c', handle line c = .ok () c' → c'.written = c.written) →
        c'.written =
          c.written ++ String.join (List.replicate (lines.length + 1) promptText) ++ "\n") := by
  intro lines deeds
  obtain ⟨c', hc'⟩ := exists_performAll_eq_ok hreturns deeds c
  have htexts := Prompt.filterMap_text?_deeds queue lines
  refine ⟨c', ?_, hc', Prompt.filterMap_line?_deeds queue lines, htexts, fun hquiet => ?_⟩
  · rw [loop_eq_deeds]
    exact hc'
  · rw [written_of_performAll hquiet hc', htexts, String.append_assoc]
    simp

/-- Lines that are handled by listing them are listed in order: a line of the queue, and the three
lines of the input that show something, the last of which has no line end. -/
theorem hands_over_every_line_of_listing :
    let handle : String → Action Stop Unit := fun line c =>
      .ok () { c with session := { c.session with listing := c.session.listing.push line } }
    let queue := ["var a = 1;", " "]
    let input := "EOF\n\nquit\r\nhelp"
    (∀ line c, ∃ c', handle line c = .ok () c') ∧
    ∃ c', loop handle { queue := queue, input := input.toList } { session := {} } = .ok () c' ∧
      c'.session.listing = #["var a = 1;", "EOF", "quit", "help"] ∧
      c'.written = "> > > > > \n" := by
  intro handle queue input
  have hreturns : ∀ line c, ∃ c', handle line c = .ok () c' := fun _ _ => ⟨_, rfl⟩
  obtain ⟨c', hloop, hdeeds, -, -, hwritten⟩ :=
    hands_over_every_line hreturns queue input { session := {} }
  have hlines : Prompt.linesOf input.toList = ["EOF", "", "quit", "help"] := by decide +kernel
  refine ⟨hreturns, c', hloop, ?_, ?_⟩
  · rw [hlines] at hdeeds
    cases hdeeds
    rfl
  · rw [hwritten fun _ _ _ h => by cases h; rfl, hlines]
    decide +kernel

end Console

end Lox
