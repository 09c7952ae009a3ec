import Lox.Proofs.Run.Lockstep
import Lox.Proofs.Session.Soundness

/-! # Two sessions that are given the same

Two sessions may differ in what they printed, listed and reported before, and their machines in
something that no program depends on. Given the same program, they do the same with it: what they
print, list and report from then on is the same, and so is how they end.

* **`GrownAlike`** — two streams to which the same lines were added;
* **`Session.Beside`** — two sessions behind the same lines and reports;
* **`Session.Steady`** — what two machines have in common is kept by entries and by programs;
* **`Session.Together`** — an action does the same in two such sessions;
* **`Session.together_run`**, **`Session.together_handle`**, **`Session.endTogether_enterLine`** —
  running and listing a program, and handling a line. -/

namespace Lox

/-! ## Streams and ledgers -/

/-- **Two streams have grown alike** since they were `start` and `start'`: the same lines were added
to both. -/
def GrownAlike (start start' now now' : Array String) : Prop :=
  ∃ lines : List String, now = start ++ lines.toArray ∧ now' = start' ++ lines.toArray

namespace GrownAlike

variable {start start' now now' : Array String}

theorem refl (start start' : Array String) : GrownAlike start start' start start' :=
  ⟨[], by simp, by simp⟩

/-- More lines are added to both streams. -/
theorem append (h : GrownAlike start start' now now') (more : List String) :
    GrownAlike start start' (now ++ more.toArray) (now' ++ more.toArray) := by
  obtain ⟨lines, rfl, rfl⟩ := h
  exact ⟨lines ++ more, by simp, by simp⟩

/-- A line is added to both streams. -/
theorem push (h : GrownAlike start start' now now') (line : String) :
    GrownAlike start start' (now.push line) (now'.push line) := by
  simpa using h.append [line]

/-- Streams that have grown alike from the same beginning are the same. -/
theorem eq (h : GrownAlike start start now now') : now = now' := by
  obtain ⟨lines, rfl, rfl⟩ := h
  rfl

/-- The lines that were added are the same. -/
theorem drop_eq (h : GrownAlike start start' now now') :
    now.toList.drop start.size = now'.toList.drop start'.size := by
  obtain ⟨lines, rfl, rfl⟩ := h
  simp [← Array.length_toList]

end GrownAlike

/-- **Two ledgers report the same**: they hold the same messages and flags, and their streams have
grown alike. -/
structure Ledger.Beside (written written' : Array String) (l l' : Ledger) : Prop where
  messages : l.messages = l'.messages
  hadError : l.hadError = l'.hadError
  hadRuntimeError : l.hadRuntimeError = l'.hadRuntimeError
  grown : GrownAlike written written' l.written l'.written

namespace Ledger.Beside

variable {written written' : Array String} {l l' : Ledger}

theorem refl (l : Ledger) : Beside l.written l.written l l :=
  ⟨rfl, rfl, rfl, .refl _ _⟩

/-- Any two ledgers report the same once they are reset. -/
theorem reset (l l' : Ledger) : Beside l.written l'.written l.reset l'.reset :=
  ⟨rfl, rfl, rfl, .refl _ _⟩

/-- Ledgers that report the same and had written the same are the same. -/
theorem eq (h : Beside written written l l') : l = l' := by
  obtain ⟨messages, hadError, hadRuntimeError, now⟩ := l
  obtain ⟨_, _, _, now'⟩ := l'
  obtain ⟨rfl, rfl, rfl, hgrown⟩ := h
  rw [show now = now' from hgrown.eq]

/-- Both ledgers get lexical errors. -/
theorem foldl_lexical (h : Beside written written' l l') (es : List LexicalError) :
    Beside written written' (es.foldl (fun l e => l.lexical e) l)
      (es.foldl (fun l e => l.lexical e) l') := by
  rw [Ledger.foldl_lexical, Ledger.foldl_lexical, h.messages, h.hadError]
  exact ⟨rfl, rfl, h.hadRuntimeError, h.grown.append _⟩

/-- Both ledgers get the reports of a source. -/
theorem reported (h : Beside written written' l l') (source : Source) :
    Beside written written' (l.reported source) (l'.reported source) := by
  rw [reported_eq, reported_eq, h.messages, h.hadError]
  exact ⟨rfl, rfl, h.hadRuntimeError, h.grown.append _⟩

/-- Both ledgers get a runtime error. -/
theorem aborted (h : Beside written written' l l') (e : RuntimeError) :
    Beside written written' (l.aborted e) (l'.aborted e) :=
  ⟨congrArg (·.push e.render) h.messages, h.hadError, rfl, h.grown.push e.render⟩

end Ledger.Beside

namespace Session

/-! ## Sessions side by side -/

variable {α β : Type} {Q : Machine → Machine → Prop} {start start' s s' : Session} {P : α → Prop}

/-- **Two sessions have done the same** since they were `start` and `start'`: their machines are
related by `Q`, they report the same, and the same lines were listed. -/
structure Beside (Q : Machine → Machine → Prop) (start start' s s' : Session) : Prop where
  machine : Q s.machine s'.machine
  ledger : Ledger.Beside start.ledger.written start'.ledger.written s.ledger s'.ledger
  listing : GrownAlike start.listing start'.listing s.listing s'.listing

/-- **What two machines have in common is steady** if it is kept by adding an entry to both traces
and by running a program that is drawn from tokens, which ends in the same way on both. -/
structure Steady (Q : Machine → Machine → Prop) : Prop where
  note (level : Int) (text : Unit → String) :
    Run.InStep id Q (fun _ => True) (Run.note level text) (Run.note level text)
  program (fuel : Nat) {ts : List Token} {statements : List Stmt}
    (h : Stmt.AllDrawn ts statements) :
    Run.InStep id Q (fun _ => True) (Run.program fuel statements) (Run.program fuel statements)

/-- Whatever lasts through all steps of a run is steady. -/
theorem steady_of_bond (h : Run.Bond Set.univ True Q)
    (hdefining : Run.KeptByDefining Set.univ True Q) : Steady Q where
  note level text := Run.inStep_note h.toLink level text text
  program fuel _ statements _ :=
    Run.inStep_program_self fuel h hdefining (Stmt.allOver_univ statements)

/-- Both machines get an entry. -/
theorem Steady.noted (h : Steady Q) {m m' : Machine} (hq : Q m m') (level : Int)
    (text : Unit → String) :
    Q { m with trace := m.trace.note level text } { m' with trace := m'.trace.note level text } :=
  (h.note level text m m' hq).2.2

/-- Two actions ended in the same way, in sessions related by `R`: with the same answer, one that
`P` allows, or at the same stop. -/
def EndTogether (R : Session → Session → Prop) (P : α → Prop) :
    EStateM.Result Stop Session α → EStateM.Result Stop Session α → Prop
  | .ok a s, .ok a' s' => a = a' ∧ P a ∧ R s s'
  | .error stop s, .error stop' s' => stop = stop' ∧ R s s'
  | _, _ => False

/-- What an action was stopped by. -/
def stop? : EStateM.Result Stop Session α → Option Stop
  | .ok _ _ => none
  | .error stop _ => some stop

/-- Actions that ended in the same way were stopped by the same, and left related sessions. -/
theorem EndTogether.stop?_eq {R : Session → Session → Prop}
    {r r' : EStateM.Result Stop Session α} (h : EndTogether R P r r') :
    stop? r = stop? r' ∧ R (left r) (left r') := by
  cases r with
  | ok a s =>
    cases r' with
    | ok a' s' => exact ⟨rfl, h.2.2⟩
    | error => exact h.elim
  | error stop s =>
    cases r' with
    | ok => exact h.elim
    | error stop' s' => exact ⟨congrArg some h.1, h.2⟩

/-- Less may be asked of the sessions that two actions left. -/
theorem EndTogether.mono {R R' : Session → Session → Prop}
    {r r' : EStateM.Result Stop Session α} (h : EndTogether R P r r')
    (himp : ∀ s s', R s s' → R' s s') : EndTogether R' P r r' := by
  cases r with
  | ok a s =>
    cases r' with
    | ok a' s' => exact ⟨h.1, h.2.1, himp _ _ h.2.2⟩
    | error => exact h.elim
  | error stop s =>
    cases r' with
    | ok => exact h.elim
    | error stop' s' => exact ⟨h.1, himp _ _ h.2⟩

/-- **An action does the same together**: in two sessions that have done the same it ends in the
same way, and then they still have. -/
def Together (Q : Machine → Machine → Prop) (start start' : Session) (P : α → Prop)
    (x : Action α) : Prop :=
  ∀ s s', Beside Q start start' s s' → EndTogether (Beside Q start start') P (x s) (x s')

/-- An answer at hand. -/
theorem together_pure {a : α} (h : P a) : Together Q start start' P (pure a) :=
  fun _ _ hs => ⟨rfl, h, hs⟩

/-- Stopping. -/
theorem together_throw (stop : Stop) : Together Q start start' P (throw stop : Action α) :=
  fun _ _ hs => ⟨rfl, hs⟩

/-- One action after the other. -/
theorem together_bind {x : Action α} {k : α → Action β} {P' : β → Prop}
    (hx : Together Q start start' P x) (hk : ∀ a, P a → Together Q start start' P' (k a)) :
    Together Q start start' P' (x >>= k) := by
  intro s s' hs
  have hres := hx s s' hs
  show EndTogether _ P' (EStateM.bind x k s) (EStateM.bind x k s')
  unfold EStateM.bind
  cases hxs : x s with
  | ok a mid =>
    cases hxs' : x s' with
    | ok a' mid' =>
      rw [hxs, hxs'] at hres
      obtain ⟨rfl, ha, hmid⟩ := hres
      exact hk a ha mid mid' hmid
    | error stop' mid' =>
      rw [hxs, hxs'] at hres
      exact hres.elim
  | error stop mid =>
    cases hxs' : x s' with
    | ok a' mid' =>
      rw [hxs, hxs'] at hres
      exact hres.elim
    | error stop' mid' =>
      rw [hxs, hxs'] at hres
      exact hres

/-- The same for each entry of a list. -/
theorem together_forIn {entries : List α} {f : α → PUnit → Action (ForInStep PUnit)}
    (hf : ∀ a, Together Q start start' (fun _ => True) (f a ⟨⟩)) :
    Together Q start start' (fun _ => True) (forIn entries ⟨⟩ f) := by
  induction entries with
  | nil => exact together_pure trivial
  | cons a rest ih =>
    rw [List.forIn_cons]
    refine together_bind (hf a) fun r _ => ?_
    -- the loop is left, or it goes on
    cases r with
    | done _ => exact together_pure trivial
    | yield _ => exact ih

/-- Listing a line. -/
theorem together_list (line : String) :
    Together Q start start' (fun _ => True) (list line) :=
  fun _ _ hs => ⟨rfl, trivial, hs.machine, hs.ledger, hs.listing.push line⟩

/-! ## Reading, running and listing -/

/-- Scanning reports the lexical errors. -/
theorem readTokens_eq (source : Source) (s : Session) :
    readTokens source s = .ok source.tokens
      { s with ledger := source.lexicalErrors.foldl (fun l e => l.lexical e) s.ledger } := by
  simp only [Source.lexicalErrors, Array.foldl_toList]
  rfl

/-- Whatever statements reading answers, they are drawn from the tokens of the source. -/
theorem allDrawn_of_statements? {source : Source} {statements : List Stmt}
    (h : Grammar.statements? source.tokens = some statements) :
    Stmt.AllDrawn source.body statements := by
  have hnone : Grammar.syntaxError? source.tokens = none :=
    (Grammar.syntaxError?_eq_none_iff source.ended_tokens).2 ⟨statements, h⟩
  have hnothing : source.syntaxErrors = [] := by
    rw [Source.syntaxErrors, hnone]
    rfl
  have hdrawn := Source.allDrawn_statements hnothing
  rwa [Source.statements, h] at hdrawn

/-- Scanning a source. -/
theorem together_readTokens (source : Source) :
    Together Q start start' (fun _ => True) (readTokens source) := by
  intro s s' hs
  rw [readTokens_eq, readTokens_eq]
  exact ⟨rfl, trivial, hs.machine, hs.ledger.foldl_lexical _, hs.listing⟩

/-- Listing the tokens of a source. -/
theorem together_listTokens (source : Source) :
    Together Q start start' (fun _ => True) (listTokens source) :=
  together_bind (together_readTokens source) fun _ _ =>
    together_bind (together_forIn fun _ =>
      together_bind (together_list _) fun _ _ => together_pure trivial) fun _ _ =>
        together_pure trivial

section Steady

variable (h : Steady Q)
include h

/-- Reading a program, whose statements are drawn from its tokens. -/
theorem together_readProgram (source : Source) :
    Together Q start start' (fun found => ∀ statements, found = some statements →
      Stmt.AllDrawn source.body statements) (readProgram source) := by
  intro s s' hs
  have hreported := hs.ledger.reported source
  rw [readProgram_eq, readProgram_eq, ← hreported.hadError]
  refine ⟨rfl, fun statements hfound => ?_, h.noted hs.machine _ _, hreported, hs.listing⟩
  split at hfound
  · cases hfound
  · exact allDrawn_of_statements? hfound

/-- Running statements that are drawn from tokens. -/
theorem together_runStatements (fuel : Nat) {ts : List Token} {statements : List Stmt}
    (hdrawn : Stmt.AllDrawn ts statements) :
    Together Q start start' (fun _ => True) (runStatements fuel statements) := by
  intro s s' hs
  unfold runStatements
  rcases (h.program fuel hdrawn _ _ hs.machine).ok_or_error with
    ⟨v, m, m', hres, hres', -, hm⟩ | ⟨stop, m, m', hres, hres', hm⟩
  · rw [hres, hres']
    exact ⟨rfl, trivial, h.noted hm _ _, hs.ledger, hs.listing⟩
  · rw [hres, hres', stop.moved_id]
    cases stop with
    | error e => exact ⟨rfl, trivial, h.noted hm _ _, hs.ledger.aborted e, hs.listing⟩
    | fault f => exact ⟨rfl, hm, hs.ledger, hs.listing⟩
    | exhausted => exact ⟨rfl, hm, hs.ledger, hs.listing⟩

/-- **Running a program.** -/
theorem together_run (fuel : Nat) (source : Source) :
    Together Q start start' (fun _ => True) (run fuel source) := by
  refine together_bind (together_readProgram h source) fun found hfound => ?_
  cases found with
  | none => exact together_pure trivial
  | some statements => exact together_runStatements h fuel (hfound statements rfl)

/-- Listing the statements of a program. -/
theorem together_listStatements (source : Source) :
    Together Q start start' (fun _ => True) (listStatements source) := by
  refine together_bind (together_readProgram h source) fun _ _ =>
    together_bind (together_forIn fun s => ?_) fun _ _ => together_pure trivial
  split
  · exact together_bind (together_list _) fun _ _ => together_pure trivial
  · exact together_bind (P := fun _ => True) (together_throw _) fun _ _ => together_pure trivial

/-- **Handling a program** in any mode. -/
theorem together_handle (fuel : Nat) (mode : Mode) (source : Source) :
    Together Q start start' (fun _ => True) (handle fuel mode source) := by
  cases mode with
  | run => exact together_bind (together_run h fuel source) fun _ _ => together_pure trivial
  | tokens => exact together_listTokens source
  | tree => exact together_listStatements h source

/-- **Handling a line**, whatever was reported before. -/
theorem endTogether_enterLine (hq : Q s.machine s'.machine) (fuel : Nat) (mode : Mode)
    (line : String) :
    EndTogether (Beside Q s s') (fun _ => True) (enterLine fuel mode line s)
      (enterLine fuel mode line s') :=
  together_handle h fuel mode (Source.ofText line) _ _
    ⟨hq, .reset s.ledger s'.ledger, .refl _ _⟩

end Steady

end Session

end Lox
