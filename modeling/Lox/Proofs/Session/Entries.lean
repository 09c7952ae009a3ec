import Lox.Proofs.Run.Blind
import Lox.Proofs.Session.Together

/-! # What a session answers to lines

A session that is given lines answers each of them: with the lines that it prints, lists and writes
for errors, and with the messages and flags that it leaves. All this depends on what was given before
through the scopes only, and through the level that the trace is kept at.

* **`Session.Entry`**, **`Session.Response`** — a line, and what handling it shows;
* **`Session.behind`**, **`Session.responses`** — the session behind lines, and what handling them
  shows;
* **`Session.Peers`** — two sessions with the same scopes, traced at the same level;
* **`Session.Peers.responses_eq`** — such sessions answer the same. -/

namespace Lox

/-! ## Machines behind the same lines -/

/-- **Two machines that print the same** since their output was `output` and `output'`: their scopes
are the same, and their traces are kept at the same level. -/
structure Machine.Beside (output output' : Array String) (m m' : Machine) : Prop where
  chain : m.chain = m'.chain
  level : m.trace.level = m'.trace.level
  grown : GrownAlike output output' m.output m'.output

namespace Run

variable {output output' : Array String}

/-- That they print the same is a bond between machines. -/
theorem bond_beside : Bond Set.univ True (Machine.Beside output output') where
  get?_eq h _ _ := by rw [h.chain]
  shown _ _ _ _ _ := .inl trivial
  assign h _ _ _ _ _ _ hc hc' := by
    rw [h.chain, hc'] at hc
    cases hc
    exact ⟨rfl, h.level, h.grown⟩
  print h line := ⟨h.chain, h.level, h.grown.push line⟩
  trace h _ _ ht ht' := ⟨h.chain, ht.trans (h.level.trans ht'.symm), h.grown⟩
  level h _ := h.level

/-- Machines that print the same still do when both define a name. -/
theorem keptByDefining_beside :
    KeptByDefining Set.univ True (Machine.Beside output output') :=
  fun _ _ h x _ v _ => ⟨congrArg (Chain.define x v) h.chain, h.level, h.grown⟩

end Run

namespace Session

variable {s s' s'' : Session}

/-! ## Lines and what they show -/

/-- A line of input, and what is to be done with it. -/
structure Entry where
  mode : Mode
  line : String

/-- **What handling a line shows**: the lines that are printed, listed and written for errors, the
messages and the flags, and what stopped it if it was broken off. -/
structure Response where
  printed : List String
  listed : List String
  written : List String
  messages : Array String
  hadError : Bool
  hadRuntimeError : Bool
  stop : Option Stop

/-- The session behind a line, however handling it ended. -/
def next (fuel : Nat) (s : Session) (entry : Entry) : Session :=
  left (enterLine fuel entry.mode entry.line s)

/-- **What handling a line shows.** -/
def response (fuel : Nat) (s : Session) (entry : Entry) : Response where
  printed := (next fuel s entry).machine.output.toList.drop s.machine.output.size
  listed := (next fuel s entry).listing.toList.drop s.listing.size
  written := (next fuel s entry).ledger.written.toList.drop s.ledger.written.size
  messages := (next fuel s entry).ledger.messages
  hadError := (next fuel s entry).ledger.hadError
  hadRuntimeError := (next fuel s entry).ledger.hadRuntimeError
  stop := stop? (enterLine fuel entry.mode entry.line s)

/-- **The session behind lines**, handled one after the other. -/
def behind (fuel : Nat) (entries : List Entry) (s : Session) : Session :=
  entries.foldl (next fuel) s

/-- **What handling lines shows**, one after the other. -/
def responses (fuel : Nat) : List Entry → Session → List Response
  | [], _ => []
  | entry :: rest, s => response fuel s entry :: responses fuel rest (next fuel s entry)

@[simp] theorem behind_nil (fuel : Nat) (s : Session) : behind fuel [] s = s := rfl

@[simp] theorem behind_cons (fuel : Nat) (entry : Entry) (entries : List Entry) (s : Session) :
    behind fuel (entry :: entries) s = behind fuel entries (next fuel s entry) := rfl

theorem behind_append (fuel : Nat) (before after : List Entry) (s : Session) :
    behind fuel (before ++ after) s = behind fuel after (behind fuel before s) :=
  List.foldl_append

/-! ## Sessions with the same scopes -/

/-- **Two sessions are peers** if their scopes are the same and their traces are kept at the same
level. What they printed and reported may differ. -/
structure Peers (s s' : Session) : Prop where
  chain : s.machine.chain = s'.machine.chain
  level : s.machine.trace.level = s'.machine.trace.level

namespace Peers

theorem refl (s : Session) : s.Peers s := ⟨rfl, rfl⟩

theorem trans (h : s.Peers s') (h' : s'.Peers s'') : s.Peers s'' :=
  ⟨h.chain.trans h'.chain, h.level.trans h'.level⟩

/-- Peers handle a line together. -/
theorem endTogether (h : s.Peers s') (fuel : Nat) (entry : Entry) :
    EndTogether (Beside (Machine.Beside s.machine.output s'.machine.output) s s') (fun _ => True)
      (enterLine fuel entry.mode entry.line s) (enterLine fuel entry.mode entry.line s') :=
  endTogether_enterLine (steady_of_bond Run.bond_beside Run.keptByDefining_beside)
    ⟨h.chain, h.level, .refl _ _⟩ fuel entry.mode entry.line

/-- **Peers answer a line in the same way**, and are peers behind it. -/
theorem response_eq (h : s.Peers s') (fuel : Nat) (entry : Entry) :
    response fuel s entry = response fuel s' entry ∧
      (next fuel s entry).Peers (next fuel s' entry) := by
  obtain ⟨hstop, hbeside⟩ := (h.endTogether fuel entry).stop?_eq
  change Beside _ s s' (next fuel s entry) (next fuel s' entry) at hbeside
  refine ⟨?_, hbeside.machine.chain, hbeside.machine.level⟩
  unfold response
  rw [hstop, hbeside.machine.grown.drop_eq, hbeside.listing.drop_eq, hbeside.ledger.grown.drop_eq,
    hbeside.ledger.messages, hbeside.ledger.hadError, hbeside.ledger.hadRuntimeError]

/-- **Peers answer lines in the same way**, and are peers behind them. -/
theorem responses_eq (h : s.Peers s') (fuel : Nat) (entries : List Entry) :
    responses fuel entries s = responses fuel entries s' ∧
      (behind fuel entries s).Peers (behind fuel entries s') := by
  induction entries generalizing s s' with
  | nil => exact ⟨rfl, h⟩
  | cons entry entries ih =>
    obtain ⟨hresponse, hnext⟩ := h.response_eq fuel entry
    obtain ⟨hrest, hbehind⟩ := ih hnext
    exact ⟨by rw [responses, responses, hresponse, hrest], hbehind⟩

end Peers

end Session

end Lox
