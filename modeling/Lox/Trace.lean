/-! # Trace entries

A run can keep a trace of what it does. Each entry has a level: phase summaries are of level 1,
definitions and assignments of level 2, branches, loops and blocks of level 3, prints and evaluated
expressions of level 4. A trace of level `n` keeps the entries of the levels 1 to `n`. -/

namespace Lox

/-- One line of a trace. -/
structure TraceEntry where
  level : Int
  text : String
deriving DecidableEq, Repr

/-- The trace of a run: the level it is kept at, and its entries. -/
structure Trace where
  level : Int := 0
  entries : Array TraceEntry := #[]
deriving DecidableEq, Repr

/-- A trace of level `level` keeps entries of level `l`. -/
def keepsLevel (level l : Int) : Bool := 0 < l && l ≤ level

namespace Trace

/-- Adds an entry if its level is kept; its text is made only then. -/
def note (l : Int) (text : Unit → String) (t : Trace) : Trace :=
  if keepsLevel t.level l then { t with entries := t.entries.push ⟨l, text ()⟩ } else t

@[simp] theorem level_note (l : Int) (text : Unit → String) (t : Trace) :
    (t.note l text).level = t.level := by
  unfold note
  split <;> rfl

/-- An entry of a level that is not kept leaves the trace as it was. -/
theorem note_of_not_keepsLevel {l : Int} {t : Trace} (text : Unit → String)
    (h : keepsLevel t.level l = false) : t.note l text = t := by
  simp [note, h]

end Trace

end Lox
