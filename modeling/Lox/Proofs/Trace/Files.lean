import Lox.Trace.File

/-! # What a trace file holds

A trace may be closed at any time, and is opened again by its next entry. However entries and
closings follow each other, the file holds the entries of the levels that are kept and nothing else:
what it held before the first of them is gone, and none of them is lost later. Without such an entry
the file is not touched.

* **`TraceFile.Call`**, **`TraceFile.behind`** — an entry or a closing, and the file behind several
  of them;
* **`TraceFile.keptTexts`** — the entries whose levels are kept;
* **`TraceFile.Keeps`** — the invariant of the file, its handle and its flag;
* **`TraceFile.holds_kept_entries`** — what the file holds;
* **`TraceFile.contents_close_logAll`** — what a whole trace leaves in its file. -/

namespace Lox.TraceFile

variable {level : Int} {initial : Option String} {texts : List String} {f : TraceFile}

/-- What is done with a trace file: an entry of some level is logged, or the file is closed. -/
inductive Call
  | log (level : Int) (text : String)
  | close
deriving DecidableEq, Repr

/-- The file behind a call. -/
def next (f : TraceFile) : Call → TraceFile
  | .log l text => f.log l text
  | .close => f.close

/-- **The file behind calls**, one after the other. -/
def behind (calls : List Call) (f : TraceFile) : TraceFile := calls.foldl next f

/-- The text of an entry whose level `l` is kept in a trace of a given level. -/
def Call.keptText? (level : Int) : Call → Option String
  | log l text => if 0 < l ∧ l ≤ level then some text else none
  | close => none

/-- **The entries whose levels are kept**, in order. -/
def keptTexts (level : Int) (calls : List Call) : List String :=
  calls.filterMap (Call.keptText? level)

theorem keptTexts_cons (level : Int) (call : Call) (calls : List Call) :
    keptTexts level (call :: calls) =
      (call.keptText? level).toList ++ keptTexts level calls := by
  rw [keptTexts, List.filterMap_cons]
  cases call.keptText? level <;> rfl

/-- Entries as the file holds them, each on a line of its own. -/
def written (texts : List String) : String := String.join (texts.map (· ++ "\n"))

/-- A further entry stands behind the ones before it. -/
theorem written_append (texts : List String) (text : String) :
    written (texts ++ [text]) = written texts ++ text ++ "\n" := by
  simp [written, String.append_assoc]

/-! ## The invariant -/

/-- **A file keeps entries** that were written to it: it holds them, and what it held at first if
there is none. The trace has opened it before if there is one, and it is open only then. -/
structure Keeps (level : Int) (initial : Option String) (texts : List String) (f : TraceFile) :
    Prop where
  level_eq : f.level = level
  contents_eq : f.contents = if texts = [] then initial else some (written texts)
  started_iff : f.started = true ↔ texts ≠ []
  started_of_isOpen : f.isOpen = true → f.started = true

namespace Keeps

/-- At first there is no entry. -/
theorem init (level : Int) (initial : Option String) :
    Keeps level initial [] { level := level, contents := initial } :=
  ⟨rfl, rfl, by simp, by simp⟩

/-- A file that was opened before holds the entries. -/
theorem contents_of_started (h : Keeps level initial texts f) (hstarted : f.started = true) :
    f.contents = some (written texts) := by
  rw [h.contents_eq, if_neg (h.started_iff.1 hstarted)]

/-- **An open file** holds the entries and nothing else. It is emptied when it is opened for the
first time, which is when there is no entry yet, and not again. -/
theorem contents_opened (h : Keeps level initial texts f) :
    f.opened.contents = some (written texts) := by
  unfold opened
  split
  · rename_i hopen
    exact h.contents_of_started (h.started_of_isOpen hopen)
  · split
    · rename_i hstarted
      rw [h.contents_of_started hstarted]
      rfl
    · rename_i hstarted
      have hnone : texts = [] := Decidable.not_not.1 (mt h.started_iff.2 hstarted)
      rw [hnone]
      rfl

/-- An open file was opened before. -/
theorem started_opened (h : Keeps level initial texts f) : f.opened.started = true := by
  unfold opened
  split
  · rename_i hopen
    exact h.started_of_isOpen hopen
  · rfl

/-- **An entry** of a level that is kept is written behind the others. -/
theorem log_of_kept (h : Keeps level initial texts f) {l : Int} (hl : 0 < l ∧ l ≤ level)
    (text : String) : Keeps level initial (texts ++ [text]) (f.log l text) := by
  have hkept : keepsLevel f.level l = true := by simpa [keepsLevel, h.level_eq] using hl
  have hlog : f.log l text = f.opened.write text := if_pos hkept
  refine ⟨(level_log l text f).trans h.level_eq, ?_, ?_, fun _ => ?_⟩
  · rw [if_neg (by simp), written_append, hlog, write, h.contents_opened]
    rfl
  · rw [hlog]
    exact iff_of_true h.started_opened (by simp)
  · rw [hlog]
    exact h.started_opened

/-- An entry of any other level changes nothing. -/
theorem log_of_not_kept (h : Keeps level initial texts f) {l : Int} (hl : ¬ (0 < l ∧ l ≤ level))
    (text : String) : Keeps level initial texts (f.log l text) := by
  have hkept : ¬ keepsLevel f.level l = true := by simpa [keepsLevel, h.level_eq] using hl
  have hlog : f.log l text = f := if_neg hkept
  rwa [hlog]

/-- A file that is closed keeps what it holds. -/
theorem close (h : Keeps level initial texts f) : Keeps level initial texts f.close :=
  ⟨h.level_eq, h.contents_eq, h.started_iff, fun hopen => by cases hopen⟩

/-- **One call** adds an entry if its level is kept, and nothing else. -/
theorem next (h : Keeps level initial texts f) (call : Call) :
    Keeps level initial (texts ++ (call.keptText? level).toList) (f.next call) := by
  cases call with
  | close =>
    rw [Call.keptText?, Option.toList_none, List.append_nil]
    exact h.close
  | log l text =>
    rw [Call.keptText?]
    split
    · rename_i hl
      exact h.log_of_kept hl text
    · rename_i hl
      rw [Option.toList_none, List.append_nil]
      exact h.log_of_not_kept hl text

/-- **Several calls** add the entries whose levels are kept. -/
theorem behind (h : Keeps level initial texts f) (calls : List Call) :
    Keeps level initial (texts ++ keptTexts level calls) (f.behind calls) := by
  induction calls generalizing texts f with
  | nil => simpa [keptTexts, TraceFile.behind] using h
  | cons call calls ih =>
    rw [keptTexts_cons, ← List.append_assoc]
    exact ih (h.next call)

end Keeps

/-! ## What the file holds -/

/-- **A trace file holds exactly the entries that are kept**, in order and each on a line of its own.
What it held before is gone with the first of them. Where no entry is kept, the file is as it was,
whether it existed or not. -/
theorem holds_kept_entries (level : Int) (initial : Option String) (calls : List Call) :
    (behind calls { level := level, contents := initial }).contents =
      if keptTexts level calls = [] then initial
      else some (String.join ((keptTexts level calls).map (· ++ "\n"))) :=
  ((Keeps.init level initial).behind calls).contents_eq

/-- Closed in between, the file keeps its first entry, and an entry of a higher level is left out. -/
example :
    let calls : List Call := [.log 1 "begin", .close, .log 3 "enter block", .log 2 "define a = 1"]
    (behind calls { level := 2, contents := some "earlier\n" }).contents =
      some "begin\ndefine a = 1\n" := by
  decide +kernel

/-! ## Traces in a file -/

/-- What is done with the file of a trace: its entries are logged in order. -/
def callsOf (entries : Array TraceEntry) : List Call :=
  entries.toList.map fun e => .log e.level e.text

/-- The entries of a trace are logged one after the other. -/
theorem logAll_eq_behind (entries : Array TraceEntry) (f : TraceFile) :
    f.logAll entries = f.behind (callsOf entries) := by
  rw [logAll, behind, callsOf, List.foldl_map, ← Array.foldl_toList]
  rfl

/-- **A trace that is written to a file** and closed has no file if none of its entries is kept, and
otherwise leaves exactly those that are. -/
theorem contents_close_logAll (level : Int) (entries : Array TraceEntry) :
    (logAll entries { level := level }).close.contents =
      if keptTexts level (callsOf entries) = [] then none
      else some (written (keptTexts level (callsOf entries))) := by
  rw [logAll_eq_behind]
  exact ((Keeps.init level none).behind (callsOf entries)).close.contents_eq

end Lox.TraceFile
