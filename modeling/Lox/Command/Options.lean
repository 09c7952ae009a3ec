import Lox.Session
import Lox.Text.Digit
import Lox.Text.Quoted

/-! # Options of the command

The command takes flags and at most one script, in any order. A long flag may be cut short as long
as only one flag starts like that, and may carry its argument behind an equals sign. Short flags may
be joined, also with an equals sign behind the first one. Two hyphens end the flags. What cannot be
placed is collected and refused at the end.

* **`CommandWord.classify`** — what kind of word an argument is, seen on its own;
* **`CommandLine.read`** — the options that the arguments ask for, help, or a usage error. -/

namespace Lox

/-! ## Flags -/

/-- The flags of the command. -/
inductive Flag
  | help
  | verbose
  | debugFile
  | tokens
  | tree
deriving DecidableEq, Repr

namespace Flag

/-- How the flags are written. -/
def spellings : List (String × Flag) :=
  [("-h", help), ("--help", help), ("-v", verbose), ("--debug-file", debugFile),
    ("--tokens", tokens), ("--ast", tree)]

/-- The flag with a given spelling. -/
def ofSpelling? (text : String) : Option Flag := spellings.lookup text

/-- The long spellings that start with a text. -/
def startingWith (start : String) : List (String × Flag) :=
  spellings.filter fun entry => start.toList.isPrefixOf entry.1.toList

/-- How a flag is named in messages: by all its spellings. -/
def name (f : Flag) : String :=
  "/".intercalate ((spellings.filter fun entry => entry.2 = f).map Prod.fst)

/-- Whether a flag needs an argument. -/
def takesArgument : Flag → Bool
  | debugFile => true
  | _ => false

/-- The mode that a flag asks for. -/
def mode? : Flag → Option Mode
  | tokens => some .tokens
  | tree => some .tree
  | _ => none

end Flag

/-! ## Usage errors -/

/-- Why the arguments of the command are refused. -/
inductive UsageError
  | ambiguous (text : String) (candidates : List String)
  | missingArgument (flag : Flag)
  | needlessArgument (flag : Flag) (text : String)
  | conflict (flag other : Flag)
  | unrecognized (texts : List String)
deriving DecidableEq, Repr

/-- The wording of a usage error. -/
def UsageError.message : UsageError → String
  | ambiguous text candidates =>
    "ambiguous option: " ++ text ++ " could match " ++ ", ".intercalate candidates
  | missingArgument flag => "argument " ++ flag.name ++ ": expected one argument"
  | needlessArgument flag text =>
    "argument " ++ flag.name ++ ": ignored explicit argument " ++ Text.quoted text
  | conflict flag other =>
    "argument " ++ flag.name ++ ": not allowed with argument " ++ other.name
  | unrecognized texts => "unrecognized arguments: " ++ " ".intercalate texts

/-! ## Words -/

/-- What an argument is, seen on its own. -/
inductive CommandWord
  /-- A word that can be the script or the argument of a flag. -/
  | operand (text : String)
  /-- The two hyphens that end the flags. -/
  | separator
  /-- A flag, with the text behind its equals sign if it is a long one. -/
  | flag (flag : Flag) (argument : Option String)
  /-- A short flag and the characters joined to it, without an equals sign in front of them. -/
  | joined (flag : Flag) (others : List Char)
  /-- A word that looks like a flag and is none. -/
  | unknown (text : String)
deriving DecidableEq, Repr

namespace CommandWord

/-- The text before the first equals sign, and the text behind it if there is one. -/
def splitAtEquals (cs : List Char) : List Char × Option (List Char) :=
  match cs.dropWhile (· ≠ '=') with
  | [] => (cs, none)
  | _ :: rest => (cs.takeWhile (· ≠ '='), some rest)

/-- Characters without an equals sign in front of them. -/
def behindEquals : List Char → List Char
  | '=' :: cs => cs
  | cs => cs

/-- A number in digits, which may have a point before its last digits. -/
def isNumber (cs : List Char) : Bool :=
  let whole := cs.takeWhile Text.isDecimalDigit
  match cs.dropWhile Text.isDecimalDigit with
  | [] => !whole.isEmpty
  | '.' :: fraction => !fraction.isEmpty && fraction.all Text.isDecimalDigit
  | _ => false

/-- A minus sign and a number. A line end behind the number does not matter. -/
def isNegativeNumber : List Char → Bool
  | '-' :: cs => isNumber (if cs.getLast? = some '\n' then cs.dropLast else cs)
  | _ => false

/-- A word that starts with a hyphen, has another character, and is no spelling of a flag. -/
def classifyOther (text : String) : Except UsageError CommandWord :=
  let cs := text.toList
  let other : CommandWord :=
    if isNegativeNumber cs || cs.contains ' ' then .operand text else .unknown text
  match cs with
  | '-' :: '-' :: _ =>
    let (start, argument) := splitAtEquals cs
    match Flag.startingWith (String.ofList start) with
    | [] => .ok other
    | [(_, found)] => .ok (.flag found (argument.map String.ofList))
    | candidates => .error (.ambiguous text (candidates.map Prod.fst))
  | '-' :: c :: others =>
    match Flag.ofSpelling? (String.ofList ['-', c]) with
    | some found => .ok (.joined found (behindEquals others))
    | none => .ok other
  | _ => .ok other

/-- What an argument in front of the separator is. -/
def classify (text : String) : Except UsageError CommandWord :=
  if text = "--" then .ok .separator
  else match text.toList with
    | [] | ['-'] => .ok (.operand text)
    | '-' :: _ => match Flag.ofSpelling? text with
      | some found => .ok (.flag found none)
      | none => classifyOther text
    | _ => .ok (.operand text)

/-- What the arguments are; behind the separator every one is an operand. -/
def classifyAll : List String → Except UsageError (List CommandWord)
  | [] => .ok []
  | text :: rest => do
    match ← classify text with
    | .separator => return .separator :: rest.map .operand
    | word => return word :: (← classifyAll rest)

end CommandWord

/-! ## The options asked for -/

/-- The name of the trace file where none is given. -/
def defaultTraceFile : String := "debug.txt"

/-- What the arguments ask for: how often `-v` was given, the trace file unless its name was taken
away, the flag that selects a mode, and the script. -/
structure Options where
  verbosity : Nat := 0
  traceFile : Option String := some defaultTraceFile
  selected : Option Flag := none
  script : Option String := none
deriving DecidableEq, Repr

/-- What is done with the programs. -/
def Options.mode (o : Options) : Mode := (o.selected.bind Flag.mode?).getD .run

/-- The arguments read so far: the options, whether the place of the script is taken, and the words
that have no place. -/
structure CommandLine where
  options : Options := {}
  scriptPlaced : Bool := false
  extras : List String := []

/-- Why reading the arguments stops early. -/
inductive Interruption
  | help
  | invalid (e : UsageError)
deriving DecidableEq, Repr

namespace CommandLine

/-- Adds a word that has no place. -/
def extra (text : String) (l : CommandLine) : CommandLine :=
  { l with extras := l.extras ++ [text] }

/-- Gives the place of the script to a word, or to none. -/
def place (script : Option String) (l : CommandLine) : CommandLine :=
  { l with options := { l.options with script := script }, scriptPlaced := true }

/-- Sets the trace file. Two hyphens are no name: they are dropped, and no name is left. -/
def traceTo (file : String) (l : CommandLine) : CommandLine :=
  let name := if file = "--" then none else some file
  { l with options := { l.options with traceFile := name } }

/-- Takes a flag without an argument. Only one of the flags that select a mode is allowed. -/
def take (flag : Flag) (l : CommandLine) : Except Interruption CommandLine :=
  match flag with
  | .help => .error .help
  | .verbose => .ok { l with options := { l.options with verbosity := l.options.verbosity + 1 } }
  | .debugFile => .error (.invalid (.missingArgument flag))
  | .tokens | .tree =>
    match l.options.selected with
    | some other =>
      if other = flag then .ok l else .error (.invalid (.conflict flag other))
    | none => .ok { l with options := { l.options with selected := some flag } }

/-- A short flag and those joined to it. Every character has to be a flag; the flag before the first
that is none cannot have the rest as its argument. -/
def splitJoined (flag : Flag) : List Char → Except UsageError (List Flag)
  | [] => .error (.needlessArgument flag "")
  | c :: others =>
    match Flag.ofSpelling? (String.ofList ['-', c]) with
    | none => .error (.needlessArgument flag (String.ofList (c :: others)))
    | some next =>
      match others with
      | [] => .ok [flag, next]
      | others => (splitJoined next others).map (flag :: ·)

/-- Takes joined short flags in order, once all of them are known. -/
def takeJoined (flag : Flag) (others : List Char) (l : CommandLine) :
    Except Interruption CommandLine :=
  match splitJoined flag others with
  | .error e => .error (.invalid e)
  | .ok flags => flags.foldlM (fun l f => take f l) l

/-- Reads words in order. The separator is dropped where it directly follows the script, and where
no script stands before it; the word behind it is the script then. -/
def readWords : List CommandWord → CommandLine → Except Interruption CommandLine
  | [], l => .ok l
  | .operand text :: rest, l =>
    if l.scriptPlaced then readWords rest (l.extra text)
    else match rest with
      | .separator :: rest => readWords rest (l.place (some text))
      | rest => readWords rest (l.place (some text))
  | .separator :: rest, l =>
    if l.scriptPlaced then readWords rest (l.extra "--")
    else match rest with
      | .operand text :: rest => readWords rest (l.place (some text))
      | rest => readWords rest (l.place none)
  | .unknown text :: rest, l => readWords rest (l.extra text)
  | .joined flag others :: rest, l => do readWords rest (← takeJoined flag others l)
  | .flag .debugFile none :: .operand file :: rest, l => readWords rest (l.traceTo file)
  | .flag flag none :: rest, l => do readWords rest (← take flag l)
  | .flag flag (some argument) :: rest, l =>
    if flag.takesArgument then readWords rest (l.traceTo argument)
    else .error (.invalid (.needlessArgument flag argument))

/-- **The options that arguments ask for.** Words that have no place are refused after all others
were read. -/
def read (arguments : List String) : Except Interruption Options :=
  match CommandWord.classifyAll arguments with
  | .error e => .error (.invalid e)
  | .ok words => do
    let l ← readWords words {}
    if l.extras.isEmpty then return l.options
    else throw (.invalid (.unrecognized l.extras))

end CommandLine

/-! ## Texts -/

/-- The line that shows how the command is called. -/
def usageText : String :=
  "usage: lox [-h] [-v] [--debug-file DEBUG_FILE] [--tokens | --ast] [script]\n"

/-- The text that the help flag asks for. -/
def helpText : String :=
  usageText ++ "
Lox language interpreter

positional arguments:
  script                Lox script to execute

options:
  -h, --help            show this help message and exit
  -v                    increase debug verbosity (can be repeated)
  --debug-file DEBUG_FILE
                        file receiving debug output
  --tokens              print scanned tokens instead of running
  --ast                 print parsed statements instead of running
"

/-- What is written for a usage error. -/
def UsageError.render (e : UsageError) : String :=
  usageText ++ "lox: error: " ++ e.message ++ "\n"

end Lox
