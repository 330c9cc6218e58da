import ExprLang.Lexer
import ExprLang.Node.Json
import ExprLang.Shell.Dialogue
import ExprLang.Token.Listing

/-! The command line: its grammar, and what each command prints. -/

namespace ExprLang

namespace CommandLine

inductive Command where
  /-- Evaluates a template and prints its value. -/
  | eval (text : String)
  /-- Prints the tree of a template. -/
  | parse (text : String)
  /-- Lists the tokens of an expression. -/
  | tokens (text : String)
  /-- Starts the shell. -/
  | repl
deriving DecidableEq, Repr

/-- What the words of a command line ask for. -/
inductive Request where
  | run (settings : Option String) (command : Command)
  /-- Prints a text that tells about the program. -/
  | tell (lines : List String)
  /-- The words are no request. -/
  | refuse
deriving DecidableEq, Repr

/-! ## Options -/

/-- The commands that can be named. -/
def commands : List String := ["eval", "parse", "tokens", "repl"]

def versionText : List String := ["uel " ++ Dialogue.version]

def helpText : List String :=
  ["UEL - unified expression language", "",
    "Usage: uel [OPTIONS] <COMMAND>", "",
    "Commands:",
    "  eval    Evaluate an expression and print the result",
    "  parse   Parse and dump the AST as JSON (debug)",
    "  tokens  Tokenize a bare expression and dump tokens (debug)",
    "  repl    Start the interactive shell",
    "  help    Print this message or the help of the given subcommand(s)", "",
    "Options:",
    "  -v, --verbose...       Increase log verbosity (-v debug, -vv trace)",
    "      --config <CONFIG>  TOML configuration file",
    "  -h, --help             Print help",
    "  -V, --version          Print version"]

/-- What a word is where options may stand. -/
inductive Word where
  /-- The option for more messages, which changes no output. -/
  | verbose
  | help
  | version
  /-- The option for the file of settings, perhaps with the name of the file. -/
  | settings (file : Option String)
  /-- The mark after which no word is an option. -/
  | mark
  | plain (text : String)
  | unknown
deriving DecidableEq, Repr

/-- The option that a cluster of letters means; the first one that ends the reading decides.
`versioned` says whether the version can be asked for. -/
def cluster (versioned : Bool) : List Char → Word
  | [] => .verbose
  | 'v' :: cs => cluster versioned cs
  | 'h' :: _ => .help
  | 'V' :: _ => if versioned then .version else .unknown
  | _ => .unknown

def word (versioned : Bool) (text : String) : Word :=
  match text.toList with
  | ['-', '-'] => .mark
  | '-' :: '-' :: option =>
    let name := String.ofList (option.takeWhile (· != '='))
    let value := match option.dropWhile (· != '=') with
      | [] => none
      | _ :: cs => some (String.ofList cs)
    match name, value with
    | "verbose", none => .verbose
    | "help", none => .help
    | "version", none => if versioned then .version else .unknown
    | "config", file => .settings file
    | _, _ => .unknown
  | '-' :: c :: cs => cluster versioned (c :: cs)
  | _ => .plain text

/-- A file name for the option of settings, and the words after it. -/
def fileName (file : Option String) (words : List String) : Option (String × List String) :=
  match file, words with
  | some name, rest => if name.isEmpty then none else some (name, rest)
  | none, name :: rest =>
    match word true name with
    | .plain text => if text.isEmpty then none else some (text, rest)
    | _ => none
  | none, [] => none

theorem fileName_length {file : Option String} {words rest : List String} {name : String}
    (h : fileName file words = some (name, rest)) : rest.length ≤ words.length := by
  unfold fileName at h
  split at h
  · split at h <;> cases h
    simp
  · split at h
    · split at h <;> cases h
      simp
    · cases h
  · cases h

/-! ## Commands -/

/-- The words after the name of a command: its operands, and the file of settings if it is given
here. -/
structure Tail where
  operands : List String
  settings : Option String

/-- What the words after the name of a command say, of which so many may be operands, after the
part `t` that was read. -/
def readTail (count : Nat) (t : Tail) (words : List String) : Except Request Tail :=
  match words with
  | [] => .ok t
  | w :: ws =>
    match word false w with
    | .verbose => readTail count t ws
    | .help => .error (.tell helpText)
    | .settings file =>
      match _h : fileName file ws with
      | some (name, rest) =>
        if t.settings.isSome then .error .refuse
        else readTail count { t with settings := some name } rest
      | none => .error .refuse
    | .mark => .ok { t with operands := t.operands ++ ws }
    | .plain text =>
      if t.operands.length < count then readTail count { t with operands := t.operands ++ [text] } ws
      else .error .refuse
    | _ => .error .refuse
termination_by words.length
decreasing_by
  · simp
  · have := fileName_length _h
    simp only [List.length_cons]
    omega
  · simp

/-- How many operands a command takes. -/
def operandCount (name : String) : Nat := if name == "repl" then 0 else 1

/-- The command of a name with its operands. -/
def command? (name : String) (operands : List String) : Option Command :=
  match name, operands with
  | "eval", [text] => some (.eval text)
  | "parse", [text] => some (.parse text)
  | "tokens", [text] => some (.tokens text)
  | "repl", [] => some .repl
  | _, _ => none

/-- The request of a command with the words after it. A file of settings that is named after the
command takes precedence. -/
def requestOf (settings : Option String) (name : String) (words : List String) : Request :=
  match readTail (operandCount name) ⟨[], none⟩ words with
  | .error r => r
  | .ok t =>
    match command? name t.operands with
    | some c => .run (t.settings.or settings) c
    | none => .refuse

/-- The request for help on a command. -/
def helpRequest : List String → Request
  | [] => .tell helpText
  | [name] => if commands.contains name || name == "help" then .tell helpText else .refuse
  | _ => .refuse

/-- The request of the words up to the name of a command, and after it. `settings` is the file of
settings that was named before. -/
def readHead (settings : Option String) (words : List String) : Request :=
  match words with
  | [] => .refuse
  | w :: ws =>
    match word true w with
    | .verbose => readHead settings ws
    | .help => .tell helpText
    | .version => .tell versionText
    | .settings file =>
      match _h : fileName file ws with
      | some (name, rest) => if settings.isSome then .refuse else readHead (some name) rest
      | none => .refuse
    | .plain name =>
      if commands.contains name then requestOf settings name ws
      else if name == "help" then helpRequest ws
      else .refuse
    | _ => .refuse
termination_by words.length
decreasing_by
  · simp
  · have := fileName_length _h
    simp only [List.length_cons]
    omega

/-- What the words of a command line ask for. -/
def request (words : List String) : Request := readHead none words

/-! ## Output -/

/-- What a program leaves behind: its output, and a status that is zero where it succeeded. -/
structure Output where
  text : String
  status : Nat
deriving DecidableEq, Repr

/-- Output of lines, each with its end. -/
def Output.ofLines (lines : List String) : Output := ⟨String.join (lines.map (· ++ "\n")), 0⟩

/-- The output of a failure; the words for it go elsewhere. -/
def Output.failed : Output := ⟨"", 1⟩

/-- The lines of an input; the last one may lack its end. -/
def inputLines (input : String) : List String :=
  let lines := input.splitOn "\n"
  if lines.getLast? == some "" then lines.dropLast else lines

/-- Carries out a command on the lines of its input. -/
def Command.perform (s : Settings) (lines : List String) : Command → Output
  | eval text =>
    match ((Session.ofSettings s).evalTemplate text).1 with
    | .value v w => .ofLines [w.heap.display v]
    | _ => .failed
  | parse text =>
    match parseTemplate text with
    | .ok n => .ofLines [n.toJson.render]
    | .error _ => .failed
  | tokens text =>
    match tokenize text with
    | .ok ls => .ofLines (ls.map Lexeme.listing)
    | .error _ => .failed
  | repl => .ofLines (Dialogue.run s lines)

/-- The settings in a file, else those that hold where nothing is said. -/
def settings? (content? : String → Option String) : Option String → Option Settings
  | none => some {}
  | some file => (content? file).bind Settings.ofText?

/-- Runs a command line, given the contents of files and the input. -/
def run (content? : String → Option String) (words : List String) (input : String) : Output :=
  match request words with
  | .tell lines => .ofLines lines
  | .refuse => ⟨"", 2⟩
  | .run file c =>
    match settings? content? file with
    | some s => c.perform s (inputLines input)
    | none => .failed

end CommandLine

end ExprLang
