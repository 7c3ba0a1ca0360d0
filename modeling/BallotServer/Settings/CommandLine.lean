import BallotServer.Settings.Value
import BallotServer.Text

/-! How the command line and the environment give the settings. Words are taken from left to
right, and the first mistake ends the reading. A value that stands in a word of its own is looked
at only when the next option comes, or at the end; a word that is not understood ends the reading
before that. The environment gives what the command line leaves open. -/

namespace BallotServer.CommandLine

def versionText : String := "ballot-studio 0.1.0\n"

def helpText : String :=
  "Usage: ballot-studio [options]\n" ++ String.join (Setting.all.map fun s =>
    "  --" ++ s.option ++ " <value>, or " ++ s.variableName ++ "\n")

inductive Word
  | plain
  | ending
  | help
  | version
  | flagWithValue
  | option (setting : Setting)
  | optionWithValue (setting : Setting) (text : String)
  | unknown
  deriving DecidableEq, Repr

namespace Word

/-- A word with two dashes, by its name and the value attached to it. -/
def ofLong (name : List Char) (value : Option (List Char)) : Word :=
  if name = "help".toList then if value.isSome then flagWithValue else help
  else if name = "version".toList then if value.isSome then flagWithValue else version
  else match Setting.all.find? fun s => s.option.toList == name, value with
    | none, _ => unknown
    | some s, none => option s
    | some s, some text => optionWithValue s (String.ofList text)

def of (word : String) : Word :=
  match word.toList with
  | ['-', '-'] => ending
  | '-' :: '-' :: cs => match Text.cut? '=' cs with
    | none => ofLong cs none
    | some (name, value) => ofLong name (some value)
  | '-' :: 'h' :: _ => help
  | '-' :: 'V' :: _ => version
  | '-' :: _ :: _ => unknown
  | _ => plain

end Word

/-- An option whose value is still to come, or to be looked at. -/
inductive Held
  | nothing
  | option (setting : Setting)
  | value (setting : Setting) (text : String)
  deriving DecidableEq, Repr

def settle (v : Values) : Held → Except UsageError Values
  | .nothing => .ok v
  | .option s => .error (.noValue s)
  | .value s text => v.accept s text

def readWords (v : Values) (held : Held) : List String → Except UsageError Values
  | [] => settle v held
  | word :: rest => match Word.of word, held, rest with
    | .plain, .option s, _ => readWords v (.value s word) rest
    | .plain, _, _ => .error (.unknown word)
    | .unknown, _, _ => .error (.unknown word)
    | .flagWithValue, _, _ => .error (.unexpectedValue word)
    | .ending, _, [] => settle v held
    | .ending, _, next :: _ => .error (.unknown next)
    | .help, _, _ => do
      let _ ← settle v held
      throw .help
    | .version, _, _ => do
      let _ ← settle v held
      throw .version
    | .option s, _, _ => do readWords (← settle v held) (.option s) rest
    | .optionWithValue s text, _, _ => do
      readWords (← (← settle v held).accept s text) .nothing rest

/-- Reads a setting from its variable, unless it is given. -/
def fillIn (environment : Setting → Option String) (v : Values) (s : Setting) :
    Except UsageError Values :=
  match v s, environment s with
  | none, some text => v.accept s text
  | _, _ => .ok v

def read (words : List String) (environment : Setting → Option String) :
    Except UsageError Values := do
  Setting.all.foldlM (fillIn environment) (← readWords .none .nothing words)

def message : UsageError → String
  | .help => helpText
  | .version => versionText
  | .unknown word => "unexpected argument: " ++ word ++ "\n"
  | .unexpectedValue word => "unexpected value: " ++ word ++ "\n"
  | .noValue setting => "no value for --" ++ setting.option ++ "\n"
  | .badNumber setting => "no number, or none in range, for --" ++ setting.option ++ "\n"
  | .repeated setting => "given twice: --" ++ setting.option ++ "\n"

end BallotServer.CommandLine
