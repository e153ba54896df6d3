/-
# Arguments

A command line is the name of a command, its argument, and options that may stand anywhere:

| form | meaning |
| --- | --- |
| `--name value`, `--name=value` | a long option |
| `-n value`, `-nvalue`, `-n=value` | a short option |
| `--` | only arguments follow |

No option may be given twice, and a value of its own word must not look like an option.  The
option `--settings` may stand before or behind the name of the command; the one behind counts.
-/

namespace MappingCanvas
namespace Console

/-- A job of the program. -/
inductive Job
  | exportCanvas (canvas snapshotOut rulesOut name : String) (version : Option String)
  | restore (snapshot : String) (rules : Option String) (out : String)
  | restoreRules (rules : String) (groupings : Option String) (out : String)
  | suggest (answer : String) (samples : Option String) (out : String)
  | pack (rules out : String)
  deriving DecidableEq

/-- What a command line asks for. -/
inductive Request
  | run (settings : Option String) (job : Job)
  | help
  | version
  deriving DecidableEq

/-- What is wrong with a command line. -/
inductive UsageError
  | missingCommand
  | unknownCommand (name : String)
  | missingArgument (name : String)
  | unexpected (word : String)
  | missingValue (option : String)
  | unexpectedValue (option : String)
  | repeated (option : String)
  deriving DecidableEq

/-- The wording of a usage error. -/
def UsageError.message : UsageError → String
  | missingCommand => "a command is required"
  | unknownCommand name => "unrecognized command '" ++ name ++ "'"
  | missingArgument name => "the argument <" ++ name ++ "> is required"
  | unexpected word => "unexpected argument '" ++ word ++ "'"
  | missingValue option => "a value is required for '--" ++ option ++ "'"
  | unexpectedValue option => "'--" ++ option ++ "' takes no value"
  | repeated option => "'--" ++ option ++ "' cannot be used more than once"

/-- Why a command line is not a job. -/
inductive Stop
  | help
  | version
  | misuse (cause : UsageError)
  deriving DecidableEq

/-! ### Words -/

/-- One word of a command line. -/
inductive Word
  | plain (text : String)
  /-- The end of the options. -/
  | escape
  | long (name : String) (value : Option String)
  | short (name : Char) (value : Option String)
  deriving DecidableEq

/-- The value written directly behind a short option. -/
def attached : List Char → Option String
  | [] => none
  | '=' :: cs => some (String.ofList cs)
  | cs => some (String.ofList cs)

/-- Splits a long option at its first equals sign. -/
def splitEquals : List Char → List Char × Option String
  | [] => ([], none)
  | '=' :: cs => ([], some (String.ofList cs))
  | c :: cs => let (name, value) := splitEquals cs; (c :: name, value)

/-- The kind of a word. -/
def Word.ofText (text : String) : Word :=
  match text.toList with
  | ['-', '-'] => escape
  | '-' :: '-' :: cs => let (name, value) := splitEquals cs; long (String.ofList name) value
  | '-' :: c :: cs => short c (attached cs)
  | _ => plain text

/-! ### Commands -/

/-- The words that a command knows. -/
structure Vocabulary where
  /-- What the argument is called. -/
  argument : String
  /-- Options with a value, and the letters of their short forms. -/
  options : List (String × Option Char)
  /-- Options without a value. -/
  flags : List String

/-- The option that names the settings file; every command has it. -/
def settingsOption : String × Option Char := ("settings", some 's')

/-- What a command was given. -/
structure Given where
  argument : Option String
  values : List (String × String)
  flags : List String

namespace Given

/-- Nothing yet. -/
def nothing : Given := ⟨none, [], []⟩

/-- The value of an option. -/
def value? (g : Given) (option : String) : Option String :=
  (g.values.find? fun v => v.1 == option).map Prod.snd

/-- Takes the argument. -/
def take (g : Given) (text : String) : Except Stop Given :=
  match g.argument with
  | none => .ok { g with argument := some text }
  | some _ => .error (.misuse (.unexpected text))

/-- Takes an option with its value. -/
def set (g : Given) (option value : String) : Except Stop Given :=
  if (g.value? option).isSome then .error (.misuse (.repeated option))
  else .ok { g with values := g.values ++ [(option, value)] }

/-- Takes an option without a value. -/
def raise (g : Given) (flag : String) (value : Option String) : Except Stop Given :=
  if value.isSome then .error (.misuse (.unexpectedValue flag))
  else if flag ∈ g.flags then .error (.misuse (.repeated flag))
  else .ok { g with flags := g.flags ++ [flag] }

/-- Takes the options `--help` and `-h`. -/
def askHelp (value : Option String) : Except Stop Given :=
  .error (if value.isSome then .misuse (.unexpectedValue "help") else .help)

end Given

namespace Vocabulary

/-- Reads the words of a command.  `pending` is an option whose value is the next word. -/
def parse (v : Vocabulary) : (pending : Option String) → Given → List String → Except Stop Given
  | none, g, [] => .ok g
  | some option, _, [] => .error (.misuse (.missingValue option))
  | some option, g, text :: rest =>
    match Word.ofText text with
    | .plain value => do parse v none (← g.set option value) rest
    | _ => .error (.misuse (.missingValue option))
  | none, g, text :: rest =>
    match Word.ofText text with
    | .plain text => do parse v none (← g.take text) rest
    | .escape => rest.foldlM Given.take g
    | .long "help" value => Given.askHelp value
    | .long name value =>
      if name ∈ v.flags then do parse v none (← g.raise name value) rest
      else if v.options.any fun o => o.1 == name then
        match value with
        | some value => do parse v none (← g.set name value) rest
        | none => parse v (some name) g rest
      else .error (.misuse (.unexpected text))
    | .short 'h' _ => .error .help
    | .short c value =>
      match v.options.find? fun o => o.2 == some c, value with
      | some o, some value => do parse v none (← g.set o.1 value) rest
      | some o, none => parse v (some o.1) g rest
      | none, _ => .error (.misuse (.unexpected text))

end Vocabulary

/-- The commands, with the words they know and the job they make of what they are given. -/
inductive Command
  | exportCommand | importCommand | suggestCommand | packCommand
  deriving DecidableEq

namespace Command

/-- All commands. -/
def all : List Command := [exportCommand, importCommand, suggestCommand, packCommand]

/-- The name of a command. -/
def name : Command → String
  | exportCommand => "export"
  | importCommand => "import"
  | suggestCommand => "suggest"
  | packCommand => "pack"

/-- The command of a name. -/
def ofName? (s : String) : Option Command := all.find? fun c => c.name == s

/-- The words that a command knows. -/
def vocabulary : Command → Vocabulary
  | exportCommand =>
    ⟨"CANVAS_PATH", [settingsOption, ("ui-out", none), ("execution-out", none), ("name", none),
      ("version", none)], []⟩
  | importCommand =>
    ⟨"CONFIG_PATH", [settingsOption, ("execution", none), ("out", some 'o')], ["execution-only"]⟩
  | suggestCommand =>
    ⟨"RESPONSE_PATH", [settingsOption, ("samples", none), ("out", some 'o')], []⟩
  | packCommand => ⟨"EXECUTION_PATH", [settingsOption, ("out", some 'o')], []⟩

/-- The job of a command for its argument. -/
def job (c : Command) (argument : String) (g : Given) : Job :=
  let value (option default : String) := (g.value? option).getD default
  match c with
  | exportCommand =>
    .exportCanvas argument (value "ui-out" "ui_config.json")
      (value "execution-out" "execution_config.json") (value "name" "") (g.value? "version")
  | importCommand =>
    let out := value "out" "canvas.json"
    if "execution-only" ∈ g.flags then .restoreRules argument (g.value? "execution") out
    else .restore argument (g.value? "execution") out
  | suggestCommand => .suggest argument (g.value? "samples") (value "out" "canvas.json")
  | packCommand => .pack argument (value "out" "mapping.bin")

end Command

/-! ### Command lines -/

/-- The request of the words behind the name of a command; `outer` is what stood before it. -/
def parseCommand (c : Command) (outer : Given) (words : List String) : Except Stop Request := do
  let g ← c.vocabulary.parse none .nothing words
  match g.argument with
  | none => throw (.misuse (.missingArgument c.vocabulary.argument))
  | some argument =>
    let settings := g.value? settingsOption.1 <|> outer.value? settingsOption.1
    return .run settings (c.job argument g)

/-- The request of the words behind `help`: perhaps the name of a command. -/
def parseHelp : List String → Stop
  | [] | ["help"] => .help
  | [name] => if (Command.ofName? name).isSome then .help else .misuse (.unknownCommand name)
  | _ :: word :: _ => .misuse (.unexpected word)

/-- Reads the words up to the name of a command, and then the command.  `pending` says that the
next word is the value of the settings option. -/
def parseWords : (pending : Bool) → Given → List String → Except Stop Request
  | false, _, [] => .error (.misuse .missingCommand)
  | true, _, [] => .error (.misuse (.missingValue settingsOption.1))
  | true, g, text :: rest =>
    match Word.ofText text with
    | .plain value => do parseWords false (← g.set settingsOption.1 value) rest
    | _ => .error (.misuse (.missingValue settingsOption.1))
  | false, g, text :: rest =>
    match Word.ofText text with
    | .plain name =>
      match Command.ofName? name with
      | some c => parseCommand c g rest
      | none => .error (if name = "help" then parseHelp rest else .misuse (.unknownCommand name))
    | .escape => .error (.misuse .missingCommand)
    | .long "settings" (some value) | .short 's' (some value) => do
      parseWords false (← g.set settingsOption.1 value) rest
    | .long "settings" none | .short 's' none => parseWords true g rest
    | .long "help" none | .short 'h' _ => .error .help
    | .long "version" none | .short 'V' _ => .error .version
    | .long _ _ | .short _ _ => .error (.misuse (.unexpected text))

/-- The request of a command line. -/
def parse (words : List String) : Except UsageError Request :=
  match parseWords false .nothing words with
  | .ok request => .ok request
  | .error .help => .ok .help
  | .error .version => .ok .version
  | .error (.misuse cause) => .error cause

end Console
end MappingCanvas
