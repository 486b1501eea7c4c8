/-!
# Arguments of a command line

A command line consists of a program's own options, the name of a command, and the command's
options and positional arguments. Some options may stand before the command as well as after it;
what is said after it counts.

`ProgramSpec.parse` splits a list of arguments by such a description. Options are written `--name`
or `-n`; a value follows as the next argument or after `=`, and after `-n` also directly. Several
short options may share a dash, and after `--` all arguments are positional.

Of several errors the first counts. An option that takes a value is settled late (`Reading.settle`):
that it has no value, or is there twice, is only found when the next option or positional argument
is taken or the arguments end, and so not before an argument that makes no sense.
-/

set_option autoImplicit false

namespace AbilityGraph

namespace CommandLine

/-- A request for information instead of a run. -/
inductive Inquiry where
  | help (command : Option String)
  | version
  deriving DecidableEq

/-- What an option takes, and what it does. -/
inductive OptionKind where
  /-- Takes nothing; it may be given once. -/
  | flag
  /-- Takes nothing; it may be given any number of times. -/
  | counter
  /-- Takes a value; it may be given once. -/
  | valued
  /-- Takes nothing and ends the reading of arguments. -/
  | inquiry (inquiry : Inquiry)
  deriving DecidableEq

/-- An option. -/
structure OptionSpec where
  name : String
  short : Option Char
  kind : OptionKind
  about : String

namespace OptionSpec

/-- The option that asks for the help text of a command, or of the program. -/
def help (command : Option String) : OptionSpec :=
  ⟨"help", some 'h', .inquiry (.help command), "Print help"⟩

def version : OptionSpec := ⟨"version", some 'V', .inquiry .version, "Print version"⟩

end OptionSpec

/-- A positional argument. -/
structure PositionalSpec where
  name : String
  about : String

/-- A command. -/
structure CommandSpec where
  name : String
  about : String
  positionals : List PositionalSpec
  options : List OptionSpec

/-- A program with commands. -/
structure ProgramSpec where
  about : String
  /-- The options that may stand before and after the command. -/
  options : List OptionSpec
  commands : List CommandSpec

/-- The name of the value of an option, or of a positional argument, as it is shown. -/
def valueName (name : String) : String := "<" ++ name.toUpper ++ ">"

/-! ## Errors -/

/-- What is wrong with the arguments. -/
inductive ArgumentError where
  | unknown (argument : String)
  | missingValue (option : String)
  | unexpectedValue (option : String)
  | repeated (option : String)
  | missingArgument (name : String)
  | missingCommand
  deriving DecidableEq

namespace ArgumentError

def message : ArgumentError → String
  | unknown argument => s!"unexpected argument '{argument}' found"
  | missingValue option =>
    s!"a value is required for '--{option} {valueName option}' but none was supplied"
  | unexpectedValue option => s!"unexpected value for '--{option}' found; no more were expected"
  | repeated option => s!"the argument '--{option}' cannot be used multiple times"
  | missingArgument name => s!"the required argument {valueName name} was not provided"
  | missingCommand => "a subcommand is required but none was provided"

/-- Whether the report on an error shows how the program is called. -/
def showsUsage : ArgumentError → Bool
  | missingValue _ => false
  | _ => true

/-- The report on an error of a program that was called by a name. -/
def report (error : ArgumentError) (program : String) : String :=
  let usage := if error.showsUsage then s!"Usage: {program} [OPTIONS] <COMMAND>\n\n" else ""
  s!"error: {error.message}\n\n{usage}For more information, try '--help'.\n"

end ArgumentError

/-- Why the reading of arguments ends early. -/
inductive Stop where
  | error (error : ArgumentError)
  | inquiry (inquiry : Inquiry)

/-! ## What has been read -/

/-- The options and positional arguments given on one side of the command, in order. A flag has the
empty value. -/
structure Given where
  options : List (String × String)
  positionals : List String

namespace Given

def nothing : Given := ⟨[], []⟩

def has (given : Given) (name : String) : Bool := given.options.any (·.1 == name)

def value? (given : Given) (name : String) : Option String := given.options.lookup name

/-- Adds an option, unless it is there and may be given only once. -/
def addOption (given : Given) (option : OptionSpec) (value : String) : Except Stop Given :=
  if option.kind ≠ .counter ∧ given.has option.name then .error (.error (.repeated option.name))
  else .ok { given with options := given.options ++ [(option.name, value)] }

end Given

/-- An option that takes a value and is not settled yet, and the value if it is known. -/
structure Pending where
  option : OptionSpec
  value : Option String

/-- What has been read on one side of the command. -/
structure Reading where
  given : Given
  pending : Option Pending

namespace Reading

def start : Reading := ⟨.nothing, none⟩

/-- Settles the option that is pending, if there is one: it must have a value, and must not be there
already. -/
def settle (reading : Reading) : Except Stop Given :=
  match reading.pending with
  | none => .ok reading.given
  | some ⟨option, none⟩ => .error (.error (.missingValue option.name))
  | some ⟨option, some value⟩ => reading.given.addOption option value

/-- The option that the next argument is the value of. -/
def awaiting? (reading : Reading) : Option OptionSpec :=
  match reading.pending with
  | some ⟨option, none⟩ => some option
  | _ => none

/-- Takes an option with its value. -/
def takeValue (reading : Reading) (option : OptionSpec) (value : String) : Except Stop Reading := do
  return ⟨← (← reading.settle).addOption option value, none⟩

/-- Takes an option whose value is to come. -/
def takeName (reading : Reading) (option : OptionSpec) : Except Stop Reading := do
  return ⟨← reading.settle, some ⟨option, none⟩⟩

/-- Takes an option that has no value. -/
def takeBare (reading : Reading) (option : OptionSpec) : Except Stop Reading := do
  let given ← reading.settle
  match option.kind with
  | .inquiry inquiry => throw (.inquiry inquiry)
  | _ => return ⟨← given.addOption option "", none⟩

/-- Takes a positional argument, if there are fewer than the given number. -/
def takePositional (reading : Reading) (limit : Nat) (argument : String) :
    Except Stop Reading := do
  if reading.given.positionals.length < limit then
    let given ← reading.settle
    return ⟨{ given with positionals := given.positionals ++ [argument] }, none⟩
  else throw (.error (.unknown argument))

end Reading

/-! ## Reading arguments -/

/-- What may stand at a place: options, a number of positional arguments, and the names of
commands. -/
structure Context where
  options : List OptionSpec
  positionals : Nat
  commands : List String

/-- Reads a long option, which is given without its dashes. -/
def readLong (context : Context) (reading : Reading) (text : List Char) : Except Stop Reading :=
  let (name, attached) := text.span (· != '=')
  match context.options.find? (·.name == String.ofList name) with
  | none => .error (.error (.unknown ("--" ++ String.ofList name)))
  | some option =>
    match attached with
    | [] => if option.kind = .valued then reading.takeName option else reading.takeBare option
    | _ :: value =>
      if option.kind = .valued then reading.takeValue option (String.ofList value)
      else .error (.error (.unexpectedValue option.name))

/-- Reads short options that share a dash, which is left out. -/
def readShort (context : Context) (reading : Reading) : List Char → Except Stop Reading
  | [] => .ok reading
  | name :: rest =>
    match context.options.find? (·.short == some name) with
    | none => .error (.error (.unknown (String.ofList ['-', name])))
    | some option =>
      if option.kind = .valued then
        match rest with
        | [] => reading.takeName option
        | '=' :: value => reading.takeValue option (String.ofList value)
        | value => reading.takeValue option (String.ofList value)
      else do readShort context (← reading.takeBare option) rest

/-- Reads arguments of which all are positional. -/
def readPositionals (context : Context) (reading : Reading) : List String → Except Stop Reading
  | [] => .ok reading
  | argument :: rest => do
    readPositionals context (← reading.takePositional context.positionals argument) rest

/-- Reads arguments up to the name of a command. Gives what was read, and the arguments from that
name on. -/
def readArguments (context : Context) (reading : Reading) :
    List String → Except Stop (Reading × List String)
  | [] => .ok (reading, [])
  | argument :: rest =>
    match reading.awaiting?, argument.toList with
    | _, ['-', '-'] => do return (← readPositionals context reading rest, [])
    | _, '-' :: '-' :: text => do readArguments context (← readLong context reading text) rest
    | _, '-' :: c :: text => do
      readArguments context (← readShort context reading (c :: text)) rest
    | some option, _ =>
      readArguments context { reading with pending := some ⟨option, some argument⟩ } rest
    | none, _ =>
      if context.commands.contains argument then .ok (reading, argument :: rest)
      else do
        readArguments context (← reading.takePositional context.positionals argument) rest

/-! ## Reading a command line -/

/-- What a list of arguments amounts to. -/
inductive Parsed where
  | inquiry (inquiry : Inquiry)
  /-- A command with what is given before and after its name. -/
  | command (spec : CommandSpec) (before after : Given)

namespace ProgramSpec

/-- The name of the command that shows help texts. -/
def helpName : String := "help"

/-- The command of a name. -/
def command? (program : ProgramSpec) (name : String) : Option CommandSpec :=
  program.commands.find? (·.name == name)

/-- What may stand before the command. -/
def context (program : ProgramSpec) : Context where
  options := program.options ++ [.help none, .version]
  positionals := 0
  commands := helpName :: program.commands.map (·.name)

/-- What may stand after the name of a command. -/
def commandContext (program : ProgramSpec) (command : CommandSpec) : Context where
  options := command.options ++ program.options ++ [.help (some command.name)]
  positionals := command.positionals.length
  commands := []

/-- What the arguments after the name of the help command ask for. -/
def readHelp (program : ProgramSpec) : List String → Stop
  | [] => .inquiry (.help none)
  | name :: rest =>
    if name ≠ helpName ∧ (program.command? name).isNone then .error (.unknown name) else
      match rest with
      | [] => .inquiry (.help (some name))
      | extra :: _ => .error (.unknown extra)

/-- Reads the arguments of a command. -/
def readCommand (program : ProgramSpec) (command : CommandSpec) (arguments : List String) :
    Except Stop Given := do
  let (reading, _) ← readArguments (program.commandContext command) .start arguments
  let given ← reading.settle
  match command.positionals[given.positionals.length]? with
  | some missing => throw (.error (.missingArgument missing.name))
  | none => return given

/-- Reads all arguments, as far as they can be read. What stands before the command is settled
last. -/
def read (program : ProgramSpec) (arguments : List String) : Except Stop Parsed := do
  let (reading, rest) ← readArguments program.context .start arguments
  match rest with
  | [] => do
    let _ ← reading.settle
    throw (.error .missingCommand)
  | name :: rest =>
    match program.command? name with
    | some command => do
      let after ← program.readCommand command rest
      return .command command (← reading.settle) after
    | none => throw (program.readHelp rest)

/-- Splits a list of arguments. -/
def parse (program : ProgramSpec) (arguments : List String) : Except ArgumentError Parsed :=
  match program.read arguments with
  | .ok parsed => .ok parsed
  | .error (.inquiry inquiry) => .ok (.inquiry inquiry)
  | .error (.error error) => .error error

end ProgramSpec

end CommandLine

end AbilityGraph
