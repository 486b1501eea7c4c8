import AbilityGraph.CommandLine.Arguments

/-!
# Help texts

The help text of a program and of each of its commands, made from their descriptions: what it is
about, how it is called, and its commands, arguments and options in two columns.
-/

set_option autoImplicit false

namespace AbilityGraph

namespace CommandLine

/-- A text with blanks after it up to a width, counted in characters. -/
def padded (width : Nat) (text : String) : String := text.pushn ' ' (width - text.length)

/-- Lines of two columns under a heading. -/
def columns (heading : String) (rows : List (String × String)) : List String :=
  let width := (rows.map (·.1.length)).foldl max 0
  "" :: (heading ++ ":") :: rows.map fun row => "  " ++ padded width row.1 ++ "  " ++ row.2

namespace OptionSpec

/-- An option as help shows it. -/
def usage (option : OptionSpec) : String :=
  let short := match option.short with
    | some c => String.ofList ['-', c, ',', ' ']
    | none => "    "
  let rest := match option.kind with
    | .flag => ""
    | .counter => "..."
    | .valued => " " ++ valueName option.name
    | .inquiry _ => ""
  short ++ "--" ++ option.name ++ rest

/-- Whether an option is shown before another of the same rank. -/
def before (a b : OptionSpec) : Bool :=
  let key (o : OptionSpec) : String := match o.short with
    | some c => String.singleton c
    | none => o.name
  key a ≤ key b

end OptionSpec

/-- The options of a command and those of the program, by their ranks among their own and then by
name. -/
def mergeOptions : List OptionSpec → List OptionSpec → List OptionSpec
  | a :: own, b :: common =>
    (if a.before b then [a, b] else [b, a]) ++ mergeOptions own common
  | own, [] => own
  | [], common => common

/-- The lines that describe options. -/
def optionSection (options : List OptionSpec) : List String :=
  columns "Options" (options.map fun o => (o.usage, o.about))

namespace ProgramSpec

/-- What the command that shows help texts is about. -/
def helpAbout : String := "Print this message or the help of the given subcommand(s)"

/-- The help text of the program, which was called by a name. -/
def help (spec : ProgramSpec) (program : String) : String :=
  let commands := spec.commands.map fun c => (c.name, c.about)
  "\n".intercalate ([spec.about, "", s!"Usage: {program} [OPTIONS] <COMMAND>"]
    ++ columns "Commands" (commands ++ [(helpName, helpAbout)])
    ++ optionSection (spec.options ++ [.help none, .version])) ++ "\n"

/-- The help text of a command. -/
def commandHelp (spec : ProgramSpec) (program : String) (command : CommandSpec) : String :=
  let positionals := command.positionals.map fun p => (valueName p.name, p.about)
  let usage := " ".intercalate
    (["Usage:", program, command.name, "[OPTIONS]"] ++ positionals.map (·.1))
  "\n".intercalate ([command.about, "", usage]
    ++ (if positionals.isEmpty then [] else columns "Arguments" positionals)
    ++ optionSection
      (mergeOptions command.options spec.options ++ [.help (some command.name)])) ++ "\n"

/-- The help text of the command that shows help texts. -/
def helpOfHelp (program : String) : String :=
  "\n".intercalate ([helpAbout, "", s!"Usage: {program} {helpName} [COMMAND]..."]
    ++ columns "Arguments" [("[COMMAND]...", "Print help for the subcommand(s)")]) ++ "\n"

/-- The text of what is asked for. -/
def answer (spec : ProgramSpec) (program version : String) : Inquiry → String
  | .version => version ++ "\n"
  | .help none => spec.help program
  | .help (some name) =>
    match spec.command? name with
    | some command => spec.commandHelp program command
    | none => helpOfHelp program

end ProgramSpec

end CommandLine

end AbilityGraph
