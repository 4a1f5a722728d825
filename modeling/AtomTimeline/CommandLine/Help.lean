import AtomTimeline.CommandLine.Arguments

/-!
The texts that explain the command line.

* `helpText` is the help on a command or on the program.
-/

namespace AtomTimeline

/-- The name of the program on the command line. -/
def programName : String := "atomtrace"

/-- The line that tells the version. -/
def versionText : String := programName ++ " 0.1.0\n"

/-- What an option is for. -/
def CommandOption.description (command : Option Command) : CommandOption → String
  | config => "JSON import config"
  | descriptor =>
    "Binary FileDescriptorSet with the atom schema" ++
      if command = some .importTrace then ", overrides the config" else ""
  | format => "[default: table] [possible values: table, json]"
  | verbose => "Increase log verbosity (-v info, -vv debug, -vvv trace)"
  | help => "Print help"
  | version => "Print version"

/-- An option and its value as help shows them. -/
def CommandOption.usage (o : CommandOption) : String :=
  "-" ++ o.letter.toString ++ ", --" ++ o.name ++
    if o.takesValue then " <" ++ o.name.toUpper ++ ">"
    else if o = .verbose then "..." else ""

/-- What a command does. -/
def Command.description : Command → String
  | importTrace => "Import a trace and print every atom slice"
  | listAtoms => "List the atoms the schema knows"

/-- Lines of two columns. -/
def columnsText (rows : List (String × String)) : String :=
  let width := (rows.map fun row => row.1.length).foldl max 0
  String.join (rows.map fun row =>
    "  " ++ String.ofList (row.1.toList.rightpad width ' ') ++ "  " ++ row.2 ++ "\n")

/-- The lines on options. -/
def optionsText (command : Option Command) (os : List CommandOption) : String :=
  "Options:\n" ++ columnsText (os.map fun o => (o.usage, o.description command))

/-- The help on a command or on the program. -/
def helpText : Option Command → String
  | none =>
    "Import statsd atoms from Perfetto traces\n\nUsage: " ++ programName ++
      " [OPTIONS] <COMMAND>\n\nCommands:\n" ++
      columnsText
        [(Command.importTrace.name, Command.importTrace.description),
          (Command.listAtoms.name, Command.listAtoms.description),
          (helpName, "Print this message or the help of the given subcommand(s)")] ++
      "\n" ++ optionsText none CommandOption.ofProgram
  | some command =>
    let isImport := command = .importTrace
    command.description ++ "\n\nUsage: " ++ programName ++ " " ++ command.name ++ " [OPTIONS]" ++
      (if isImport then " <TRACE>" else "") ++ "\n\n" ++
      (if isImport then
        "Arguments:\n" ++ columnsText [("<TRACE>", "Path to the trace (.pb, or .pb.gz)")] ++ "\n"
      else "") ++
      optionsText (some command) (CommandOption.ofCommand command)

end AtomTimeline
