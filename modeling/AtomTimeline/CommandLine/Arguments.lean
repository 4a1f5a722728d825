/-!
What the arguments of the command line ask for.

* `occurrences` cuts arguments into options with their values and operands, from left to right.
* `Invocation.ofArguments` reads them; the first argument that cannot stand where it is, or that
  asks for help or the version, decides.
-/

namespace AtomTimeline

/-- The forms of a report. -/
inductive ReportFormat where
  | table
  | json
  deriving DecidableEq, Repr

/-- The form with a name. -/
def ReportFormat.ofName? : String → Option ReportFormat
  | "table" => some .table
  | "json" => some .json
  | _ => none

/-- What an import is asked for. -/
structure ImportRequest where
  trace : String
  config : Option String
  descriptor : Option String
  format : ReportFormat
  deriving DecidableEq, Repr

/-- The commands. -/
inductive Command where
  | importTrace
  | listAtoms
  deriving DecidableEq, Repr

/-- The name of a command. -/
def Command.name : Command → String
  | importTrace => "import"
  | listAtoms => "atoms"

/-- The command with a name. -/
def Command.ofName? (name : String) : Option Command :=
  [Command.importTrace, Command.listAtoms].find? (fun command => command.name = name)

/-- The name that asks for help in the place of a command. -/
def helpName : String := "help"

/-- A command with what it needs. -/
inductive Invocation where
  | importTrace (request : ImportRequest)
  | listAtoms (descriptor : Option String)
  deriving DecidableEq, Repr

/-- Why no command is run. -/
inductive CommandStop where
  | refused
  | showVersion
  /-- Help on a command, or on the program. -/
  | showHelp (command : Option Command)
  deriving DecidableEq, Repr

/-! ### Options -/

/-- The options. -/
inductive CommandOption where
  | config
  | descriptor
  | format
  | verbose
  | help
  | version
  deriving DecidableEq, Repr

namespace CommandOption

/-- The letter of an option. -/
def letter : CommandOption → Char
  | config => 'c'
  | descriptor => 'd'
  | format => 'f'
  | verbose => 'v'
  | help => 'h'
  | version => 'V'

/-- The name of an option. -/
def name : CommandOption → String
  | config => "config"
  | descriptor => "descriptor"
  | format => "format"
  | verbose => "verbose"
  | help => "help"
  | version => "version"

/-- The option needs a value. -/
def takesValue : CommandOption → Bool
  | config | descriptor | format => true
  | verbose | help | version => false

/-- The options in front of a command. -/
def ofProgram : List CommandOption := [verbose, help, version]

/-- The options behind a command. -/
def ofCommand : Command → List CommandOption
  | .importTrace => [config, verbose, descriptor, format, help]
  | .listAtoms => [descriptor, verbose, help]

end CommandOption

/-! ### Cutting up arguments -/

/-- A part of the command line. -/
inductive Occurrence where
  | flag (o : CommandOption)
  | setting (o : CommandOption) (value : String)
  | operand (s : String)
  /-- Something that cannot stand where it is. -/
  | invalid
  deriving DecidableEq, Repr

/-- How a run of option letters ends. -/
inductive ClusterEnd where
  | complete
  | invalid
  /-- An option whose value is the rest of the run. -/
  | value (o : CommandOption) (value : String)
  /-- An option whose value is the next argument. -/
  | awaiting (o : CommandOption)
  deriving DecidableEq, Repr

/-- The value behind an option letter, an equals sign in front of it left out. -/
def attachedValue : List Char → String
  | '=' :: cs => String.ofList cs
  | cs => String.ofList cs

/-- Reads a run of option letters. -/
def readCluster (allowed : List CommandOption) : List Char → List CommandOption × ClusterEnd
  | [] => ([], .complete)
  | c :: cs =>
    match allowed.find? (fun o => o.letter = c) with
    | none => ([], .invalid)
    | some o =>
      if o.takesValue then
        ([], if cs = [] then .awaiting o else .value o (attachedValue cs))
      else
        let (os, ending) := readCluster allowed cs
        (o :: os, ending)

/-- Reads an option name with the value attached to it, if any. -/
def readName (allowed : List CommandOption) (cs : List Char) : List CommandOption × ClusterEnd :=
  let name := String.ofList (cs.takeWhile (· ≠ '='))
  match allowed.find? (fun o => o.name = name), cs.dropWhile (· ≠ '=') with
  | none, _ => ([], .invalid)
  | some o, [] => if o.takesValue then ([], .awaiting o) else ([o], .complete)
  | some o, _ :: value => ([], if o.takesValue then .value o (String.ofList value) else .invalid)

/-- Reads an argument that is no value of an option; operands have no reading. -/
def readOptions? (allowed : List CommandOption) (arg : String) :
    Option (List CommandOption × ClusterEnd) :=
  match arg.toList with
  | '-' :: '-' :: cs => some (readName allowed cs)
  | '-' :: c :: cs => some (readCluster allowed (c :: cs))
  | _ => none

/-- The argument behind which all are operands. -/
def operandMark : String := "--"

/-- Cuts arguments into parts, up to one that cannot stand where it is; `awaiting` is an option
whose value comes next. -/
def occurrences (allowed : List CommandOption) (awaiting : Option CommandOption) :
    List String → List Occurrence
  | [] => if awaiting.isSome then [.invalid] else []
  | arg :: args =>
    match awaiting, readOptions? allowed arg with
    | some _, some _ => [.invalid]
    | some o, none => .setting o arg :: occurrences allowed none args
    | none, none => .operand arg :: occurrences allowed none args
    | none, some (os, ending) =>
      if arg = operandMark then args.map .operand
      else
        os.map .flag ++
          match ending with
          | .complete => occurrences allowed none args
          | .invalid => [.invalid]
          | .value o v => .setting o v :: occurrences allowed none args
          | .awaiting o => occurrences allowed (some o) args

/-! ### Reading the parts -/

/-- What was given to a command. -/
structure Given where
  operand : Option String
  config : Option String
  descriptor : Option String
  format : Option ReportFormat
  deriving DecidableEq, Repr

namespace Given

/-- Nothing given. -/
def nothing : Given := ⟨none, none, none, none⟩

/-- A path, if it may be given where `before` was given so far. A path is given once, and it is not
empty. -/
def path (before : Option String) (s : String) : Except CommandStop (Option String) :=
  if before.isSome ∨ s = "" then .error .refused else .ok (some s)

/-- Takes in a part. -/
def add (command : Command) (g : Given) : Occurrence → Except CommandStop Given
  | .invalid => .error .refused
  | .operand s =>
    if command = .importTrace then do
      let operand ← path g.operand s
      pure { g with operand }
    else .error .refused
  | .setting .config s => do
    let config ← path g.config s
    pure { g with config }
  | .setting .descriptor s => do
    let descriptor ← path g.descriptor s
    pure { g with descriptor }
  | .setting .format s =>
    match ReportFormat.ofName? s, g.format with
    | some format, none => .ok { g with format := some format }
    | _, _ => .error .refused
  | .flag .verbose => .ok g
  | .flag .help => .error (.showHelp (some command))
  | .setting _ _ | .flag _ => .error .refused

/-- The command with what was given to it. -/
def invocation (g : Given) : Command → Except CommandStop Invocation
  | .listAtoms => .ok (.listAtoms g.descriptor)
  | .importTrace =>
    match g.operand with
    | none => .error .refused
    | some trace =>
      .ok (.importTrace ⟨trace, g.config, g.descriptor, g.format.getD .table⟩)

end Given

/-- Reads the arguments behind a command. -/
def Command.read (command : Command) (args : List String) : Except CommandStop Invocation := do
  let parts := occurrences (CommandOption.ofCommand command) none args
  let given ← parts.foldlM (Given.add command) Given.nothing
  given.invocation command

/-- Reads the names behind the request for help. -/
def readHelp : List String → CommandStop
  | [] => .showHelp none
  | [name] =>
    if name = helpName then .showHelp none
    else
      match Command.ofName? name with
      | some command => .showHelp (some command)
      | none => .refused
  | _ => .refused

/-- Stops for the first flag that asks for it. -/
def stopFor : List CommandOption → Except CommandStop Unit
  | [] => .ok ()
  | .help :: _ => .error (.showHelp none)
  | .version :: _ => .error .showVersion
  | _ :: os => stopFor os

/-- The command that the arguments ask for. -/
def Invocation.ofArguments : List String → Except CommandStop Invocation
  | [] => .error .refused
  | arg :: args =>
    match readOptions? CommandOption.ofProgram arg with
    | some (os, ending) => do
      stopFor os
      if ending = .complete then ofArguments args else .error .refused
    | none =>
      match Command.ofName? arg with
      | some command => command.read args
      | none => .error (if arg = helpName then readHelp args else .refused)

end AtomTimeline
