import AtomTimeline.CommandLine.Help
import AtomTimeline.Report.AtomReport
import AtomTimeline.Report.ImportReport
import AtomTimeline.Session.TraceFile

/-!
What the commands do.

* `Invocation.run` runs a command, `runArguments` whatever the arguments ask for. Both read files
  and end in an `Outcome`, two texts and an exit status; they have none only if an import never
  ends.
-/

namespace AtomTimeline

/-- What a run of the program leaves behind. -/
structure Outcome where
  exitStatus : Nat
  output : String
  /-- What is said beside the output. -/
  messages : String
  deriving DecidableEq, Repr

namespace Outcome

/-- The exit status where the arguments cannot be read. -/
def refusedStatus : Nat := 2

/-- A run that went well. -/
def success (output messages : String) : Outcome := ⟨0, output, messages⟩

/-- A text behind a mark, its further lines indented as far. -/
def hanging (mark : String) (text : String) : String :=
  mark ++ String.intercalate ("\n" ++ String.ofList (List.replicate mark.length ' '))
    (text.splitOn "\n")

/-- The number of a cause. -/
def causeMark (n : Nat) : String :=
  String.ofList ((toString n).toList.leftpad 5 ' ') ++ ": "

/-- The lines on the causes of an error. They are numbered if there are several. -/
def causesText : List String → String
  | [] => ""
  | [cause] => "\nCaused by:\n" ++ hanging "    " cause ++ "\n"
  | causes =>
    "\nCaused by:\n" ++
      String.join (causes.zipIdx.map fun (cause, n) => hanging (causeMark n) cause ++ "\n")

/-- The message on an error, given by its texts from the outermost on. -/
def errorText : List String → String
  | [] => ""
  | outermost :: causes => "Error: " ++ outermost ++ "\n" ++ causesText causes

/-- A run that ended in an error. -/
def failure (chain : List String) : Outcome := ⟨1, "", errorText chain⟩

end Outcome

/-! ### Importing -/

/-- The settings for a command: those of a file, or else the defaults, with the descriptor set asked
for in the arguments put in. -/
def loadConfig (config descriptor : Option String) :
    FileProgram (Except ConfigError ImportConfig) := do
  let loaded ←
    match config with
    | some path => ImportConfig.load path
    | none => pure (.ok ImportConfig.default)
  pure (loaded.map fun config =>
    { config with descriptorPath := descriptor.or config.descriptorPath })

/-- A report in a form. -/
def ImportReport.text (r : ImportReport) : ReportFormat → String
  | .table => r.tableText
  | .json => r.jsonText

/-- The outcome of an import that ended as given, with the tables as given. -/
def importOutcome (format : ReportFormat) (st : Storage) : ImportOutcome → Outcome
  | .failed e => .failure e.chain
  | .halted check => .failure [check.message]
  | .complete =>
    let report := ImportReport.ofStorage st
    .success (report.text format) s!"\n{report.slices.length} atoms imported\n"

/-- Imports a trace and reports what is in it. -/
def runImport (r : ImportRequest) : FileProgram (Option Outcome) := do
  match ← loadConfig r.config r.descriptor with
  | .error e => pure (some (.failure e.chain))
  | .ok config =>
    match ← Session.ofConfig config with
    | .error e => pure (some (.failure ("Failed to set up import" :: e.chain)))
    | .ok session =>
      let ended ← session.importFile r.trace
      pure (ended.map fun (outcome, session) => importOutcome r.format session.storage outcome)

/-! ### Listing atoms -/

/-- Reports the atoms of a schema. -/
def atomsOutcome (schema : AtomSchema) : Outcome :=
  match schema.atom? with
  | none => .failure ["Atom message " ++ schema.atomMessageName ++ " not found in schema"]
  | some message =>
    .success (AtomReport.tableText ⟨message⟩)
      (s!"\n{message.fields.length} atoms in " ++ withoutDots message.fullName ++ "\n")

/-- Lists the atoms that a schema knows. -/
def runAtoms (descriptor : Option String) : FileProgram Outcome := do
  match ← loadConfig none descriptor with
  | .error e => pure (.failure e.chain)
  | .ok config =>
    match ← config.loadSchema with
    | .error e => pure (.failure e.chain)
    | .ok schema => pure (atomsOutcome schema)

/-! ### The program -/

/-- Runs a command. -/
def Invocation.run : Invocation → FileProgram (Option Outcome)
  | .importTrace request => runImport request
  | .listAtoms descriptor => do pure (some (← runAtoms descriptor))

/-- The outcome where no command is run. -/
def CommandStop.outcome : CommandStop → Outcome
  | .refused => ⟨Outcome.refusedStatus, "", helpText none⟩
  | .showVersion => .success versionText ""
  | .showHelp command => .success (helpText command) ""

/-- Runs what the arguments ask for. -/
def runArguments (args : List String) : FileProgram (Option Outcome) :=
  match Invocation.ofArguments args with
  | .error stop => pure (some stop.outcome)
  | .ok invocation => invocation.run

end AtomTimeline
