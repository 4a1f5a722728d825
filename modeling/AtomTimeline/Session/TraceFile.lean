import AtomTimeline.Config.Loading
import AtomTimeline.Gzip.Member
import AtomTimeline.Session.Session

/-!
Importing traces from files.

* `FileProgram.openTrace` opens a trace; the name of a file says whether it is compressed.
* `Session.importFile` imports one, `Session.ofConfig` being a session set up as settings ask. There
  is no outcome if its importers queue packets without end.
-/

namespace AtomTimeline

/-- Why the file of a trace cannot be imported. -/
inductive ImportError where
  | unopened (path : String) (cause : FileError)
  | broken (path : String) (cause : TraceError)
  deriving DecidableEq, Repr

/-- The texts of an error, from the outermost to its cause. -/
def ImportError.chain : ImportError → List String
  | .unopened path cause => ["Failed to open " ++ path, cause.message]
  | .broken path cause => ("Failed to import " ++ path) :: cause.chain

/-- How the import of a file ended. -/
inductive ImportOutcome where
  | complete
  | failed (e : ImportError)
  | halted (check : FatalCheck)
  deriving DecidableEq, Repr

/-- The outcome of a file, given that of the trace in it. -/
def TraceOutcome.ofFile (path : String) : TraceOutcome → ImportOutcome
  | .complete => .complete
  | .failed e => .failed (.broken path e)
  | .halted check => .halted check

/-- A file with such a name is compressed. -/
def isGzipName (path : String) : Bool := path.toList.reverse.take 3 == ['z', 'g', '.']

/-- The trace in the contents of a file. A folder can be opened and not read. -/
def traceSource (path : String) : Except FileError Bytes → Except FileError Source
  | .ok content =>
    .ok (if isGzipName path then Source.ofGzip content else Source.ofBytes content)
  | .error .isDirectory => .ok ⟨[], some .directory⟩
  | .error e => .error e

/-- Opens the trace in a file. -/
def FileProgram.openTrace (path : String) : FileProgram (Except FileError Source) := do
  pure (traceSource path (← FileProgram.readFile path))

namespace Session

variable {ι : Type} [Importer ι]

/-- Imports the trace in a file. -/
def importFile (s : Session ι) (path : String) :
    FileProgram (Option (ImportOutcome × Session ι)) := do
  match ← FileProgram.openTrace path with
  | .error e => pure (some (.failed (.unopened path e), s))
  | .ok source => pure ((s.importTrace source).map (Prod.map (TraceOutcome.ofFile path) id))

/-- A session that imports atoms. -/
def forAtoms (schema : AtomSchema) (trackName : String) : Session AtomImporter :=
  (initial.register false (.ofSchema schema trackName)).2

/-- A session that imports atoms as settings ask. -/
def ofConfig (config : ImportConfig) :
    FileProgram (Except ConfigError (Session AtomImporter)) := do
  match ← config.loadSchema with
  | .error e => pure (.error e)
  | .ok schema => pure (.ok (forAtoms schema config.trackName))

end Session

end AtomTimeline
