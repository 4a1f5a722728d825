import AtomTimeline.Config.ImportConfig
import AtomTimeline.Files.Access

/-!
Settings and schemas that lie in files.

* `ImportConfig.load` reads settings from a file, `ImportConfig.loadSchema` the schema that settings
  ask for.
-/

namespace AtomTimeline

/-- Why an import cannot be set up. -/
inductive ConfigError where
  | unreadable (path : String) (cause : FileError)
  | invalidConfig (path : String) (cause : JsonError)
  | invalidDescriptors (path : String) (cause : SchemaError)
  deriving DecidableEq, Repr

/-- The texts of an error, from the outermost to its cause. -/
def SchemaError.chain (e : SchemaError) : List String :=
  match e with
  | .unreadable fault => [e.message, fault.message]
  | .invalidFieldNumber _ => [e.message]

/-- The texts of an error, from the outermost to its cause. -/
def ConfigError.chain : ConfigError → List String
  | .unreadable path cause => ["failed to read " ++ path, cause.message]
  | .invalidConfig path cause => ["invalid config " ++ path, cause.message]
  | .invalidDescriptors path cause => ("invalid descriptor set " ++ path) :: cause.chain

namespace ImportConfig

/-- The settings in the contents of a file. -/
def ofFile (path : String) : Except FileError Bytes → Except ConfigError ImportConfig
  | .error e => .error (.unreadable path e)
  | .ok content =>
    match Utf8.text? content with
    | none => .error (.unreadable path .notText)
    | some text => (ofJson text).mapError (.invalidConfig path)

/-- Reads settings from a file. -/
def load (path : String) : FileProgram (Except ConfigError ImportConfig) := do
  pure (ofFile path (← FileProgram.readFile path))

/-- The schema in the contents of a file. -/
def schemaOfFile (config : ImportConfig) (path : String) :
    Except FileError Bytes → Except ConfigError AtomSchema
  | .error e => .error (.unreadable path e)
  | .ok content =>
    (AtomSchema.read? content config.atomMessageName).mapError (.invalidDescriptors path)

/-- The schema that settings ask for: that of their file, or else the common atoms. -/
def loadSchema (config : ImportConfig) : FileProgram (Except ConfigError AtomSchema) :=
  match config.descriptorPath with
  | none => pure (.ok ⟨AtomSchema.builtinPool, config.atomMessageName⟩)
  | some path => do pure (config.schemaOfFile path (← FileProgram.readFile path))

end ImportConfig

end AtomTimeline
