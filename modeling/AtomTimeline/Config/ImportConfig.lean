import AtomTimeline.Json.Reading
import AtomTimeline.Schema.AtomSchema
import AtomTimeline.Statsd.AtomImporter

/-!
The settings of an import.

* `ImportConfig.ofJson` reads settings from a JSON text: an object with any of the keys, or a list
  of values in the order of the keys. What is left out has its default.
-/

namespace AtomTimeline

/-- The settings of an import. -/
structure ImportConfig where
  /-- The full name of the message whose fields are the atoms. -/
  atomMessageName : String
  /-- The name of the track of atoms. -/
  trackName : String
  /-- The file of a serialized descriptor set; without one the common atoms are known. -/
  descriptorPath : Option String
  deriving DecidableEq, Repr

/-- What can be set. -/
inductive ConfigKey where
  | atomMessageName
  | trackName
  | descriptorPath
  deriving DecidableEq, Repr

namespace ConfigKey

/-- Every key, in the order of lists. -/
def all : List ConfigKey := [atomMessageName, trackName, descriptorPath]

/-- The name of a key in objects. -/
def name : ConfigKey → String
  | atomMessageName => "atom_message_name"
  | trackName => "track_name"
  | descriptorPath => "descriptor_path"

/-- The key with a name. -/
def ofName? (name : String) : Option ConfigKey := all.find? (fun key => key.name = name)

end ConfigKey

namespace ImportConfig

open Json

/-- The settings where none are given. -/
def default : ImportConfig := ⟨Atoms.messageName, defaultTrackName, none⟩

/-- Reads the value of a key into settings. -/
def readValue (config : ImportConfig) (key : ConfigKey) (b : Bytes) :
    Except FaultAt (ImportConfig × Bytes) := do
  match key with
  | .atomMessageName =>
    let (atomMessageName, rest) ← readText "a string" b
    pure ({ config with atomMessageName }, rest)
  | .trackName =>
    let (trackName, rest) ← readText "a string" b
    pure ({ config with trackName }, rest)
  | .descriptorPath =>
    let (descriptorPath, rest) ← readOptionalText "path string" b
    pure ({ config with descriptorPath }, rest)

/-- Reads values of keys from a list, up to its end or to the last of the keys. -/
def readItems (config : ImportConfig) (first : Bool) :
    List ConfigKey → Bytes → Except FaultAt (ImportConfig × Bytes)
  | [], b => .ok (config, b)
  | key :: keys, b => do
    match ← nextItem first b with
    | none => pure (config, b)
    | some b =>
      let (config, b) ← config.readValue key b
      config.readItems false keys b

/-- Reads the members of an object, of which each key in `unset` may come once. -/
def readMembers (config : ImportConfig) (first : Bool) (unset : List ConfigKey) (b : Bytes) :
    Except FaultAt (ImportConfig × Bytes) :=
  match nextKey first b with
  | .error e => .error e
  | .ok none => .ok (config, b)
  | .ok (some b) =>
    match readString b with
    | .error e => .error e
    | .ok (name, b) =>
      match ConfigKey.ofName? name with
      | none => .error (.unknownKey name (ConfigKey.all.map ConfigKey.name), behindKey b)
      | some key =>
        if _h : key ∈ unset then
          match readColon b with
          | .error e => .error e
          | .ok b =>
            match config.readValue key b with
            | .error e => .error e
            | .ok (config, b) => config.readMembers false (unset.erase key) b
        else .error (.duplicateKey name, behindKey b)
termination_by unset.length
decreasing_by
  have := List.length_pos_of_mem _h
  rw [List.length_erase_of_mem _h]
  omega

/-- Reads settings off the front of a text. -/
def read (b : Bytes) : Except FaultAt (ImportConfig × Bytes) := do
  let b := skipBlanks b
  match b with
  | x :: rest =>
    if x = ascii '[' then
      let (config, rest) ← default.readItems true ConfigKey.all rest
      let rest ← closeList rest
      pure (config, rest)
    else if x = ascii '\x7b' then
      let (config, rest) ← default.readMembers true ConfigKey.all rest
      pure (config, (skipBlanks rest).drop 1)
    else throw (wrongValue "struct ImportConfig" b)
  | [] => throw (wrongValue "struct ImportConfig" b)

/-- Reads settings from a text that holds nothing else. -/
def readAll (b : Bytes) : Except FaultAt ImportConfig := do
  let (config, rest) ← read b
  readEnd rest
  pure config

/-- The settings in a JSON text. -/
def ofJson (text : String) : Except JsonError ImportConfig :=
  let b := Utf8.encode text
  match readAll b with
  | .ok config => .ok config
  | .error (fault, unread) => .error (.locate b fault unread)

end ImportConfig

end AtomTimeline
