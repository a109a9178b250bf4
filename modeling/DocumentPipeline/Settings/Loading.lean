import DocumentPipeline.Layer.Environment
import DocumentPipeline.Settings.Document

/-! # Loading a configuration

A configuration is loaded from a file, over which the environment lays its own
layer. What is seen from above is then read field by field.
-/
namespace DocumentPipeline

/-- What stands at a path. -/
inductive Source where
  | absent
  /-- A directory counts as a file without content. -/
  | directory
  | file (content : ByteArray)

/-- The word that a value of a layer is, if it is one. -/
def Layer.Value.word? : Layer.Value → Option UInt64
  | .integer n => wordOf? n
  | _ => none

/-- The settings that a value of a layer gives. -/
def Settings.ofLayer? : Layer.Value → Option Settings
  | .table es => ofNamed? Layer.Value.word? es
  | .list items => ofItems? Layer.Value.word? items
  | _ => none

/-- The configuration that a layer gives. -/
def Config.ofLayer? (es : Layer.Entries) : Option Config :=
  match es.lookup "processor" with
  | none => some {}
  | some v => (Settings.ofLayer? v).map Config.mk

/-- The layer of a file. -/
def Layer.ofContent? (content : ByteArray) : Option Layer.Entries := do
  let text ← String.fromUTF8? content
  some (Layer.ofEntries (← Toml.read? text))

/-- The layer of what stands at a path. -/
def Layer.ofSource (path : String) : Source → Except ConfigError Layer.Entries
  | .absent => .error (.fileNotFound path)
  | .directory => .ok []
  | .file content =>
    match Layer.ofContent? content with
    | none => .error .malformed
    | some es => .ok es

/-- Loads a configuration from a path where `source` stands, in an environment. -/
def Config.load (path : String) (source : Source) (environment : List (String × String)) :
    Except ConfigError Config := do
  let base ← Layer.ofSource path source
  match Config.ofLayer? (base.cover (Layer.ofEnvironment environment)) with
  | none => .error .unsuitable
  | some c => .ok c

end DocumentPipeline
