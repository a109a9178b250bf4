import DocumentPipeline.Settings.Fields
import DocumentPipeline.Toml.Document

/-! # Configurations as TOML documents

A configuration is read from the table `processor` of a document. Written, it has
one section with the four fields in order; a document has no integer above
2^63 - 1, so a larger field cannot be written.
-/
namespace DocumentPipeline

/-- The word that a value of a document is, if it is one. -/
def Toml.Value.word? : Toml.Value → Option UInt64
  | .scalar (.integer n) => wordOf? n
  | _ => none

/-- The settings that a value of a document gives. A date or time counts as a table that
names no field. -/
def Settings.ofDocument? : Toml.Value → Option Settings
  | .table _ es => ofNamed? Toml.Value.word? es
  | .list _ items => ofItems? Toml.Value.word? items
  | .scalar (.moment _) => some {}
  | .scalar _ => none

/-- Why a text gives no configuration. -/
def ConfigError.malformed : ConfigError := .parse "the text is not a TOML document"

def ConfigError.unsuitable : ConfigError := .parse "processor has an unsuitable value"

/-- The configuration that the root of a document gives. -/
def Config.ofEntries? (es : Toml.Entries) : Option Config :=
  match es.lookup "processor" with
  | none => some {}
  | some v => (Settings.ofDocument? v).map Config.mk

/-- Reads a configuration from the text of a document. -/
def Config.ofToml (text : String) : Except ConfigError Config :=
  match Toml.read? text with
  | none => .error .malformed
  | some es =>
    match Config.ofEntries? es with
    | none => .error .unsuitable
    | some c => .ok c

/-- The largest integer of a document. -/
def Toml.largest : Nat := 9223372036854775807

/-- A line that gives a number to a key. -/
def Toml.line (key : String) (n : UInt64) : String :=
  key ++ " = " ++ Nat.repr n.toNat ++ "\n"

/-- Whether every field can be written to a document. -/
def Settings.isWritable (s : Settings) : Bool :=
  s.queueSize.toNat ≤ Toml.largest && s.numClients.toNat ≤ Toml.largest &&
    s.numEmitters.toNat ≤ Toml.largest && s.maxOfferWaitMs.toNat ≤ Toml.largest

/-- The document of a configuration. -/
def Config.toToml? (c : Config) : Option String :=
  if c.processor.isWritable then
    some ("[processor]\n" ++ Toml.line "queue_size" c.processor.queueSize ++
      Toml.line "num_clients" c.processor.numClients ++
      Toml.line "num_emitters" c.processor.numEmitters ++
      Toml.line "max_offer_wait_ms" c.processor.maxOfferWaitMs)
  else none

end DocumentPipeline
