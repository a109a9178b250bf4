import DocumentPipeline.Toml.Value

/-! # Layers of settings

Each source of settings is a layer: a tree of tables. Layers are laid over one
another; tables merge key by key, and any other value covers what is below it.
-/
namespace DocumentPipeline.Layer

inductive Value where
  | text (s : String)
  | integer (n : Int)
  /-- A number that is not whole, as written. -/
  | decimal (written : String)
  | boolean (b : Bool)
  | list (items : List Value)
  | table (entries : List (String × Value))
  deriving Inhabited

/-- The keys of a table with their values, in order of first mention. -/
abbrev Entries := List (String × Value)

/-- Sets the value of a key, in its old place if there is one. -/
def Entries.put (key : String) (v : Value) : Entries → Entries
  | [] => [(key, v)]
  | (k, w) :: es => if k = key then (k, v) :: es else (k, w) :: put key v es

mutual

/-- What is seen of two values, the second laid over the first. -/
def Value.cover (below : Value) : Value → Value
  | .table es =>
    match below with
    | .table base => .table (Entries.cover base es)
    | _ => .table es
  | v => v

/-- What is seen of two tables, the second laid over the first. -/
def Entries.cover (base : Entries) : List (String × Value) → Entries
  | [] => base
  | (key, v) :: es =>
    let seen := match base.lookup key with
      | some below => below.cover v
      | none => v
    Entries.cover (base.put key seen) es

end

/-- The table that holds a value at the end of a path of keys. -/
def Value.nested : List String → Value → Value
  | [], v => v
  | key :: path, v => .table [(key, nested path v)]

/-- A date or time is a table with one entry, which no setting is named after. -/
def momentKey : String := "$datetime"

def ofScalar : Toml.Scalar → Value
  | .text s => .text s
  | .integer n => .integer n
  | .decimal w => .decimal w
  | .boolean b => .boolean b
  | .moment w => .table [(momentKey, .text w)]

mutual

/-- The layer's form of a value of a document. -/
def ofDocument : Toml.Value → Value
  | .scalar s => ofScalar s
  | .list _ items => .list (ofItems items)
  | .table _ es => .table (ofEntries es)

def ofItems : List Toml.Value → List Value
  | [] => []
  | v :: vs => ofDocument v :: ofItems vs

def ofEntries : List (String × Toml.Value) → Entries
  | [] => []
  | (key, v) :: es => (key, ofDocument v) :: ofEntries es

end

end DocumentPipeline.Layer
