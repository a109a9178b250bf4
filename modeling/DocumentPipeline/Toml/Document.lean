import DocumentPipeline.Toml.Statement

/-! # TOML documents

The statements of a document build one table. A key with its value belongs to the
table of the latest header, or to the root before any header.
-/
namespace DocumentPipeline.Toml

/-- The root of a document in the making, and the path to the table of the latest header. -/
structure Draft where
  root : Entries := []
  current : List String := []

namespace Draft

/-- Takes one statement, unless it breaks the rules of tables. -/
def take (d : Draft) : Statement → Option Draft
  | .openTable path key => do
    let root ← Entries.alterAt false (fun _ => Entries.openTable key) path .opened d.root
    some ⟨root, path ++ [key]⟩
  | .growList path key => do
    let root ← Entries.alterAt false (fun _ => Entries.growList key) path .opened d.root
    some ⟨root, path ++ [key]⟩
  | .give path key v => do
    let root ← Entries.alterAt false (Entries.give path key v) d.current .opened d.root
    some { d with root }

end Draft

/-- The root table that statements build. -/
def ofStatements? (ss : List Statement) : Option Entries :=
  (ss.foldlM Draft.take {}).map Draft.root

/-- A document may begin with a byte order mark. -/
def dropMark : List Char → List Char
  | '\uFEFF' :: cs => cs
  | cs => cs

/-- The root table of a document. -/
def read? (text : String) : Option Entries := do
  ofStatements? (← statements? (dropMark text.toList))

end DocumentPipeline.Toml
