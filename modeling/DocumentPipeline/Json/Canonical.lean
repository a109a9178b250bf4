import DocumentPipeline.Json.Value
import DocumentPipeline.Metadata

/-! # Canonical order of JSON values

Values that come in no particular order are listed by their compact texts, with
the members of every object in the order of their names.
-/
namespace DocumentPipeline.Json

/-- Puts a member into its place among members in order. -/
def insertMember (m : String × Json) : List (String × Json) → List (String × Json)
  | [] => [m]
  | n :: ns => if NameBefore n.1 m.1 then n :: insertMember m ns else m :: n :: ns

mutual

/-- The same value with the members of every object in order. -/
def canonical : Json → Json
  | array vs => array (canonicalItems vs)
  | object ms => object (canonicalMembers ms)
  | v => v

def canonicalItems : List Json → List Json
  | [] => []
  | v :: vs => canonical v :: canonicalItems vs

def canonicalMembers : List (String × Json) → List (String × Json)
  | [] => []
  | (k, v) :: ms => insertMember (k, canonical v) (canonicalMembers ms)

end

/-- Lists values in the order of their canonical texts. -/
def sortByText (vs : List Json) : List Json :=
  ((vs.map fun v => (v, v.canonical.render)).mergeSort fun a b => !NameBefore b.2 a.2).map
    Prod.fst

end DocumentPipeline.Json
