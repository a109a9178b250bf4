/-! # Values of a TOML document

A document is a tree of tables. Every table remembers how it came to be, because
that decides who may still add to it: a key is given once, a header opens a table
once, and a table in braces is complete where it stands.
-/
namespace DocumentPipeline.Toml

inductive Scalar where
  | text (s : String)
  | integer (n : Int)
  /-- A number with a fraction or an exponent, as written. -/
  | decimal (written : String)
  | boolean (b : Bool)
  /-- A date, a time of day or both, as written. -/
  | moment (written : String)
  deriving DecidableEq, Inhabited

/-- How a table came to be. -/
inductive Origin where
  /-- Opened by its own header, or the root of a document. -/
  | opened
  /-- Passed on the way of another table's header. -/
  | passed
  /-- Passed on the way of a dotted key. -/
  | dotted
  /-- Written in braces. -/
  | braced
  deriving DecidableEq, Inhabited

inductive Value where
  | scalar (s : Scalar)
  /-- A list; it is growing if it has one table for each header of its name. -/
  | list (growing : Bool) (items : List Value)
  | table (origin : Origin) (entries : List (String × Value))
  deriving Inhabited

/-- The keys of a table with their values, in order of first mention. -/
abbrev Entries := List (String × Value)

namespace Entries

/-- Sets the value of a key, in its old place if there is one. -/
def put (key : String) (v : Value) : Entries → Entries
  | [] => [(key, v)]
  | (k, w) :: es => if k = key then (k, v) :: es else (k, w) :: put key v es

@[simp] theorem lookup_put (key k : String) (v : Value) (es : Entries) :
    (put key v es).lookup k = if k = key then some v else es.lookup k := by
  induction es with
  | nil =>
    by_cases h : k = key
    · simp [put, h]
    · simp [put, List.lookup_cons, h, beq_false_of_ne h]
  | cons e es ih =>
    obtain ⟨n, w⟩ := e
    by_cases hn : n = key
    · subst hn
      by_cases h : k = n
      · simp [put, h]
      · simp [put, List.lookup_cons, h, beq_false_of_ne h]
    · by_cases hk : k = n
      · subst hk
        simp [put, hn]
      · simp [put, hn, List.lookup_cons, beq_false_of_ne hk, ih]

/-- Changes the table at the end of a path, making the tables on the way that are
missing. The way through a growing list leads to its last table. A header may pass
any table but a braced one; a dotted key may pass only tables that were never opened. -/
def alterAt (byKey : Bool) (change : Origin → Entries → Option Entries) :
    List String → Origin → Entries → Option Entries
  | [], origin, es => change origin es
  | key :: path, _, es =>
    match es.lookup key with
    | none => do
      let origin := if byKey then .dotted else .passed
      let sub ← alterAt byKey change path origin []
      some (es.put key (.table origin sub))
    | some (.table origin sub) =>
      if origin = .braced ∨ (byKey ∧ origin = .opened) then none
      else do
        let sub ← alterAt byKey change path origin sub
        some (es.put key (.table origin sub))
    | some (.list true items) =>
      match items.getLast? with
      | some (.table origin sub) => do
        let sub ← alterAt byKey change path origin sub
        some (es.put key (.list true (items.dropLast ++ [.table origin sub])))
      | _ => none
    | some _ => none

/-- Gives a value to a new key. The table at the end of a dotted key must itself have
come from dotted keys, and the table of a plain key must not. -/
def give (path : List String) (key : String) (v : Value) : Origin → Entries → Option Entries :=
  alterAt true
    (fun origin es =>
      if (origin = .dotted ↔ path = []) ∨ (es.lookup key).isSome then none
      else some (es.put key v))
    path

/-- Opens a table for a header. A table that was only passed by headers may be opened later. -/
def openTable (key : String) (es : Entries) : Option Entries :=
  match es.lookup key with
  | none => some (es.put key (.table .opened []))
  | some (.table .passed sub) => some (es.put key (.table .opened sub))
  | some _ => none

/-- Adds a table to a growing list for a header. -/
def growList (key : String) (es : Entries) : Option Entries :=
  match es.lookup key with
  | none => some (es.put key (.list true [.table .opened []]))
  | some (.list true items) => some (es.put key (.list true (items ++ [.table .opened []])))
  | some _ => none

end Entries

/-- A table in braces from its keys and values in order. -/
def Value.braced? (pairs : List (List String × String × Value)) : Option Value := do
  let es ← pairs.foldlM (fun es (path, key, v) => Entries.give path key v .braced es) []
  some (.table .braced es)

end DocumentPipeline.Toml
