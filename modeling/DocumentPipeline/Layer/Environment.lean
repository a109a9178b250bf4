import DocumentPipeline.Layer.Written

/-! # Settings from environment variables

The variables whose names begin with `DOCPIPE_`, in any case, form a layer. The
rest of such a name, in small letters, is a path of keys with two underscores or a
point between them.
-/
namespace DocumentPipeline.Layer

/-- How the names of the variables that count begin. -/
def marker : List Char := "DOCPIPE_".toList

/-- Writes a point for every two underscores, from the left. -/
def pointed : List Char → List Char
  | '_' :: '_' :: cs => '.' :: pointed cs
  | c :: cs => c :: pointed cs
  | [] => []

/-- The path of keys that a variable's name stands for, if the variable counts. -/
def pathOf? (name : String) : Option (List String) :=
  let cs := trim name.toList
  if (cs.take marker.length).map Char.toLower = marker.map Char.toLower then
    let keys := (pointed (cs.drop marker.length)).splitOn '.'
    if keys.any List.isEmpty then none
    else some (keys.map fun key => String.ofList (key.map Char.toLower))
  else none

/-- The layer of one variable. -/
def ofVariable (name value : String) : Entries :=
  match pathOf? name with
  | some (key :: path) => [(key, Value.nested path (ofText value))]
  | _ => []

/-- The layer of all variables; later ones lie over earlier ones. -/
def ofEnvironment (environment : List (String × String)) : Entries :=
  environment.foldl (fun es (name, value) => Entries.cover es (ofVariable name value)) []

end DocumentPipeline.Layer
