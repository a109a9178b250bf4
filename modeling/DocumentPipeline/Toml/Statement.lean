import DocumentPipeline.Toml.Text
import DocumentPipeline.Toml.Word

/-! # Statements of a TOML document

A document is a sequence of statements, each on its own lines: a header of a table,
a header of a list of tables, or a key with its value. Every reader returns what it
found with the rest of the characters, or nothing if the characters do not fit.
-/
namespace DocumentPipeline.Toml

inductive Statement where
  /-- A header that opens a table. The last key stands apart from the path to it. -/
  | openTable (path : List String) (key : String)
  /-- A header that adds a table to a list. -/
  | growList (path : List String) (key : String)
  | give (path : List String) (key : String) (v : Value)
  deriving Inhabited

abbrev Reader (α : Type) := List Char → Option (α × List Char)

/-- Nesting of brackets and braces stays below this, and so does the number of keys in a path. -/
def depthLimit : Nat := 80

def skipBlanks (cs : List Char) : List Char := cs.dropWhile fun c => c = ' ' || c = '\t'

/-- Passes the end of a line, or the end of the document. -/
def lineEnd? : List Char → Option (List Char)
  | [] => some []
  | '\n' :: cs => some cs
  | '\r' :: '\n' :: cs => some cs
  | _ => none

/-- Skips a comment, if there is one, up to the first character that may not stand in it. -/
def skipComment (cs : List Char) : List Char :=
  if cs.head? = some '#' then cs.dropWhile isPlain else cs

/-- Passes what is left of a line: blanks and perhaps a comment. -/
def finishLine? (cs : List Char) : Option (List Char) := lineEnd? (skipComment (skipBlanks cs))

/-- Skips blanks, line ends and comments. -/
def skipGap : (inComment : Bool) → List Char → List Char
  | _, [] => []
  | _, '\n' :: cs => skipGap false cs
  | _, '\r' :: '\n' :: cs => skipGap false cs
  | true, c :: cs => if isPlain c then skipGap true cs else c :: cs
  | false, ' ' :: cs => skipGap false cs
  | false, '\t' :: cs => skipGap false cs
  | false, '#' :: cs => skipGap true cs
  | false, cs => cs

section Keys

/-- Whether a character may stand in a key without quotes. -/
def isKeyChar (c : Char) : Bool :=
  (c.isAlphanum || c = '_' || c = '-')

def readKey? : Reader String
  | '"' :: cs => (readBasic? cs).map fun (t, rest) => (String.ofList t, rest)
  | '\'' :: cs => (readLiteral? cs).map fun (t, rest) => (String.ofList t, rest)
  | cs =>
    match cs.span isKeyChar with
    | ([], _) => none
    | (w, rest) => some (String.ofList w, rest)

/-- Reads at most so many keys with points between them; the last stands apart. -/
def readPath? : (most : Nat) → Reader (List String × String)
  | 0, _ => none
  | most + 1, cs => do
    let (key, rest) ← readKey? (skipBlanks cs)
    match skipBlanks rest with
    | '.' :: cs => do
      let ((path, last), rest) ← readPath? most cs
      some ((key :: path, last), rest)
    | rest => some (([], key), rest)

/-- Reads a path of keys with the blanks around it. -/
def readKeys? : Reader (List String × String) := readPath? (depthLimit - 1)

end Keys

section Values

/-- Reads the rest of a list of values. A comma may follow the last. -/
def readItems? (read : Reader Value) : (most : Nat) → Reader (List Value)
  | 0, _ => none
  | most + 1, cs => do
    match skipGap false cs with
    | ']' :: rest => some ([], rest)
    | cs =>
      let (v, rest) ← read cs
      match skipGap false rest with
      | ']' :: rest => some ([v], rest)
      | ',' :: rest => do
        let (vs, rest) ← readItems? read most rest
        some (v :: vs, rest)
      | _ => none

/-- Reads a path, the equals sign and a value. -/
def readPair? (read : Reader Value) (cs : List Char) :
    Option ((List String × String × Value) × List Char) := do
  let ((path, key), rest) ← readKeys? cs
  match rest with
  | '=' :: rest => do
    let (v, rest) ← read (skipBlanks rest)
    some ((path, key, v), rest)
  | _ => none

/-- Reads pairs up to the closing brace, with a comma between two of them. -/
def readPairs? (read : Reader Value) : (most : Nat) → Reader (List (List String × String × Value))
  | 0, _ => none
  | most + 1, cs => do
    let (pair, rest) ← readPair? read cs
    match skipBlanks rest with
    | '}' :: rest => some ([pair], rest)
    | ',' :: rest => do
      let (pairs, rest) ← readPairs? read most rest
      some (pair :: pairs, rest)
    | _ => none

/-- Reads a value inside which brackets and braces may nest so deep. -/
def readValue? : (depth : Nat) → Reader Value
  | 0, cs => readFlat? cs
  | depth + 1, cs =>
    match cs with
    | '[' :: cs =>
      (readItems? (readValue? depth) (cs.length + 1) cs).map fun (vs, rest) =>
        (.list false vs, rest)
    | '{' :: cs =>
      match skipBlanks cs with
      | '}' :: rest => some (.table .braced [], rest)
      | _ => do
        let (pairs, rest) ← readPairs? (readValue? depth) (cs.length + 1) cs
        some (← Value.braced? pairs, rest)
    | cs => readFlat? cs
where
  /-- Reads quoted text or words. -/
  readFlat? (cs : List Char) : Option (Value × List Char) :=
    match cs with
    | '"' :: _ | '\'' :: _ =>
      (readQuoted? cs).map fun (t, rest) => (.scalar (.text (String.ofList t)), rest)
    | cs => (readWords? cs).map fun (s, rest) => (.scalar s, rest)

end Values

/-- Reads one statement, from its first character to the end of its last line. -/
def readStatement? (cs : List Char) : Option (Statement × List Char) :=
  match cs with
  | '[' :: '[' :: cs => do
    let ((path, key), rest) ← readKeys? cs
    match rest with
    | ']' :: ']' :: rest => (finishLine? rest).map (.growList path key, ·)
    | _ => none
  | '[' :: cs => do
    let ((path, key), rest) ← readKeys? cs
    match rest with
    | ']' :: rest => (finishLine? rest).map (.openTable path key, ·)
    | _ => none
  | cs => do
    let ((path, key, v), rest) ← readPair? (readValue? (depthLimit - 1)) cs
    (finishLine? rest).map (.give path key v, ·)

/-- Reads at most so many statements and lines without one. -/
def readStatements? : (most : Nat) → List Char → Option (List Statement)
  | 0, _ => none
  | most + 1, cs =>
    match skipBlanks cs with
    | [] => some []
    | c :: rest =>
      if c = '#' ∨ c = '\n' ∨ c = '\r' then do
        readStatements? most (← finishLine? (c :: rest))
      else do
        let (s, rest) ← readStatement? (c :: rest)
        let more ← readStatements? most rest
        some (s :: more)

/-- The statements of a document. Each takes a character, so the length bounds their number. -/
def statements? (cs : List Char) : Option (List Statement) := readStatements? (cs.length + 1) cs

end DocumentPipeline.Toml
