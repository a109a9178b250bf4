import DocumentPipeline.Layer.Value
import DocumentPipeline.Text.Blank
import DocumentPipeline.Toml.Statement

/-! # Values written in environment variables

A variable may hold a truth value, a whole number, quoted text, a list in brackets
or a table in braces. A text that is none of these from end to end stands for
itself.
-/
namespace DocumentPipeline.Layer

abbrev Reader (α : Type) := List Char → Option (α × List Char)

/-- The blanks that may stand around a value. -/
def isSpace (c : Char) : Bool := c = ' ' || c = '\t' || c = '\n' || c = '\x0c' || c = '\r'

def skipSpaces (cs : List Char) : List Char := cs.dropWhile isSpace

/-- Whether a character ends a value without quotes. -/
def isSeparator (c : Char) : Bool := c = ',' || c = '{' || c = '}' || c = '[' || c = ']'

/-- The number that digits write, if there are any and it is below a limit. -/
def boundedNumber? (limit : Nat) (ds : List Char) : Option Nat :=
  if ds.isEmpty || !ds.all Char.isDigit then none
  else if Nat.ofDigitChars 10 ds 0 < limit then some (Nat.ofDigitChars 10 ds 0)
  else none

/-- The whole number that a word writes; leading zeros do not count. Without a minus it
has 64 bits, with one it is a signed number of 64 bits. -/
def wholeNumber? : List Char → Option Int
  | '-' :: ds => (boundedNumber? 9223372036854775809 ds).map fun n => -(n : Int)
  | '+' :: ds => (boundedNumber? 18446744073709551616 ds).map fun n => (n : Int)
  | ds => (boundedNumber? 18446744073709551616 ds).map fun n => (n : Int)

/-- The meaning of a word without quotes. -/
def ofWord (w : List Char) : Value :=
  match wholeNumber? w with
  | some n => .integer n
  | none => .text (String.ofList w)

/-- Reads items up to a closing character, with a comma after each but the last, where
it may stand too. The closing character must follow such a comma at once. -/
def readDelimited? (close : Char) (read : Reader α) : (most : Nat) → Reader (List α)
  | 0, _ => none
  | most + 1, cs =>
    if cs.head? = some close then some ([], cs.drop 1)
    else do
      let (a, rest) ← read cs
      match rest with
      | [] => none
      | c :: rest =>
        if c = ',' then do
          let (as, rest) ← readDelimited? close read most rest
          some (a :: as, rest)
        else if c = close then some ([a], rest)
        else none

/-- Reads the key of a table in braces. -/
def readKey? : Reader String
  | '"' :: cs => (Toml.readBasic? cs).map fun (t, rest) => (String.ofList t, rest)
  | cs =>
    match cs.span Toml.isKeyChar with
    | ([], _) => none
    | (w, rest) => some (String.ofList w, rest)

/-- Reads a key, the equals sign and a value. -/
def readPair? (read : Reader Value) (cs : List Char) : Option ((String × Value) × List Char) := do
  let (key, rest) ← readKey? (skipSpaces cs)
  match skipSpaces rest with
  | '=' :: rest => do
    let (v, rest) ← read rest
    some ((key, v), rest)
  | _ => none

/-- Reads a value with the blanks around it, inside which brackets and braces may nest
so deep. -/
def readValue? : (depth : Nat) → Reader Value
  | 0, _ => none
  | depth + 1, cs => do
    let (v, rest) ← match skipSpaces cs with
      | 't' :: 'r' :: 'u' :: 'e' :: rest => some (.boolean true, rest)
      | 'f' :: 'a' :: 'l' :: 's' :: 'e' :: rest => some (.boolean false, rest)
      | '{' :: cs =>
        (readDelimited? '}' (readPair? (readValue? depth)) (cs.length + 1) cs).map
          fun (pairs, rest) =>
            (.table (pairs.foldl (fun es (key, v) => Entries.put key v es) []), rest)
      | '[' :: cs =>
        (readDelimited? ']' (readValue? depth) (cs.length + 1) cs).map
          fun (vs, rest) => (.list vs, rest)
      | '"' :: cs => (Toml.readBasic? cs).map fun (t, rest) => (.text (String.ofList t), rest)
      | '\'' :: c :: '\'' :: rest => some (.text (String.ofList [c]), rest)
      | '\'' :: _ => none
      | cs =>
        let (w, rest) := cs.span fun c => !isSeparator c
        some (ofWord (trim w), rest)
    some (v, skipSpaces rest)

/-- The value of a text. Each level of nesting takes a character, so the length bounds
the depth. -/
def ofText (text : String) : Value :=
  match readValue? (text.length + 1) text.toList with
  | some (v, []) => v
  | _ => .text text

end DocumentPipeline.Layer
