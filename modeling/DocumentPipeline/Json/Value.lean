import DocumentPipeline.Text.Digits

/-! # JSON values and their compact text

The values that the library writes, and the one text each of them has: no blanks,
members in the order given, and an escape only where a string needs one.
-/
namespace DocumentPipeline

inductive Json where
  | null
  | natural (n : Nat)
  | text (s : String)
  | array (items : List Json)
  | object (members : List (String × Json))

namespace Json

/-- One character as it stands inside a string: only the quote, the backslash and the
controls below U+0020 are escaped. -/
def escape (c : Char) : List Char :=
  if c = '"' then ['\\', '"']
  else if c = '\\' then ['\\', '\\']
  else if c = '\x08' then ['\\', 'b']
  else if c = '\x0c' then ['\\', 'f']
  else if c = '\n' then ['\\', 'n']
  else if c = '\r' then ['\\', 'r']
  else if c = '\t' then ['\\', 't']
  else if c.toNat < 0x20 then
    ['\\', 'u', '0', '0', hexChar (c.toNat / 16), hexChar (c.toNat % 16)]
  else [c]

/-- A string between its quotes. -/
def quote (s : String) : List Char := '"' :: s.toList.flatMap escape ++ ['"']

mutual

/-- The compact text of a value. -/
def write : Json → List Char
  | null => ['n', 'u', 'l', 'l']
  | natural n => (Nat.repr n).toList
  | text s => quote s
  | array [] => ['[', ']']
  | array (v :: vs) => '[' :: (write v ++ writeItems vs)
  | object [] => ['{', '}']
  | object ((k, v) :: ms) => '{' :: (quote k ++ ':' :: (write v ++ writeMembers ms))

/-- The items after the first, with the closing bracket. -/
def writeItems : List Json → List Char
  | [] => [']']
  | v :: vs => ',' :: (write v ++ writeItems vs)

/-- The members after the first, with the closing brace. -/
def writeMembers : List (String × Json) → List Char
  | [] => ['}']
  | (k, v) :: ms => ',' :: (quote k ++ ':' :: (write v ++ writeMembers ms))

end

/-- The compact text of a value as a string. -/
def render (v : Json) : String := String.ofList v.write

end Json

end DocumentPipeline
