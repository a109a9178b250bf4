import DocumentPipeline.Text.Digits

/-! # Quoted text of a TOML document

Text stands between double quotes, where a backslash escapes, or between single
quotes, where nothing does. Three quotes begin a block that may run over lines.
Each reader starts after the opening quotes and stops after the closing ones.
-/
namespace DocumentPipeline.Toml

/-- Whether a character may stand in a comment or in text: no control but the tab. -/
def isPlain (c : Char) : Bool := c = '\t' || (0x20 ≤ c.toNat && c.toNat ≠ 0x7f)

/-- The character with a number, if there is one. -/
def charOf? (n : Nat) : Option Char := if n.isValidChar then some (Char.ofNat n) else none

/-- The character of a one-letter escape. -/
def simpleEscape? (c : Char) : Option Char :=
  match c with
  | 'b' => some '\x08'
  | 't' => some '\t'
  | 'n' => some '\n'
  | 'f' => some '\x0c'
  | 'r' => some '\r'
  | '"' => some '"'
  | '\\' => some '\\'
  | _ => none

/-- The character of an escape by number. -/
def numbered? (ds : List Char) : Option Char :=
  if ds.all (isDigitOf 16) then charOf? (numberOf 16 ds) else none

/-- Puts a character in front of the text read. -/
def prepend (c : Char) : Option (List Char × List Char) → Option (List Char × List Char) :=
  Option.map fun (t, rest) => (c :: t, rest)

/-- Reads text up to its double quote. -/
def readBasic? : List Char → Option (List Char × List Char)
  | '"' :: cs => some ([], cs)
  | '\\' :: 'u' :: a :: b :: c :: d :: cs => do
    prepend (← numbered? [a, b, c, d]) (readBasic? cs)
  | '\\' :: 'U' :: a :: b :: c :: d :: e :: f :: g :: h :: cs => do
    prepend (← numbered? [a, b, c, d, e, f, g, h]) (readBasic? cs)
  | '\\' :: e :: cs => do prepend (← simpleEscape? e) (readBasic? cs)
  | c :: cs => if isPlain c then prepend c (readBasic? cs) else none
  | [] => none

/-- Reads text up to its single quote. -/
def readLiteral? : List Char → Option (List Char × List Char)
  | '\'' :: cs => some ([], cs)
  | c :: cs => if isPlain c then prepend c (readLiteral? cs) else none
  | [] => none

/-- Up to two quotes may stand right before the three that close a block. -/
def closeBlock (quote : Char) (cs : List Char) : List Char × List Char :=
  let extra := ((cs.take 2).takeWhile (· = quote)).length
  (List.replicate extra quote, cs.drop extra)

/-- Whether only blanks are left of a line. -/
def restIsBlank (cs : List Char) : Bool :=
  match cs.dropWhile fun c => c = ' ' || c = '\t' with
  | '\n' :: _ => true
  | '\r' :: '\n' :: _ => true
  | _ => false

/-- Reads a block up to its three double quotes. A backslash at the end of a line
skips all blanks and line ends after it. -/
def readBasicBlock? : (skipping : Bool) → List Char → Option (List Char × List Char)
  | true, ' ' :: cs => readBasicBlock? true cs
  | true, '\t' :: cs => readBasicBlock? true cs
  | true, '\n' :: cs => readBasicBlock? true cs
  | true, '\r' :: '\n' :: cs => readBasicBlock? true cs
  | _, '"' :: '"' :: '"' :: cs => some (closeBlock '"' cs)
  | _, '\r' :: '\n' :: cs => prepend '\n' (readBasicBlock? false cs)
  | _, '\n' :: cs => prepend '\n' (readBasicBlock? false cs)
  | _, '\\' :: 'u' :: a :: b :: c :: d :: cs => do
    prepend (← numbered? [a, b, c, d]) (readBasicBlock? false cs)
  | _, '\\' :: 'U' :: a :: b :: c :: d :: e :: f :: g :: h :: cs => do
    prepend (← numbered? [a, b, c, d, e, f, g, h]) (readBasicBlock? false cs)
  | _, '\\' :: e :: cs =>
    if restIsBlank (e :: cs) then readBasicBlock? true cs
    else do prepend (← simpleEscape? e) (readBasicBlock? false cs)
  | _, c :: cs => if isPlain c then prepend c (readBasicBlock? false cs) else none
  | _, [] => none

/-- Reads a block up to its three single quotes. -/
def readLiteralBlock? : List Char → Option (List Char × List Char)
  | '\'' :: '\'' :: '\'' :: cs => some (closeBlock '\'' cs)
  | '\r' :: '\n' :: cs => prepend '\n' (readLiteralBlock? cs)
  | '\n' :: cs => prepend '\n' (readLiteralBlock? cs)
  | c :: cs => if isPlain c then prepend c (readLiteralBlock? cs) else none
  | [] => none

/-- A line end right after the opening quotes of a block is no part of it. -/
def dropLineEnd : List Char → List Char
  | '\n' :: cs => cs
  | '\r' :: '\n' :: cs => cs
  | cs => cs

/-- Reads quoted text of any of the four kinds. -/
def readQuoted? (cs : List Char) : Option (List Char × List Char) :=
  match cs with
  | '"' :: '"' :: '"' :: cs => readBasicBlock? false (dropLineEnd cs)
  | '"' :: cs => readBasic? cs
  | '\'' :: '\'' :: '\'' :: cs => readLiteralBlock? (dropLineEnd cs)
  | '\'' :: cs => readLiteral? cs
  | _ => none

end DocumentPipeline.Toml
