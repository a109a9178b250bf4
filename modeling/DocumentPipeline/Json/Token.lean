import DocumentPipeline.Json.Value

/-! # JSON tokens

A text is cut into tokens from the left. A piece that is no token ends the cut: it
is kept as a scrap with the fault that was met, which is either a wrong character
or the end of the text.
-/
namespace DocumentPipeline.Json

/-- Why a text breaks off. -/
inductive Fault where
  /-- A character stands where it must not. -/
  | malformed
  /-- The text ends too early. -/
  | cutOff
  deriving DecidableEq, Inhabited

/-- The fault of stopping before a rest. -/
def Fault.before : List Char → Fault
  | [] => cutOff
  | _ :: _ => malformed

/-- One unit of a string: a character, or an escaped 16-bit code unit. -/
inductive CodeUnit where
  | char (c : Char)
  | escaped (code : Nat)
  deriving DecidableEq, Inhabited

/-- The inside of a string, with a fault if its closing quote was not reached. -/
structure Text where
  units : List CodeUnit
  fault : Option Fault
  deriving DecidableEq, Inhabited

/-- A number as written. -/
structure Numeral where
  negative : Bool
  digits : List Char
  fraction : Option (List Char)
  exponent : Option (Bool × List Char)
  deriving DecidableEq, Inhabited

/-- What a scrap set out to be. -/
inductive Scrap where
  | word
  | number
  | nothing
  deriving DecidableEq, Inhabited

inductive Token where
  | openBrace
  | closeBrace
  | openBracket
  | closeBracket
  | colon
  | comma
  | null
  | bool (b : Bool)
  | number (n : Numeral)
  | text (t : Text)
  | scrap (s : Scrap) (f : Fault)
  deriving DecidableEq, Inhabited

/-- The blanks between tokens. -/
def isSpace (c : Char) : Bool := c = ' ' || c = '\n' || c = '\t' || c = '\r'

/-- Value of four hexadecimal digits. -/
def hexQuad? (a b c d : Char) : Option Nat := do
  some ((← hexValue? a) * 4096 + (← hexValue? b) * 256 + (← hexValue? c) * 16 + (← hexValue? d))

/-- The character a one-letter escape stands for. -/
def simpleEscape? (c : Char) : Option Char :=
  match c with
  | '"' => some '"'
  | '\\' => some '\\'
  | '/' => some '/'
  | 'b' => some '\x08'
  | 'f' => some '\x0c'
  | 'n' => some '\n'
  | 'r' => some '\r'
  | 't' => some '\t'
  | _ => none

/-- An escape needs four more bytes; with fewer the text ends inside it. -/
def Fault.ofShortEscape (rest : List Char) : Fault :=
  if rest.foldl (fun n c => n + c.utf8Size) 0 < 4 then cutOff else malformed

/-- Reads the inside of a string up to its closing quote. -/
def lexText : List Char → Text × List Char
  | [] => (⟨[], some .cutOff⟩, [])
  | '"' :: cs => (⟨[], none⟩, cs)
  | '\\' :: 'u' :: a :: b :: c :: d :: cs =>
    match hexQuad? a b c d with
    | some n => let (t, r) := lexText cs; (⟨.escaped n :: t.units, t.fault⟩, r)
    | none => (⟨[], some (.ofShortEscape (a :: b :: c :: d :: cs))⟩, cs)
  | '\\' :: 'u' :: cs => (⟨[], some (.ofShortEscape cs)⟩, [])
  | '\\' :: e :: cs =>
    match simpleEscape? e with
    | some c => let (t, r) := lexText cs; (⟨.char c :: t.units, t.fault⟩, r)
    | none => (⟨[], some .malformed⟩, cs)
  | ['\\'] => (⟨[], some .cutOff⟩, [])
  | c :: cs =>
    if c.toNat < 0x20 then (⟨[], some .malformed⟩, cs)
    else let (t, r) := lexText cs; (⟨.char c :: t.units, t.fault⟩, r)

/-- Takes a word whose first letter has been seen. -/
def lexWord (t : Token) : List Char → List Char → Token × List Char
  | [], cs => (t, cs)
  | _ :: _, [] => (.scrap .word .cutOff, [])
  | w :: ws, c :: cs => if w = c then lexWord t ws cs else (.scrap .word .malformed, cs)

/-- Takes the leading digits. -/
def takeDigits (cs : List Char) : List Char × List Char :=
  (cs.takeWhile Char.isDigit, cs.dropWhile Char.isDigit)

/-- Reads an exponent after its letter: a sign, if there is one, and digits. -/
def lexExponent (cs : List Char) : Except Fault (Bool × List Char) × List Char :=
  let (negative, cs) := match cs with
    | '-' :: cs => (true, cs)
    | '+' :: cs => (false, cs)
    | cs => (false, cs)
  let (ds, rest) := takeDigits cs
  if ds.isEmpty then (.error (.before rest), rest) else (.ok (negative, ds), rest)

/-- Reads what may follow the digits and the fraction of a number. -/
def lexAfterFraction (n : Numeral) (cs : List Char) : Token × List Char :=
  match cs with
  | 'e' :: cs | 'E' :: cs =>
    match lexExponent cs with
    | (.ok e, rest) => (.number { n with exponent := some e }, rest)
    | (.error f, rest) => (.scrap .number f, rest)
  | cs => (.number n, cs)

/-- Reads what may follow the digits of a number. -/
def lexAfterDigits (n : Numeral) (cs : List Char) : Token × List Char :=
  match cs with
  | '.' :: cs =>
    let (ds, rest) := takeDigits cs
    if ds.isEmpty then (.scrap .number (.before rest), rest)
    else lexAfterFraction { n with fraction := some ds } rest
  | cs => lexAfterFraction n cs

/-- Reads a number after its sign. No digit follows a leading zero. -/
def lexNumber (negative : Bool) (cs : List Char) : Token × List Char :=
  match cs with
  | '0' :: cs =>
    match cs with
    | c :: rest =>
      if c.isDigit then (.scrap .number .malformed, rest)
      else lexAfterDigits ⟨negative, ['0'], none, none⟩ (c :: rest)
    | [] => lexAfterDigits ⟨negative, ['0'], none, none⟩ []
  | cs =>
    let (ds, rest) := takeDigits cs
    if ds.isEmpty then (.scrap .number (.before rest), rest)
    else lexAfterDigits ⟨negative, ds, none, none⟩ rest

/-- Reads one token that starts with `c`. -/
def lexToken (c : Char) (cs : List Char) : Token × List Char :=
  match c with
  | '{' => (.openBrace, cs)
  | '}' => (.closeBrace, cs)
  | '[' => (.openBracket, cs)
  | ']' => (.closeBracket, cs)
  | ':' => (.colon, cs)
  | ',' => (.comma, cs)
  | '"' => let (t, r) := lexText cs; (.text t, r)
  | 'n' => lexWord .null ['u', 'l', 'l'] cs
  | 't' => lexWord (.bool true) ['r', 'u', 'e'] cs
  | 'f' => lexWord (.bool false) ['a', 'l', 's', 'e'] cs
  | '-' => lexNumber true cs
  | c => if c.isDigit then lexNumber false (c :: cs) else (.scrap .nothing .malformed, cs)

/-- Whether the cut ends with this token. -/
def Token.isLast : Token → Bool
  | scrap _ _ => true
  | text t => t.fault.isSome
  | _ => false

/-- Cuts a text into tokens, taking at most `fuel` steps. -/
def lexUpTo : Nat → List Char → List Token
  | 0, _ => []
  | _ + 1, [] => []
  | fuel + 1, c :: cs =>
    if isSpace c then lexUpTo fuel cs
    else
      let (t, rest) := lexToken c cs
      if t.isLast then [t] else t :: lexUpTo fuel rest

/-- The tokens of a text. Each step takes a character, so its length is steps enough. -/
def lex (cs : List Char) : List Token := lexUpTo cs.length cs

end DocumentPipeline.Json
