import DocumentPipeline.Text.Digits
import DocumentPipeline.Time.Date
import DocumentPipeline.Toml.Value

/-! # Words of a TOML document

A value that is neither quoted nor bracketed is one word: a truth value, a number,
or a date and time. A word has a meaning as a whole or not at all. The only value
of two words is a date, a single space and a time of day.
-/
namespace DocumentPipeline.Toml

/-- Whether a character ends a word. -/
def endsWord (c : Char) : Bool :=
  c = ' ' || c = '\t' || c = '\n' || c = '\r' || c = ',' || c = ']' || c = '}' || c = '#'

section Numbers

/-- Digits whose underscores all stand alone between two digits, without the underscores. -/
def ungroup? (isDigit : Char → Bool) : List Char → Option (List Char)
  | [] => none
  | c :: cs =>
    if isDigit c then
      match cs with
      | [] => some [c]
      | '_' :: cs => (ungroup? isDigit cs).map (c :: ·)
      | cs => (ungroup? isDigit cs).map (c :: ·)
    else none

/-- Whether a number is negative, and its unsigned part. -/
def splitSign : List Char → Bool × List Char
  | '-' :: cs => (true, cs)
  | '+' :: cs => (false, cs)
  | cs => (false, cs)

/-- A whole number in decimal digits without a leading zero. -/
def wholeDigits? (cs : List Char) : Option (List Char) := do
  let ds ← ungroup? Char.isDigit cs
  if ds.head? = some '0' ∧ ds ≠ ['0'] then none else some ds

/-- Integers are signed words of 64 bits. -/
def inWordRange (n : Int) : Bool := -9223372036854775808 ≤ n && n ≤ 9223372036854775807

/-- The magnitude of an unsigned integer of any base, or of a decimal one with a sign. -/
def readInteger? (w : List Char) : Option Int := do
  let n ← match w with
    | '0' :: 'x' :: ds => (ungroup? (isDigitOf 16) ds).map fun ds => (numberOf 16 ds : Int)
    | '0' :: 'o' :: ds => (ungroup? (isDigitOf 8) ds).map fun ds => (numberOf 8 ds : Int)
    | '0' :: 'b' :: ds => (ungroup? (isDigitOf 2) ds).map fun ds => (numberOf 2 ds : Int)
    | w =>
      let (negative, cs) := splitSign w
      (wholeDigits? cs).map fun ds =>
        let n : Int := Nat.ofDigitChars 10 ds 0
        if negative then -n else n
  if inWordRange n then some n else none

/-- Whether digits times a power of ten reach the limit of double precision. -/
def reachesLimit (ds : List Char) (exponent : Int) : Bool :=
  let n := Nat.ofDigitChars 10 ds 0
  if n = 0 ∨ exponent + ds.length < 308 then false
  else if 310 < exponent then true
  else doubleLimit * Nat.pow 10 (-exponent).toNat ≤ n * Nat.pow 10 exponent.toNat

/-- The exponent of a number after its letter. -/
def readExponent? (cs : List Char) : Option Int := do
  let (negative, cs) := splitSign cs
  let ds ← ungroup? Char.isDigit cs
  let n : Int := Nat.ofDigitChars 10 ds 0
  some (if negative then -n else n)

/-- Splits off an exponent; the first part stands before its letter. -/
def splitExponent? (cs : List Char) : Option (List Char × Option Int) :=
  match cs.span fun c => c ≠ 'e' && c ≠ 'E' with
  | (front, []) => some (front, none)
  | (front, _ :: cs) => (readExponent? cs).map fun e => (front, some e)

/-- Whether a word is a number with a fraction or an exponent, or one of `inf` and
`nan`. A positive number must not be too large. -/
def isDecimal (w : List Char) : Bool :=
  let (negative, cs) := splitSign w
  if cs = ['i', 'n', 'f'] ∨ cs = ['n', 'a', 'n'] then true
  else
    match splitExponent? cs with
    | none => false
    | some (front, exponent) =>
      match front.span (· ≠ '.') with
      | (whole, []) =>
        match wholeDigits? whole, exponent with
        | some ds, some e => negative || !reachesLimit ds e
        | _, _ => false
      | (whole, _ :: fraction) =>
        match wholeDigits? whole, ungroup? Char.isDigit fraction with
        | some ds, some fs => negative || !reachesLimit (ds ++ fs) (exponent.getD 0 - fs.length)
        | _, _ => false

end Numbers

section Moments

/-- The number of two digits. -/
def twoDigits? (a b : Char) : Option Nat :=
  if a.isDigit && b.isDigit then some (Nat.ofDigitChars 10 [a, b] 0) else none

/-- Whether characters are a date of the calendar. -/
def isDate : List Char → Bool
  | [a, b, c, d, '-', e, f, '-', g, h] =>
    match twoDigits? a b, twoDigits? c d, twoDigits? e f, twoDigits? g h with
    | some century, some year, some month, some day =>
      decide (Date.IsValid ⟨(century * 100 + year : Nat), month, day⟩)
    | _, _, _, _ => false
  | _ => false

/-- Whether characters are a fraction of a second, or none. -/
def isSecondFraction : List Char → Bool
  | [] => true
  | '.' :: ds => !ds.isEmpty && ds.all Char.isDigit
  | _ => false

/-- Whether characters are a time of day; a second may be a leap second. -/
def isTime : List Char → Bool
  | a :: b :: ':' :: c :: d :: ':' :: e :: f :: cs =>
    match twoDigits? a b, twoDigits? c d, twoDigits? e f with
    | some hour, some minute, some second =>
      hour < 24 && minute < 60 && second ≤ 60 && isSecondFraction cs
    | _, _, _ => false
  | _ => false

/-- Whether characters are an offset from UTC, or none. -/
def isOffset : List Char → Bool
  | [] | ['Z'] | ['z'] => true
  | [sign, a, b, ':', c, d] =>
    match twoDigits? a b, twoDigits? c d with
    | some hour, some minute => (sign = '+' || sign = '-') && hour < 24 && minute < 60
    | _, _ => false
  | _ => false

/-- Whether characters are a time of day that an offset may follow. -/
def isZonedTime (cs : List Char) : Bool :=
  let (time, offset) := cs.span fun c => c ≠ 'Z' && c ≠ 'z' && c ≠ '+' && c ≠ '-'
  isTime time && isOffset offset

/-- Whether a word is a date, a time of day, or a date and a time with a `T` between them. -/
def isMoment (w : List Char) : Bool :=
  isDate w || isTime w ||
    match w.drop 10 with
    | 'T' :: time | 't' :: time => isDate (w.take 10) && isZonedTime time
    | _ => false

end Moments

/-- The meaning of a word. -/
def ofWord? (w : List Char) : Option Scalar :=
  if w = ['t', 'r', 'u', 'e'] then some (.boolean true)
  else if w = ['f', 'a', 'l', 's', 'e'] then some (.boolean false)
  else
    match readInteger? w with
    | some n => some (.integer n)
    | none =>
      if isDecimal w then some (.decimal (String.ofList w))
      else if isMoment w then some (.moment (String.ofList w))
      else none

/-- Splits off the leading word. -/
def splitWord (cs : List Char) : List Char × List Char := cs.span fun c => !endsWord c

/-- Reads a value written in words. -/
def readWords? (cs : List Char) : Option (Scalar × List Char) :=
  let (w, rest) := splitWord cs
  let more := splitWord (rest.drop 1)
  if isDate w ∧ rest.head? = some ' ' ∧ isZonedTime more.1 then
    some (.moment (String.ofList (w ++ ' ' :: more.1)), more.2)
  else (ofWord? w).map (·, rest)

end DocumentPipeline.Toml
