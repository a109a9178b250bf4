import DocumentPipeline.Text.Blank
import DocumentPipeline.Time.Date

/-! # Points of time and their written form

An instant is written in UTC by the rules of RFC 3339, with a final `Z` and 0, 3,
6 or 9 digits of the second's fraction, the fewest that lose nothing. Reading
accepts any offset below a day and is lenient about padding and blanks.
-/
namespace DocumentPipeline

/-- A point of time: whole seconds since 1970-01-01T00:00:00Z and nanoseconds,
which reach into a second billion only inside a leap second. -/
structure Instant where
  seconds : Int
  nanos : Nat := 0
  nanos_lt : nanos < 2000000000 := by decide
  deriving DecidableEq

namespace Instant

instance : Inhabited Instant := ⟨{ seconds := 0 }⟩

/-- The instant a number of milliseconds later. -/
def addMillis (t : Instant) (ms : Nat) : Instant :=
  let total := t.nanos + ms % 1000 * 1000000
  { seconds := t.seconds + (ms / 1000 : Nat) + (total / 1000000000 : Nat)
    nanos := total % 1000000000
    nanos_lt := Nat.lt_of_lt_of_le (Nat.mod_lt _ (by decide)) (by decide) }

/-- Decimal digits of a number, at least `width` of them. -/
def padded (width n : Nat) : List Char :=
  let ds := (Nat.repr n).toList
  List.replicate (width - ds.length) '0' ++ ds

/-- A year of four digits; others carry their sign. -/
def writeYear (year : Int) : List Char :=
  if 0 ≤ year ∧ year ≤ 9999 then padded 4 year.toNat
  else if year < 0 then '-' :: padded 4 year.natAbs
  else '+' :: padded 4 year.natAbs

/-- The fraction of a second, in groups of three digits, as many as are needed. -/
def writeFraction (nanos : Nat) : List Char :=
  if nanos = 0 then []
  else if nanos % 1000000 = 0 then '.' :: padded 3 (nanos / 1000000)
  else if nanos % 1000 = 0 then '.' :: padded 6 (nanos / 1000)
  else '.' :: padded 9 nanos

/-- Date and time of day in UTC, without the zone. -/
def writeLocal (t : Instant) : List Char :=
  let date := Date.ofDayNumber (t.seconds / 86400)
  let second := (t.seconds % 86400).toNat
  writeYear date.year ++ '-' :: padded 2 date.month ++ '-' :: padded 2 date.day ++
    'T' :: padded 2 (second / 3600) ++ ':' :: padded 2 (second / 60 % 60) ++
    ':' :: padded 2 (second % 60 + t.nanos / 1000000000) ++
    writeFraction (t.nanos % 1000000000)

/-- The written form of an instant. -/
def write (t : Instant) : String := String.ofList (t.writeLocal ++ ['Z'])

section Reading

/-- Reads at most `most` leading digits as a number; at least one is needed. -/
def readNumber? (most : Nat) (cs : List Char) : Option (Nat × List Char) :=
  let ds := (cs.take most).takeWhile Char.isDigit
  if ds.isEmpty then none
  else some (Nat.ofDigitChars 10 ds 0, cs.drop ds.length)

/-- Reads a number after blanks. -/
def readField? (most : Nat) (cs : List Char) : Option (Nat × List Char) :=
  readNumber? most (trimStart cs)

/-- Reads a year: four digits at most, or a sign and any number of digits. -/
def readYear? (cs : List Char) : Option (Int × List Char) :=
  match trimStart cs with
  | '-' :: cs => (readNumber? cs.length cs).map fun (n, r) => (-(n : Int), r)
  | '+' :: cs => (readNumber? cs.length cs).map fun (n, r) => ((n : Int), r)
  | cs => (readNumber? 4 cs).map fun (n, r) => ((n : Int), r)

/-- Skips blanks and one given character. -/
def readMark? (mark : Char) (cs : List Char) : Option (List Char) :=
  match trimStart cs with
  | c :: cs => if c = mark then some cs else none
  | [] => none

/-- Reads an optional fraction of a second in nanoseconds; digits after the ninth are dropped. -/
def readFraction? (cs : List Char) : Option (Nat × List Char) :=
  match cs with
  | '.' :: cs =>
    (readNumber? 9 cs).map fun (n, r) =>
      (n * Nat.pow 10 (9 - (cs.length - r.length)), r.dropWhile Char.isDigit)
  | cs => some (0, cs)

/-- Reads two digits. -/
def readTwo? : List Char → Option (Nat × List Char)
  | a :: b :: cs =>
    if a.isDigit && b.isDigit then some ((a.toNat - 48) * 10 + (b.toNat - 48), cs) else none
  | _ => none

/-- Reads a zone as its offset from UTC in seconds. -/
def readZone? (cs : List Char) : Option (Int × List Char) :=
  let signed (negative : Bool) (cs : List Char) : Option (Int × List Char) := do
    let (hours, cs) ← readTwo? cs
    let cs := cs.dropWhile fun c => c = ':' || isBlank c
    let (minutes, cs) ← readTwo? cs
    if minutes < 60 then
      let offset : Int := (hours * 3600 + minutes * 60 : Nat)
      some (if negative then -offset else offset, cs)
    else none
  match cs with
  | 'Z' :: cs | 'z' :: cs => some (0, cs)
  | '+' :: cs => signed false cs
  | '-' :: cs | '−' :: cs => signed true cs
  | a :: b :: c :: cs =>
    if [a, b, c].map Char.toUpper = ['U', 'T', 'C'] then some (0, cs) else none
  | _ => none

/-- Range of the years that can be told. -/
def yearInRange (year : Int) : Bool := -262143 ≤ year && year ≤ 262142

/-- Whether an instant falls into the years that can be told. -/
def inRange (t : Instant) : Bool := yearInRange (Date.ofDayNumber (t.seconds / 86400)).year

/-- The instant at which clocks at an offset show a date and time of day. A
second of 60 is a leap second. -/
def ofLocal? (date : Date) (hour minute second nanos : Nat) (offset : Int) : Option Instant :=
  if yearInRange date.year ∧ date.IsValid ∧ hour < 24 ∧ minute < 60 ∧ second ≤ 60 ∧
      -86400 < offset ∧ offset < 86400 then
    let shown := if second = 60 then 59 else second
    let extra := if second = 60 then 1000000000 else 0
    let time : Int := (hour * 3600 + minute * 60 + shown : Nat)
    if h : extra + nanos < 2000000000 then
      let t : Instant :=
        { seconds := date.dayNumber * 86400 + time - offset, nanos := extra + nanos, nanos_lt := h }
      if t.inRange then some t else none
    else none
  else none

/-- Reads a date and time with a zone. -/
def read? (text : String) : Option Instant := do
  let (year, cs) ← readYear? text.toList
  let cs ← readMark? '-' cs
  let (month, cs) ← readField? 2 cs
  let cs ← readMark? '-' cs
  let (day, cs) ← readField? 2 cs
  let cs ← match cs with
    | 'T' :: cs | 't' :: cs | ' ' :: cs => some cs
    | _ => none
  let (hour, cs) ← readField? 2 cs
  let cs ← readMark? ':' cs
  let (minute, cs) ← readField? 2 cs
  let cs ← readMark? ':' cs
  let (second, cs) ← readField? 2 cs
  let (nanos, cs) ← readFraction? cs
  let (offset, cs) ← readZone? (trimStart cs)
  if (trimStart cs).isEmpty then ofLocal? ⟨year, month, day⟩ hour minute second nanos offset
  else none

end Reading

end Instant

end DocumentPipeline
