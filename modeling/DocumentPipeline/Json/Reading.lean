import DocumentPipeline.Json.Node

/-! # Reading typed values from a JSON tree

A reader takes a node to a value or to the first problem in the order of the
text. A record is read from an object, where unknown names are skipped, or from a
list of its fields in order.
-/
namespace DocumentPipeline.Json

/-- The first problem of a text that does not read as the type asked for. -/
inductive ReadError where
  /-- The text breaks off. -/
  | fault (f : Fault)
  /-- A string whose content has no meaning for its type. -/
  | content
  | invalidType
  | invalidValue
  | invalidLength
  | missingField (name : String)
  | duplicateField (name : String)
  | unknownVariant (given : String) (expected : List String)
  deriving DecidableEq, Inhabited

namespace ReadError

/-- Alternatives between backticks: two joined by "or", more as a list. -/
def alternatives : List String → String
  | [a, b] => "`" ++ a ++ "` or `" ++ b ++ "`"
  | names => "one of " ++ String.intercalate ", " (names.map fun n => "`" ++ n ++ "`")

/-- The wording of a problem that names something. -/
def message? : ReadError → Option String
  | missingField name => some ("missing field `" ++ name ++ "`")
  | duplicateField name => some ("duplicate field `" ++ name ++ "`")
  | unknownVariant given expected =>
    some ("unknown variant `" ++ given ++ "`, expected " ++ alternatives expected)
  | _ => none

end ReadError

/-- The result of reading something. -/
abbrev Result := Except ReadError

/-- The character of a pair of surrogates. -/
def pairChar (high low : Nat) : Char :=
  Char.ofNat ((high - 0xD800) * 1024 + (low - 0xDC00) + 0x10000)

/-- The characters of a string. Escaped surrogates count only as a pair; a lone one is
malformed, unless the text ends right after it. -/
def decodeUnits (fault : Option Fault) : List CodeUnit → Result (List Char)
  | [] =>
    match fault with
    | none => .ok []
    | some f => .error (.fault f)
  | .char c :: us => do .ok (c :: (← decodeUnits fault us))
  | .escaped n :: us =>
    if n < 0xD800 ∨ 0xE000 ≤ n then do .ok (Char.ofNat n :: (← decodeUnits fault us))
    else if 0xDC00 ≤ n then .error (.fault .malformed)
    else
      match us with
      | .escaped m :: us =>
        if 0xDC00 ≤ m ∧ m < 0xE000 then do .ok (pairChar n m :: (← decodeUnits fault us))
        else .error (.fault .malformed)
      | [] => .error (.fault (if fault = some .cutOff then .cutOff else .malformed))
      | _ => .error (.fault .malformed)

/-- The string of a text. -/
def Text.value (t : Text) : Result String := do
  .ok (String.ofList (← decodeUnits t.fault t.units))

section Numbers

/-- The nearest multiple of a power of two that has 53 significant bits, ties to even. -/
def roundBits (n : Nat) : Nat :=
  let drop := n.log2 + 1 - 53
  let unit := Nat.pow 2 drop
  let low := n / unit
  let rest := n % unit
  if 2 * rest < unit ∨ (2 * rest = unit ∧ low % 2 = 0) then low * unit else (low + 1) * unit

/-- Collects digits while the number fits into 64 bits; the digits left over are counted. -/
def significand : Nat → List Char → Nat × Nat
  | n, [] => (n, 0)
  | n, c :: cs =>
    let m := n * 10 + (c.toNat - 48)
    if m < 18446744073709551616 then significand m cs else (n, (c :: cs).length)

/-- Significant digits and power of ten of a numeral. Digits beyond 64 bits count only by
their place. -/
def Numeral.scaled (n : Numeral) : Nat × Int :=
  let (whole, dropped) := significand 0 n.digits
  let fraction := n.fraction.getD []
  let (digits, left) := significand whole fraction
  let place : Int := (dropped : Int) - ((fraction.length - left : Nat) : Int)
  match n.exponent with
  | none => (digits, place)
  | some (true, ds) => (digits, place - Nat.ofDigitChars 10 ds 0)
  | some (false, ds) => (digits, place + Nat.ofDigitChars 10 ds 0)

/-- Whether the value of a numeral has no double-precision value near it. -/
def Numeral.overflows (n : Numeral) : Bool :=
  let (digits, place) := n.scaled
  if digits = 0 ∨ place < 0 then false
  else if 308 < place then true
  else doubleLimit ≤ roundBits digits * roundBits (Nat.pow 10 place.toNat)

/-- What a numeral denotes for a reader of 64-bit words. -/
inductive NumberKind where
  | word (w : UInt64)
  | negative
  /-- Not an integer of 64 bits: minus zero, a fraction, an exponent, or too large. -/
  | inexact
  | overflow
  deriving DecidableEq

def Numeral.kind (n : Numeral) : NumberKind :=
  let whole := Nat.ofDigitChars 10 n.digits 0
  if n.fraction.isNone ∧ n.exponent.isNone ∧ whole < 18446744073709551616 then
    if !n.negative then .word whole.toUInt64
    else if 0 < whole ∧ whole ≤ 9223372036854775808 then .negative
    else .inexact
  else if n.overflows then .overflow
  else .inexact

end Numbers

/-- The problem of a node that is of the wrong kind. -/
def Node.mismatch : Node → ReadError
  | .number n => if n.kind = .overflow then .fault .malformed else .invalidType
  | .text t =>
    match t.value with
    | .ok _ => .invalidType
    | .error e => e
  | .scrap _ f => .fault f
  | _ => .invalidType

/-- The problem of what stands where the name of a variant is wanted. -/
def mismatchOfToken : Option Token → ReadError
  | none => .fault .cutOff
  | some .openBrace | some .openBracket => .invalidType
  | some t =>
    match t.scalar? with
    | some v => v.mismatch
    | none => .fault .malformed

/-- Nothing may break off inside what is skipped. -/
def Node.skip (v : Node) : Result Unit :=
  match v.skipFault? with
  | none => .ok ()
  | some f => .error (.fault f)

/-- Passes the closing bracket or brace. -/
def close : Option Fault → Result Unit
  | none => .ok ()
  | some f => .error (.fault f)

def readString : Node → Result String
  | .text t => t.value
  | v => .error v.mismatch

/-- Reads an integer of 64 bits. -/
def readWord : Node → Result UInt64
  | .number n =>
    match n.kind with
    | .word w => .ok w
    | .negative => .error .invalidValue
    | .inexact => .error .invalidType
    | .overflow => .error (.fault .malformed)
  | v => .error v.mismatch

/-- Reads a string by a reader of its content. -/
def readContent (read? : String → Option α) (v : Node) : Result α := do
  match read? (← readString v) with
  | some a => .ok a
  | none => .error .content

/-- Reads `null` as an absent value. -/
def readOptional (read : Node → Result α) : Node → Result (Option α)
  | .null => .ok none
  | v => do .ok (some (← read v))

/-- Reads a list of values of one type. -/
def readList (read : Node → Result α) : Node → Result (List α)
  | .array items fault => do
    let values ← items.mapM read
    close fault
    .ok values
  | v => .error v.mismatch

/-- Finds a variant by its name. -/
def readVariantName (variants : List (String × α)) (t : Text) : Result α := do
  let name ← t.value
  match variants.lookup name with
  | some a => .ok a
  | none => .error (.unknownVariant name (variants.map Prod.fst))

/-- Reads a variant from its name, or from an object that gives the name with `null`. -/
def readVariant (variants : List (String × α)) : Node → Result α
  | .text t => readVariantName variants t
  | .object members fault =>
    match members with
    | (.name t, v) :: more => do
      let a ← readVariantName variants t
      match v with
      | .null => if more.isEmpty then close fault else .error (.fault .malformed)
      | v => .error v.mismatch
      .ok a
    | (.misfit t, _) :: _ => .error (mismatchOfToken t)
    | [] => .error (.fault (fault.getD .malformed))
  | .scrap .nothing f => .error (.fault f)
  | _ => .error (.fault .malformed)

/-- Reads what labels a member. -/
def readLabel : Label → Result String
  | .name t => t.value
  | .misfit t => .error (.fault (.of t))

/-- Whether a record may lack a field. -/
inductive Presence where
  | required
  /-- An absent member counts as `null`, but a list must not be short of it. -/
  | nullable
  /-- An absent field takes its default. -/
  | defaulted
  deriving DecidableEq

/-- A field of a record, with the check of its value. -/
structure Field where
  name : String
  presence : Presence
  check : Node → Result Unit

/-- A field whose value is read by `read`. -/
def Field.of (name : String) (presence : Presence) (read : Node → Result α) : Field :=
  ⟨name, presence, fun v => do let _ ← read v⟩

/-- The values found for the fields of a record. -/
abbrev Slots := List (String × Node)

/-- Takes one member of an object: a known name fills its slot once, any other is skipped. -/
def takeMember (fields : List Field) (slots : Slots) (m : Label × Node) : Result Slots := do
  let name ← readLabel m.1
  match fields.find? (·.name = name) with
  | none =>
    m.2.skip
    .ok slots
  | some f =>
    if (slots.lookup name).isSome then .error (.duplicateField name)
    else
      f.check m.2
      .ok ((name, m.2) :: slots)

/-- Takes the items of a list for the fields in order. -/
def takeItems (fault : Option Fault) : List Field → List Node → Result Slots
  | [], [] => do
    close fault
    .ok []
  | [], _ :: _ => .error (.fault .malformed)
  | f :: fs, [] => do
    close fault
    if f.presence = .defaulted then takeItems fault fs [] else .error .invalidLength
  | f :: fs, v :: vs => do
    f.check v
    .ok ((f.name, v) :: (← takeItems fault fs vs))

/-- The first required field without a value is missing. -/
def requireAll (slots : Slots) : List Field → Result Unit
  | [] => .ok ()
  | f :: fs =>
    if f.presence = .required ∧ (slots.lookup f.name).isNone then .error (.missingField f.name)
    else requireAll slots fs

/-- Reads a record into the slots of its fields. -/
def readSlots (fields : List Field) : Node → Result Slots
  | .object members fault => do
    let slots ← members.foldlM (takeMember fields) []
    close fault
    requireAll slots fields
    .ok slots
  | .array items fault => takeItems fault fields items
  | v => .error v.mismatch

/-- Reads the slot of a field that must be there. -/
def Slots.get (slots : Slots) (name : String) (read : Node → Result α) : Result α :=
  match slots.lookup name with
  | some v => read v
  | none => .error (.missingField name)

/-- Reads the slot of a field that may be absent. -/
def Slots.getD (slots : Slots) (name : String) (read : Node → Result α) (default : α) : Result α :=
  match slots.lookup name with
  | some v => read v
  | none => .ok default

/-- Reads a whole text; nothing may stand after its value. -/
def decode (read : Node → Result α) (text : String) : Result α := do
  let (v, trailing) := parse text
  let a ← read v
  if trailing then .error (.fault .malformed) else .ok a

end DocumentPipeline.Json
