import DocumentPipeline.Metadata
import DocumentPipeline.Text.Digits

/-! # Units of work

A work item says where to fetch a document, where to emit what was extracted
from it, and what to do when parsing fails part way. A payload is the extracted
content, ready for the emitter.
-/
namespace DocumentPipeline

/-- Where to fetch a resource from. -/
structure FetchKey where
  /-- Name of the fetcher that resolves the key. -/
  fetcher : String
  /-- Path, address or object name, as that fetcher reads it. -/
  key : String
  deriving DecidableEq, Inhabited

/-- Where to emit the extracted result. -/
structure EmitKey where
  /-- Name of the emitter that receives the result. -/
  emitter : String
  /-- Output path or index entry, as that emitter reads it. -/
  key : String
  deriving DecidableEq, Inhabited

/-- What becomes of the content extracted before a parse exception. -/
inductive ExceptionPolicy where
  | skip
  | emit
  deriving DecidableEq, Inhabited

/-- One unit of work: fetch a resource, process it, emit the result. -/
structure WorkItem where
  id : String
  fetchKey : FetchKey
  emitKey : EmitKey
  metadata : Metadata := ∅
  onException : ExceptionPolicy := .emit
  deriving DecidableEq, Inhabited

/-- Extracted content: the container document first, then the embedded ones. -/
structure Payload where
  emitKey : EmitKey
  documents : List Metadata
  deriving DecidableEq, Inhabited

/-- Rough size of a payload: the bytes of all names and values. -/
def Payload.byteSize (p : Payload) : Nat := p.documents.foldr (fun m n => m.byteSize + n) 0

namespace Identifier

/-- The hexadecimal digits of a number, exactly `n` of them, most significant first. -/
def hexDigits : Nat → Nat → List Nat
  | 0, _ => []
  | n + 1, r => hexDigits n (r / 16) ++ [r % 16]

@[simp] theorem length_hexDigits (n r : Nat) : (hexDigits n r).length = n := by
  induction n generalizing r with
  | zero => rfl
  | succ n ih => simp [hexDigits, ih]

/-- Marks digit 12 with the version and digit 16 with the variant of a random identifier. -/
def marked (ds : List Nat) : List Nat :=
  (ds.set 12 4).modify 16 fun d => 8 + d % 4

/-- Separates 32 digits into groups of 8, 4, 4, 4 and 12. -/
def grouped (cs : List Char) : List Char :=
  cs.take 8 ++ '-' :: (cs.drop 8).take 4 ++ '-' :: (cs.drop 12).take 4 ++
    '-' :: (cs.drop 16).take 4 ++ '-' :: cs.drop 20

/-- The random identifier made of the low 128 bits of `r`. -/
def ofRandom (r : Nat) : String :=
  String.ofList (grouped ((marked (hexDigits 32 r)).map hexChar))

/-- The shape of an identifier: every digit an `x`, but the version kept and the
variant a `y`. -/
def shape (s : String) : String :=
  let isHex (c : Char) : Bool := c.isDigit || ('a' ≤ c && c ≤ 'f')
  let digit (i : Nat) (c : Char) : Char :=
    if !isHex c then c
    else if i = 14 && c = '4' then c
    else if i = 19 && (c = '8' || c = '9' || c = 'a' || c = 'b') then 'y'
    else 'x'
  String.ofList (s.toList.mapIdx digit)

end Identifier

/-- An item with a random identifier. -/
def WorkItem.withRandomId (random : Nat) (fetchKey : FetchKey) (emitKey : EmitKey) : WorkItem :=
  { id := Identifier.ofRandom random, fetchKey, emitKey }

/-- A sample item whose identifier and keys are all `k`. -/
def WorkItem.sample (k : String) : WorkItem :=
  { id := k, fetchKey := ⟨"fsf", k⟩, emitKey := ⟨"fse", k⟩,
    metadata := Metadata.empty.set "source" "fixture" }

/-- `count` sample items named by a stem and their number, from 0. -/
def WorkItem.samples (stem : String) (count : Nat) : List WorkItem :=
  (List.range count).map fun i => .sample (stem ++ "-" ++ toString i)

end DocumentPipeline
