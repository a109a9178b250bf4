import DocumentPipeline.Settings

/-! # Fields of the settings

The settings are given by name or by position. A field that is not given has its
default; a field that is given must be a word of 64 bits.
-/
namespace DocumentPipeline

/-- A number as a word of 64 bits, if it is one. -/
def wordOf? (n : Int) : Option UInt64 :=
  if 0 ≤ n ∧ n < 18446744073709551616 then some n.toNat.toUInt64 else none

namespace Settings

/-- The value of a field that may be absent. -/
def field (read : α → Option UInt64) (default : UInt64) : Option α → Option UInt64
  | none => some default
  | some v => read v

/-- The settings from what is given for each field. -/
def ofFields? (read : α → Option UInt64)
    (queueSize numClients numEmitters maxOfferWaitMs : Option α) : Option Settings := do
  let d : Settings := {}
  some {
    queueSize := ← field read d.queueSize queueSize
    numClients := ← field read d.numClients numClients
    numEmitters := ← field read d.numEmitters numEmitters
    maxOfferWaitMs := ← field read d.maxOfferWaitMs maxOfferWaitMs }

/-- The settings from named values; other names do not count. -/
def ofNamed? (read : α → Option UInt64) (entries : List (String × α)) : Option Settings :=
  ofFields? read (entries.lookup "queue_size") (entries.lookup "num_clients")
    (entries.lookup "num_emitters") (entries.lookup "max_offer_wait_ms")

/-- The settings from values in the order of the fields; more values do not count. -/
def ofItems? (read : α → Option UInt64) (items : List α) : Option Settings :=
  ofFields? read items[0]? items[1]? items[2]? items[3]?

end Settings

end DocumentPipeline
