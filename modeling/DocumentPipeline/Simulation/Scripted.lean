import DocumentPipeline.Pipeline.State

/-! # Scripted collaborators

Clients, an emitter and a recorder of reports that do as they are told and note
what they were asked, so that a pipeline can be run without a parser or a
destination.
-/
namespace DocumentPipeline

/-- What a scripted client does with a given fetch key. -/
inductive ScriptedOutcome where
  /-- The parse succeeds and the payload carries the item's metadata. -/
  | success
  | successWithException (message : String)
  | parseException (cause : String)
  | fetchException (cause : String)
  | timeout
  /-- The transport breaks. -/
  | ioError
  | fatal (reason : String)
  | panic (message : String)
  deriving DecidableEq, Inhabited

/-- The payload of a scripted success: the item's metadata with the name of its resource,
and one document of content. -/
def Payload.scripted (item : WorkItem) : Payload :=
  { emitKey := item.emitKey
    documents :=
      [item.metadata.set "resourceName" item.fetchKey.key,
        Metadata.empty.set "content" ("parsed " ++ item.fetchKey.key)] }

def ScriptedOutcome.result (o : ScriptedOutcome) (item : WorkItem) : Return ClientError Outcome :=
  match o with
  | success => .value (.parsed (.scripted item))
  | successWithException m => .value (.parsedWithException (.scripted item) m)
  | parseException c => .value (.parseFailed c)
  | fetchException c => .value (.fetchFailed c)
  | timeout => .value .timedOut
  | ioError => .error (.io "mock client connection lost")
  | fatal r => .error (.fatal r)
  | panic m => .panic m

/-- A factory whose clients share one script and one set of records. -/
structure ScriptedClients where
  outcomes : List (String × ScriptedOutcome) := []
  /-- Fetch keys in the order in which they were processed. -/
  processed : List String := []
  /-- How long processing takes, in milliseconds. -/
  processDuration : Nat := 0
  /-- If set, no client can be created, for this reason. -/
  startupError : Option String := none
  created : Nat := 0
  released : Nat := 0
  deriving Inhabited

namespace ScriptedClients

def name : String := "mock"

def setOutcome (c : ScriptedClients) (key : String) (o : ScriptedOutcome) : ScriptedClients :=
  { c with outcomes := (key, o) :: c.outcomes }

/-- Creates a client. -/
def create (c : ScriptedClients) : Return ClientError Unit × ScriptedClients :=
  match c.startupError with
  | some reason => (.error (.startup reason), c)
  | none => (.value (), { c with created := c.created + 1 })

/-- Gives a client back. -/
def release (c : ScriptedClients) : ScriptedClients := { c with released := c.released + 1 }

/-- Notes that an item is being processed. -/
def beginItem (c : ScriptedClients) (item : WorkItem) : ScriptedClients :=
  { c with processed := c.processed ++ [item.fetchKey.key] }

/-- The result of an item by the script as it stands; without an entry it succeeds. -/
def resultOf (c : ScriptedClients) (item : WorkItem) : Return ClientError Outcome :=
  ((c.outcomes.lookup item.fetchKey.key).getD .success).result item

end ScriptedClients

/-- An emitter that keeps what it is given. -/
structure ScriptedEmitter where
  emitted : List Payload := []
  /-- Deliveries begun, successful or not. -/
  attempts : Nat := 0
  /-- If set, the next delivery fails with it. -/
  nextError : Option EmitError := none
  /-- How long a delivery takes, in milliseconds. -/
  emitDuration : Nat := 0
  deriving Inhabited

namespace ScriptedEmitter

def name : String := "mock"

/-- Begins a delivery, which may fail at once. -/
def beginEmit (e : ScriptedEmitter) : Option EmitError × ScriptedEmitter :=
  (e.nextError, { e with attempts := e.attempts + 1, nextError := none })

/-- Keeps a delivered payload. -/
def keep (e : ScriptedEmitter) (p : Payload) : ScriptedEmitter :=
  { e with emitted := e.emitted ++ [p] }

/-- Emit keys of all payloads kept. -/
def emittedKeys (e : ScriptedEmitter) : List String := e.emitted.map (·.emitKey.key)

end ScriptedEmitter

/-- A recorded report. -/
structure Report where
  id : String
  fetchKey : String
  status : Status
  elapsedMs : Nat
  deriving DecidableEq, Inhabited

def Report.ofOutcome (item : WorkItem) (outcome : Outcome) (elapsedMs : Nat) : Report :=
  ⟨item.id, item.fetchKey.key, outcome.status, elapsedMs⟩

/-- The reports in a history. -/
def reportsOf (es : List Event) : List Report :=
  es.filterMap fun
    | .reported _ item o elapsed => some (.ofOutcome item o elapsed)
    | _ => none

/-- Number of reports with a status. -/
def countStatus (rs : List Report) (s : Status) : Nat := rs.countP (·.status = s)

end DocumentPipeline
