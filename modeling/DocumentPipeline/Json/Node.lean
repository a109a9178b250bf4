import DocumentPipeline.Json.Token

/-! # The tree of a JSON text

A text is read as far as it goes. Where it breaks off, the tree holds a scrap, and
every list or object that was still open is marked with the fault that a reader
meets who skips it whole. A reader that walks the tree in order therefore meets
the same first problem as one that walks the text.
-/
namespace DocumentPipeline.Json

/-- What stands in the place of a member's name. -/
inductive Label where
  | name (t : Text)
  /-- No string: another token, or the end of the text. -/
  | misfit (t : Option Token)
  deriving DecidableEq, Inhabited

inductive Node where
  | null
  | bool (b : Bool)
  | number (n : Numeral)
  | text (t : Text)
  | scrap (s : Scrap) (f : Fault)
  /-- The items in order, and the fault before the closing bracket. -/
  | array (items : List Node) (fault : Option Fault)
  /-- The members in order, and the fault before the closing brace. -/
  | object (members : List (Label × Node)) (fault : Option Fault)
  deriving Inhabited

/-- An open list or object with what it holds so far, latest first. -/
inductive Frame where
  | items (done : List Node)
  | members (done : List (Label × Node))
  /-- An object whose latest name still lacks its value. -/
  | naming (done : List (Label × Node)) (name : Text)

/-- The fault met by skipping a node whole. A number that breaks off is malformed even
at the end of the text. -/
def Node.skipFault? : Node → Option Fault
  | text t => t.fault
  | scrap .number _ => some .malformed
  | scrap _ f => some f
  | array _ f => f
  | object _ f => f
  | _ => none

/-- Puts a finished node into its frame. -/
def Frame.place (v : Node) : Frame → Frame
  | items done => items (v :: done)
  | naming done name => members ((.name name, v) :: done)
  | members done => members done

/-- The node of a frame that ends here. -/
def Frame.node (fault : Option Fault) : Frame → Node
  | items done => .array done.reverse fault
  | members done => .object done.reverse fault
  | naming done _ => .object done.reverse fault

/-- Ends all frames around a node that breaks off. -/
def breakOff (v : Node) : List Frame → Node
  | [] => v
  | f :: fs => breakOff ((f.place v).node v.skipFault?) fs

/-- Ends the innermost frame with a fault, and all frames around it. -/
def breakFrame (fault : Fault) : List Frame → Node
  | [] => .scrap .nothing fault
  | f :: fs => breakOff (f.node (some fault)) fs

/-- What the text has to go on with. -/
inductive Want where
  | value
  /-- A value or the end of a list just opened. -/
  | firstItem
  /-- A name or the end of an object just opened. -/
  | firstName
  | name
  | colon
  /-- A comma or the end of the innermost frame. -/
  | next
  deriving DecidableEq

/-- The fault of a token that does not fit, or of the end of the text. -/
def Fault.of : Option Token → Fault
  | none => cutOff
  | some _ => malformed

/-- The node a token makes by itself, if it is a scalar or a scrap. -/
def Token.scalar? : Token → Option Node
  | null => some .null
  | bool b => some (.bool b)
  | number n => some (.number n)
  | text t => some (.text t)
  | scrap s f => some (.scrap s f)
  | _ => none

/-- Ends the text at a place where a name is wanted. -/
def breakName (t : Option Token) : List Frame → Node
  | .members done :: fs =>
    breakOff (.object ((.misfit t, .scrap .nothing (.of t)) :: done).reverse (some (.of t))) fs
  | fs => breakFrame (.of t) fs

/-- What a token leads to: more of the text inside some frames, or the whole tree. -/
abbrev Move := (List Frame × Want) ⊕ Node

/-- Hands a node to the frame around it; a node that breaks off ends the tree. -/
def settle (v : Node) (fs : List Frame) : Move :=
  if v.skipFault?.isSome then .inr (breakOff v fs)
  else
    match fs with
    | [] => .inr v
    | f :: fs => .inl (f.place v :: fs, .next)

/-- Takes a token where a value is wanted. -/
def takeValue (fs : List Frame) : Token → Move
  | .openBracket => .inl (.items [] :: fs, .firstItem)
  | .openBrace => .inl (.members [] :: fs, .firstName)
  | t =>
    match t.scalar? with
    | some v => settle v fs
    | none => .inr (breakOff (.scrap .nothing .malformed) fs)

/-- Takes a token where a name is wanted. -/
def takeName (fs : List Frame) (t : Token) : Move :=
  match t, fs with
  | .text name, .members done :: fs =>
    if name.fault.isSome then
      .inr (breakOff
        (.object ((.name name, .scrap .nothing .malformed) :: done).reverse name.fault) fs)
    else .inl (.naming done name :: fs, .colon)
  | _, _ => .inr (breakName (some t) fs)

/-- Takes one token. -/
def take (fs : List Frame) (want : Want) (t : Token) : Move :=
  match want with
  | .value => takeValue fs t
  | .firstItem =>
    match t, fs with
    | .closeBracket, f :: fs => settle (f.node none) fs
    | _, _ => takeValue fs t
  | .next =>
    match t, fs with
    | .comma, .items _ :: _ => .inl (fs, .value)
    | .comma, .members _ :: _ => .inl (fs, .name)
    | .closeBracket, .items done :: fs => settle (.array done.reverse none) fs
    | .closeBrace, .members done :: fs => settle (.object done.reverse none) fs
    | _, _ => .inr (breakFrame .malformed fs)
  | .firstName =>
    match t, fs with
    | .closeBrace, f :: fs => settle (f.node none) fs
    | _, _ => takeName fs t
  | .name => takeName fs t
  | .colon =>
    match t with
    | .colon => .inl (fs, .value)
    | _ => .inr (breakOff (.scrap .nothing .malformed) fs)

/-- The tree of a text that ends inside some frames. -/
def atEnd (fs : List Frame) : Want → Node
  | .value | .colon => breakOff (.scrap .nothing .cutOff) fs
  | .firstItem | .next => breakFrame .cutOff fs
  | .firstName | .name => breakName none fs

/-- Builds the tree of a token sequence inside some frames; the second result holds the
tokens after it. -/
def build (fs : List Frame) (want : Want) : List Token → Node × List Token
  | [] => (atEnd fs want, [])
  | t :: ts =>
    match take fs want t with
    | .inl (fs, want) => build fs want ts
    | .inr v => (v, ts)

/-- The tree of a text and whether anything stands after it. -/
def parse (text : String) : Node × Bool :=
  let (v, rest) := build [] .value (lex text.toList)
  (v, !rest.isEmpty)

end DocumentPipeline.Json
