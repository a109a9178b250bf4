import DocumentPipeline.Proofs.Tokens

/-! # The tree of a written value

The tokens of a value lead from any open frames to those frames with the tree of the
value in place, and the tokens after them are left. The text of a value is therefore
parsed to its tree with nothing after it.
-/
namespace DocumentPipeline.Json

mutual

/-- The tree of a written value. -/
def node : Json → Node
  | null => .null
  | natural n => .number (numeral n)
  | text s => .text (textOf s)
  | array vs => .array (itemNodes vs) none
  | object ms => .object (memberNodes ms) none

def itemNodes : List Json → List Node
  | [] => []
  | v :: vs => node v :: itemNodes vs

def memberNodes : List (String × Json) → List (Label × Node)
  | [] => []
  | (k, v) :: ms => (.name (textOf k), node v) :: memberNodes ms

end

/-- Nothing breaks off inside a written value. -/
@[simp] theorem skipFault?_node (v : Json) : (node v).skipFault? = none := by
  cases v <;> simp [node, Node.skipFault?, textOf]

/-- Goes on from what a token led to. -/
def resume : Move → List Token → Node × List Token
  | .inl (fs, want), ts => build fs want ts
  | .inr v, ts => (v, ts)

theorem build_cons (fs : List Frame) (want : Want) (t : Token) (ts : List Token) :
    build fs want (t :: ts) = resume (take fs want t) ts := by
  rw [build]
  cases take fs want t <;> rfl

/-- A written value is handed to the frame around it. -/
theorem settle_node (v : Json) (f : Frame) (fs : List Frame) :
    settle (node v) (f :: fs) = .inl (f.place (node v) :: fs, .next) := by
  simp [settle]

/-- No written value starts with a closing bracket, so the first item of a list is taken
as any value is. -/
theorem build_firstItem (v : Json) (fs : List Frame) (ts : List Token) :
    build fs .firstItem (tokens v ++ ts) = build fs .value (tokens v ++ ts) := by
  cases v with
  | array vs => cases vs <;> rfl
  | object ms => rcases ms with _ | ⟨_, _⟩ <;> rfl
  | _ => rfl

/-- The name of a member opens a place for its value. -/
theorem build_name (k : String) (done : List (Label × Node)) (fs : List Frame)
    (ts : List Token) {want : Want} (hwant : want = .name ∨ want = .firstName) :
    build (.members done :: fs) want (.text (textOf k) :: .colon :: ts) =
      build (.naming done (textOf k) :: fs) .value ts := by
  rcases hwant with rfl | rfl <;> rfl

mutual

/-- The tokens of a value put its tree into the frames around it. -/
theorem build_tokens (v : Json) (fs : List Frame) (ts : List Token) :
    build fs .value (tokens v ++ ts) = resume (settle (node v) fs) ts := by
  match v with
  | null => rw [tokens, List.singleton_append, build_cons]; rfl
  | natural n => rw [tokens, List.singleton_append, build_cons]; rfl
  | text s => rw [tokens, List.singleton_append, build_cons]; rfl
  | array [] =>
    calc build fs .value (tokens (array []) ++ ts)
      _ = build (.items [] :: fs) .firstItem (.closeBracket :: ts) := rfl
      _ = resume (settle (node (array [])) fs) ts := build_cons _ _ _ _
  | array (v :: vs) =>
    calc build fs .value (tokens (array (v :: vs)) ++ ts)
      _ = build (.items [] :: fs) .firstItem (tokens v ++ (itemTokens vs ++ ts)) := by
        rw [tokens, List.cons_append, List.append_assoc]; rfl
      _ = build (.items [node v] :: fs) .next (itemTokens vs ++ ts) := by
        rw [build_firstItem, build_tokens v, settle_node]; rfl
      _ = resume (settle (node (array (v :: vs))) fs) ts := build_itemTokens vs [node v] fs ts
  | object [] =>
    calc build fs .value (tokens (object []) ++ ts)
      _ = build (.members [] :: fs) .firstName (.closeBrace :: ts) := rfl
      _ = resume (settle (node (object [])) fs) ts := build_cons _ _ _ _
  | object ((k, v) :: ms) =>
    calc build fs .value (tokens (object ((k, v) :: ms)) ++ ts)
      _ = build (.members [] :: fs) .firstName
          (.text (textOf k) :: .colon :: (tokens v ++ (memberTokens ms ++ ts))) := by
        rw [tokens]; simp only [List.cons_append, List.append_assoc]; rfl
      _ = build (.members [(.name (textOf k), node v)] :: fs) .next (memberTokens ms ++ ts) := by
        rw [build_name k [] fs _ (.inr rfl), build_tokens v, settle_node]; rfl
      _ = resume (settle (node (object ((k, v) :: ms))) fs) ts := build_memberTokens ms _ fs ts

theorem build_itemTokens (vs : List Json) (done : List Node) (fs : List Frame)
    (ts : List Token) :
    build (.items done :: fs) .next (itemTokens vs ++ ts) =
      resume (settle (.array (done.reverse ++ itemNodes vs) none) fs) ts := by
  match vs with
  | [] =>
    rw [itemTokens, itemNodes, List.append_nil]
    exact build_cons _ _ _ _
  | v :: vs =>
    calc build (.items done :: fs) .next (itemTokens (v :: vs) ++ ts)
      _ = build (.items done :: fs) .value (tokens v ++ (itemTokens vs ++ ts)) := by
        rw [itemTokens, List.cons_append, List.append_assoc]; rfl
      _ = build (.items (node v :: done) :: fs) .next (itemTokens vs ++ ts) := by
        rw [build_tokens v, settle_node]; rfl
      _ = resume (settle (.array (done.reverse ++ itemNodes (v :: vs)) none) fs) ts := by
        rw [build_itemTokens vs, itemNodes, List.reverse_cons, List.append_assoc]; rfl

theorem build_memberTokens (ms : List (String × Json)) (done : List (Label × Node))
    (fs : List Frame) (ts : List Token) :
    build (.members done :: fs) .next (memberTokens ms ++ ts) =
      resume (settle (.object (done.reverse ++ memberNodes ms) none) fs) ts := by
  match ms with
  | [] =>
    rw [memberTokens, memberNodes, List.append_nil]
    exact build_cons _ _ _ _
  | (k, v) :: ms =>
    calc build (.members done :: fs) .next (memberTokens ((k, v) :: ms) ++ ts)
      _ = build (.members done :: fs) .name
          (.text (textOf k) :: .colon :: (tokens v ++ (memberTokens ms ++ ts))) := by
        rw [memberTokens]; simp only [List.cons_append, List.append_assoc]; rfl
      _ = build (.members ((.name (textOf k), node v) :: done) :: fs) .next
          (memberTokens ms ++ ts) := by
        rw [build_name k done fs _ (.inl rfl), build_tokens v, settle_node]; rfl
      _ = resume (settle (.object (done.reverse ++ memberNodes ((k, v) :: ms)) none) fs) ts := by
        rw [build_memberTokens ms, memberNodes, List.reverse_cons, List.append_assoc]; rfl

end

/-- A written value is parsed to its tree, and nothing stands after it. -/
theorem parse_render (v : Json) : parse v.render = (node v, false) := by
  have hbuild := build_tokens v [] []
  rw [List.append_nil] at hbuild
  simp only [parse, render, String.toList_ofList, lex_write, hbuild]
  simp [settle, resume]

/-- Reading the text of a value is reading its tree. -/
theorem decode_render {α : Type} (read : Node → Result α) (v : Json) :
    decode read v.render = read (node v) := by
  rw [decode, parse_render]
  change (do let a ← read (node v); .ok a) = read (node v)
  cases read (node v) <;> rfl

end DocumentPipeline.Json
