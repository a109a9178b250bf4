import DocumentPipeline.Proofs.Nesting

/-! # Texts put together from pieces

Each value of a text is read on its own, whatever stands around it. A text of an object can
therefore be put together from texts of its members, and every text of an object with members falls
apart into such pieces.
-/
namespace DocumentPipeline.Json

section Marks

/-- The character of a token that is nothing but that character. -/
def Token.mark? : Token → Option Char
  | openBrace => some '{'
  | closeBrace => some '}'
  | openBracket => some '['
  | closeBracket => some ']'
  | colon => some ':'
  | comma => some ','
  | _ => none

variable {c d : Char} {cs rest : List Char} {t : Token} {ts : List Token}

theorem mark?_lexWord (ht : t.mark? = none) (ws cs : List Char) :
    (lexWord t ws cs).1.mark? = none := by
  induction ws generalizing cs with
  | nil => exact ht
  | cons w ws ih =>
    cases cs with
    | nil => rfl
    | cons c cs =>
      rw [lexWord]
      split
      · exact ih cs
      · rfl

theorem mark?_lexAfterFraction (n : Numeral) (cs : List Char) :
    (lexAfterFraction n cs).1.mark? = none := by
  unfold lexAfterFraction
  split
  · split <;> rfl
  · split <;> rfl
  · rfl

theorem mark?_lexAfterDigits (n : Numeral) (cs : List Char) :
    (lexAfterDigits n cs).1.mark? = none := by
  unfold lexAfterDigits
  split
  · dsimp only
    split
    · rfl
    · exact mark?_lexAfterFraction _ _
  · exact mark?_lexAfterFraction _ _

theorem mark?_lexNumber (negative : Bool) (cs : List Char) :
    (lexNumber negative cs).1.mark? = none := by
  unfold lexNumber
  split
  · split
    · split
      · rfl
      · exact mark?_lexAfterDigits _ _
    · exact mark?_lexAfterDigits _ _
  · dsimp only
    split
    · rfl
    · exact mark?_lexAfterDigits _ _

theorem lexToken_of_mark (h : lexToken c cs = (t, rest)) (ht : t.mark? = some d) :
    c = d ∧ rest = cs := by
  have hnone {p : Token × List Char} (hp : p = (t, rest)) (hmark : p.1.mark? = none) :
      c = d ∧ rest = cs := by
    rw [hp, ht] at hmark
    cases hmark
  unfold lexToken at h
  split at h
  case h_1 | h_2 | h_3 | h_4 | h_5 | h_6 =>
    cases h
    cases ht
    exact ⟨rfl, rfl⟩
  case h_7 => exact hnone h rfl
  case h_8 | h_9 | h_10 => exact hnone h (mark?_lexWord rfl _ _)
  case h_11 => exact hnone h (mark?_lexNumber _ _)
  case h_12 =>
    split_ifs at h
    · exact hnone h (mark?_lexNumber _ _)
    · exact hnone h rfl

theorem isLast_of_mark (ht : t.mark? = some d) : t.isLast = false := by
  cases t <;> first | rfl | cases ht

theorem lex_mark (t : Token) (ht : t.mark? = some d) (cs : List Char) :
    lex (d :: cs) = t :: lex cs := by
  cases t <;> cases ht <;> exact lex_token rfl rfl rfl

theorem parts_cons (hc : Stops c) (cs : List Char) : Parts (c :: cs) := by
  intro d hd
  obtain rfl : c = d := by simpa using hd
  exact hc

end Marks

/-- Spaces, line ends and tabs. -/
structure Blanks where
  chars : List Char
  blank : ∀ c ∈ chars, isSpace c = true

/-- A text of a string, with blanks around it. -/
structure NameText where
  chars : List Char
  text : Text
  lex_eq : lex chars = [.text text]
  closed : text.fault = none

/-- A text of one value, with blanks around it. -/
structure ValueText where
  chars : List Char
  tree : Node
  build_eq : build [] .value (lex chars) = (tree, [])
  unbroken : tree.skipFault? = none

/-- A text of a name and its value. -/
structure MemberText where
  name : NameText
  value : ValueText

section Blanks

variable {c : Char} {cs : List Char} {t : Token} {ts : List Token} {d : Char}

theorem stops_of_isSpace (hc : isSpace c = true) : Stops c := by
  simp only [isSpace, Bool.or_eq_true, decide_eq_true_eq] at hc
  rcases hc with ((rfl | rfl) | rfl) | rfl <;> exact ⟨rfl, by decide⟩

namespace Blanks

def none : Blanks := ⟨[], nofun⟩

def cons (s : Blanks) (hc : isSpace c = true) : Blanks :=
  ⟨c :: s.chars, by simpa [hc] using s.blank⟩

theorem parts (s : Blanks) (hcs : Parts cs) : Parts (s.chars ++ cs) := by
  intro c hc
  cases hs : s.chars with
  | nil => exact hcs c (by simpa [hs] using hc)
  | cons d ds =>
    obtain rfl : d = c := by simpa [hs] using hc
    exact stops_of_isSpace (s.blank d (by simp [hs]))

theorem parts_self (s : Blanks) : Parts s.chars := by
  have hend : Parts [] := nofun
  simpa using s.parts hend

theorem lex_append (s : Blanks) (cs : List Char) : lex (s.chars ++ cs) = lex cs :=
  lex_blanks s.blank cs

theorem lex_eq (s : Blanks) : lex s.chars = [] := by
  have h := s.lex_append []
  rwa [List.append_nil] at h

/-- Blanks between tokens do not count. -/
theorem lex_between {a b : List Char} (s : Blanks) (ha : Whole a)
    (hab : lex (a ++ b) = lex a ++ lex b) : lex (a ++ (s.chars ++ b)) = lex (a ++ b) := by
  cases hs : s.chars with
  | nil => rfl
  | cons c cs =>
    have hparts : Parts (s.chars ++ b) := by
      rw [hs]
      exact parts_cons (stops_of_isSpace (s.blank c (by simp [hs]))) _
    rw [← hs, Json.lex_append ha hparts, s.lex_append, hab]

end Blanks

/-- A text without tokens is blank. -/
theorem exists_blanks (h : lex cs = []) : ∃ s : Blanks, s.chars = cs := by
  induction cs with
  | nil => exact ⟨.none, rfl⟩
  | cons c cs ih =>
    cases hc : isSpace c with
    | true =>
      obtain ⟨s, hs⟩ := ih (by rwa [lex_space hc] at h)
      exact ⟨s.cons hc, by rw [← hs]; rfl⟩
    | false =>
      obtain ⟨t, rest, hcut⟩ : ∃ t rest, lexToken c cs = (t, rest) := ⟨_, _, rfl⟩
      cases ht : t.isLast with
      | true =>
        rw [lex_last hc hcut ht] at h
        cases h
      | false =>
        rw [lex_token hc hcut ht] at h
        cases h

/-- A text whose first token is a mark begins with it, save for blanks. -/
theorem exists_mark (h : lex cs = t :: ts) (ht : t.mark? = some d) :
    ∃ (s : Blanks) (rest : List Char), cs = s.chars ++ d :: rest ∧ lex rest = ts := by
  induction cs with
  | nil => cases h
  | cons c cs ih =>
    cases hc : isSpace c with
    | true =>
      obtain ⟨s, rest, rfl, hrest⟩ := ih (by rwa [lex_space hc] at h)
      exact ⟨s.cons hc, rest, rfl, hrest⟩
    | false =>
      obtain ⟨u, rest, hcut⟩ : ∃ u rest, lexToken c cs = (u, rest) := ⟨_, _, rfl⟩
      cases hlast : u.isLast with
      | true =>
        rw [lex_last hc hcut hlast] at h
        obtain ⟨rfl, -⟩ := List.cons.inj h
        rw [isLast_of_mark ht] at hlast
        cases hlast
      | false =>
        rw [lex_token hc hcut hlast] at h
        obtain ⟨rfl, hrest⟩ := List.cons.inj h
        obtain ⟨rfl, rfl⟩ := lexToken_of_mark hcut ht
        exact ⟨.none, rest, rfl, hrest⟩

end Blanks

section Pieces

variable {tail : List Char}

namespace NameText

theorem whole (n : NameText) : Whole n.chars := by
  intro t ht
  rw [n.lex_eq] at ht
  obtain rfl := List.mem_singleton.mp ht
  simp [Token.isLast, n.closed]

theorem lex_append (n : NameText) (ht : Parts tail) :
    lex (n.chars ++ tail) = .text n.text :: lex tail := by
  rw [Json.lex_append n.whole ht, n.lex_eq]
  rfl

/-- The name with blanks after it. -/
def before (n : NameText) (s : Blanks) : NameText where
  chars := n.chars ++ s.chars
  text := n.text
  lex_eq := by rw [n.lex_append s.parts_self, s.lex_eq]
  closed := n.closed

end NameText

namespace ValueText

theorem whole (v : ValueText) : Whole v.chars := isLast_of_build v.build_eq v.unbroken

/-- The value with blanks after it. -/
def before (v : ValueText) (s : Blanks) : ValueText where
  chars := v.chars ++ s.chars
  tree := v.tree
  build_eq := by
    rw [lex_append v.whole s.parts_self, s.lex_eq, List.append_nil, v.build_eq]
  unbroken := v.unbroken

/-- A value is put into the frame that it stands in. -/
theorem build_append_eq (v : ValueText) (f : Frame) (fs : List Frame) (ht : Parts tail) :
    build (f :: fs) .value (lex (v.chars ++ tail)) =
      build (f.place v.tree :: fs) .next (lex tail) := by
  have hsettle : settle v.tree (f :: fs) = .inl (f.place v.tree :: fs, .next) := by
    simp [settle, v.unbroken]
  have hbuild := build_append (.inr rfl) v.build_eq v.unbroken (f :: fs) (lex tail)
  rw [lex_append v.whole ht, ← List.nil_append (f :: fs), hbuild, hsettle]
  rfl

/-- No value begins with a closing bracket. -/
theorem build_firstItem (v : ValueText) (fs : List Frame) (ht : Parts tail) :
    build fs .firstItem (lex (v.chars ++ tail)) = build fs .value (lex (v.chars ++ tail)) := by
  have hbuild := v.build_eq
  have hunbroken := v.unbroken
  rw [lex_append v.whole ht]
  cases hlex : lex v.chars with
  | nil =>
    rw [hlex] at hbuild
    obtain ⟨hbroken, -⟩ := Prod.mk.inj hbuild
    rw [← hbroken] at hunbroken
    cases hunbroken
  | cons t ts =>
    have hfirst : t ≠ .closeBracket := by
      rintro rfl
      rw [hlex, build_cons] at hbuild
      obtain ⟨hbroken, -⟩ := Prod.mk.inj hbuild
      rw [← hbroken] at hunbroken
      cases hunbroken
    rw [List.cons_append, build_cons, build_cons, take_firstItem hfirst]
    rfl

/-- The whole text is decoded by reading its tree. -/
theorem decode_eq {α : Type} (v : ValueText) (read : Node → Result α) :
    decode read (String.ofList v.chars) = read v.tree := by
  have hparse : parse (String.ofList v.chars) = (v.tree, false) := by
    simp [parse, v.build_eq]
  rw [decode, hparse]
  change (do let a ← read v.tree; .ok a) = read v.tree
  cases read v.tree <;> rfl

end ValueText

namespace MemberText

def chars (m : MemberText) : List Char := m.name.chars ++ ':' :: m.value.chars

/-- What the member is called, once its escapes are resolved. -/
def Named (m : MemberText) (name : String) : Prop := m.name.text.value = .ok name

/-- What the text gives of a member. -/
def node (m : MemberText) : Label × Node := (.name m.name.text, m.value.tree)

theorem Named.readLabel_eq {m : MemberText} {name : String} (h : m.Named name) :
    readLabel (.name m.name.text) = .ok name := h

theorem build_append_eq (m : MemberText) (done : List (Label × Node)) (fs : List Frame)
    {want : Want} (hwant : want = .name ∨ want = .firstName) (ht : Parts tail) :
    build (.members done :: fs) want (lex (m.chars ++ tail)) =
      build (.members (m.node :: done) :: fs) .next (lex tail) := by
  have htokens : lex (m.chars ++ tail) =
      .text m.name.text :: .colon :: lex (m.value.chars ++ tail) := by
    rw [chars, List.append_assoc, List.cons_append,
      m.name.lex_append (parts_cons ⟨rfl, by decide⟩ _), lex_mark .colon rfl]
  have hname : build (.members done :: fs) want (lex (m.chars ++ tail)) =
      build (.naming done m.name.text :: fs) .value (lex (m.value.chars ++ tail)) := by
    have hclosed := m.name.closed
    rw [htokens, build_cons]
    rcases hwant with rfl | rfl <;> simp [take, takeName, hclosed, resume, build_cons]
  rw [hname, m.value.build_append_eq _ fs ht]
  rfl

/-- The member with blanks after it. -/
def before (m : MemberText) (s : Blanks) : MemberText := ⟨m.name, m.value.before s⟩

@[simp] theorem chars_before (m : MemberText) (s : Blanks) :
    (m.before s).chars = m.chars ++ s.chars := by
  simp [chars, before, ValueText.before]

end MemberText

/-- Texts with commas between them. -/
def commaSeparated : List (List Char) → List Char
  | [] => []
  | cs :: css => cs ++ css.flatMap (',' :: ·)

/-- A text of an object with the given members. -/
def objectChars (lead : Blanks) (ms : List MemberText) (trail : Blanks) : List Char :=
  lead.chars ++ '{' :: (commaSeparated (ms.map MemberText.chars) ++ '}' :: trail.chars)

/-- A text of a list of the given values. -/
def arrayChars (lead : Blanks) (vs : List ValueText) (trail : Blanks) : List Char :=
  lead.chars ++ '[' :: (commaSeparated (vs.map ValueText.chars) ++ ']' :: trail.chars)

/-- After a piece comes a comma or the closing mark. -/
theorem parts_flatMap (css : List (List Char)) {c : Char} (hc : Stops c) (cs : List Char) :
    Parts (css.flatMap (',' :: ·) ++ c :: cs) := by
  cases css with
  | nil => exact parts_cons hc cs
  | cons => exact parts_cons ⟨rfl, by decide⟩ _

theorem stops_closeBrace : Stops '}' := ⟨rfl, by decide⟩

theorem stops_closeBracket : Stops ']' := ⟨rfl, by decide⟩

theorem build_nextMembers (ms : List MemberText) (done : List (Label × Node)) (fs : List Frame)
    (tail : List Char) :
    build (.members done :: fs) .next
        (lex ((ms.map MemberText.chars).flatMap (',' :: ·) ++ '}' :: tail)) =
      resume (settle (.object (done.reverse ++ ms.map MemberText.node) none) fs) (lex tail) := by
  induction ms generalizing done with
  | nil =>
    rw [List.map_nil, List.flatMap_nil, List.nil_append, lex_mark .closeBrace rfl, build_cons,
      List.map_nil, List.append_nil]
    rfl
  | cons m ms ih =>
    have hnext := parts_flatMap (ms.map MemberText.chars) stops_closeBrace tail
    rw [List.map_cons, List.flatMap_cons, List.append_assoc, List.cons_append,
      lex_mark .comma rfl, build_cons]
    change build (.members done :: fs) .name _ = _
    rw [m.build_append_eq done fs (.inl rfl) hnext, ih, List.reverse_cons, List.append_assoc]
    rfl

theorem build_nextItems (vs : List ValueText) (done : List Node) (fs : List Frame)
    (tail : List Char) :
    build (.items done :: fs) .next
        (lex ((vs.map ValueText.chars).flatMap (',' :: ·) ++ ']' :: tail)) =
      resume (settle (.array (done.reverse ++ vs.map ValueText.tree) none) fs) (lex tail) := by
  induction vs generalizing done with
  | nil =>
    rw [List.map_nil, List.flatMap_nil, List.nil_append, lex_mark .closeBracket rfl, build_cons,
      List.map_nil, List.append_nil]
    rfl
  | cons v vs ih =>
    have hnext := parts_flatMap (vs.map ValueText.chars) stops_closeBracket tail
    rw [List.map_cons, List.flatMap_cons, List.append_assoc, List.cons_append,
      lex_mark .comma rfl, build_cons]
    change build (.items done :: fs) .value _ = _
    rw [v.build_append_eq _ fs hnext, Frame.place, ih, List.reverse_cons, List.append_assoc]
    rfl

namespace ValueText

variable (lead trail : Blanks)

/-- The object with the given members. -/
def object (ms : List MemberText) : ValueText where
  chars := objectChars lead ms trail
  tree := .object (ms.map MemberText.node) none
  build_eq := by
    rw [objectChars, lead.lex_append, lex_mark .openBrace rfl, build_cons]
    change build [.members []] .firstName _ = _
    cases ms with
    | nil =>
      rw [List.map_nil, commaSeparated, List.nil_append, lex_mark .closeBrace rfl, trail.lex_eq]
      rfl
    | cons m ms =>
      have hnext := parts_flatMap (ms.map MemberText.chars) stops_closeBrace trail.chars
      rw [List.map_cons, commaSeparated, List.append_assoc,
        m.build_append_eq [] [] (.inr rfl) hnext, build_nextMembers, trail.lex_eq]
      rfl
  unbroken := rfl

/-- The list of the given values. -/
def array (vs : List ValueText) : ValueText where
  chars := arrayChars lead vs trail
  tree := .array (vs.map ValueText.tree) none
  build_eq := by
    rw [arrayChars, lead.lex_append, lex_mark .openBracket rfl, build_cons]
    change build [.items []] .firstItem _ = _
    cases vs with
    | nil =>
      rw [List.map_nil, commaSeparated, List.nil_append, lex_mark .closeBracket rfl, trail.lex_eq]
      rfl
    | cons v vs =>
      have hnext := parts_flatMap (vs.map ValueText.chars) stops_closeBracket trail.chars
      rw [List.map_cons, commaSeparated, List.append_assoc, v.build_firstItem _ hnext,
        v.build_append_eq (.items []) [] hnext, Frame.place, build_nextItems, trail.lex_eq]
      rfl
  unbroken := rfl

end ValueText

section Written

/-- The compact text of a value. -/
def ValueText.written (v : Json) : ValueText where
  chars := v.write
  tree := Json.node v
  build_eq := by
    have hbuild := build_tokens v [] []
    rw [List.append_nil] at hbuild
    simp [lex_write, hbuild, settle, resume]
  unbroken := skipFault?_node v

/-- A name in quotes. -/
def NameText.written (name : String) : NameText where
  chars := quote name
  text := textOf name
  lex_eq := by simpa using (Cuts.quote name []).lex_eq
  closed := rfl

def MemberText.written (m : String × Json) : MemberText := ⟨.written m.1, .written m.2⟩

theorem MemberText.named_written (m : String × Json) : (written m).Named m.1 := value_textOf m.1

end Written

end Pieces

section Apart

variable {cs : List Char} {done : List (Label × Node)} {fs : List Frame} {want : Want}
  {ts : List Token} {v : Node}

/-- A value that is whole does not end in a node that breaks off. -/
theorem resume_broken_ne {u : Node} (hu : u.skipFault?.isSome = true) (hv : v.skipFault? = none) :
    resume (.inr u) ts ≠ (v, []) := by
  intro h
  obtain ⟨rfl, -⟩ := Prod.mk.inj h
  rw [hv] at hu
  cases hu

theorem exists_take (h : build fs want ts = (v, [])) (hv : v.skipFault? = none) :
    ∃ t us, ts = t :: us ∧ resume (take fs want t) us = (v, []) := by
  cases ts with
  | nil => exact absurd h (resume_broken_ne (isSome_atEnd fs want) hv)
  | cons t us => exact ⟨t, us, rfl, by rw [← build_cons, h]⟩

/-- The tokens of a name with its colon, where a member is wanted. -/
theorem exists_name (h : build [.members done] .name ts = (v, [])) (hv : v.skipFault? = none) :
    ∃ name us, ts = .text name :: .colon :: us ∧ name.fault = none ∧
      build [.naming done name] .value us = (v, []) := by
  obtain ⟨t, us, rfl, hmove⟩ := exists_take h hv
  cases t with
  | text name =>
    cases hfault : name.fault with
    | some f =>
      have hbroken : take [.members done] .name (.text name) = .inr
          (.object ((.name name, .scrap .nothing .malformed) :: done).reverse name.fault) := by
        simp [take, takeName, hfault, breakOff]
      rw [hbroken] at hmove
      exact absurd hmove (resume_broken_ne (by simp [Node.skipFault?, hfault]) hv)
    | none =>
      have hopen : take [.members done] .name (.text name) =
          .inl ([.naming done name], .colon) := by simp [take, takeName, hfault]
      rw [hopen] at hmove
      obtain ⟨u, us, rfl, hcolon⟩ := exists_take hmove hv
      cases u with
      | colon => exact ⟨name, us, rfl, hfault, hcolon⟩
      | _ => exact absurd hcolon (resume_broken_ne (isSome_breakOff rfl _) hv)
  | _ => exact absurd hmove (resume_broken_ne (isSome_breakName _ _) hv)

/-- Where a member is wanted, the text begins with one. -/
theorem exists_member (h : build [.members done] .name (lex cs) = (v, []))
    (hv : v.skipFault? = none) :
    ∃ m : MemberText, ∃ rest, cs = m.chars ++ rest ∧ rest.length < cs.length ∧
      build [.members (m.node :: done)] .next (lex rest) = (v, []) := by
  obtain ⟨name, us, hlex, hclosed, hvalue⟩ := exists_name h hv
  have hsplit : lex cs = [.text name] ++ .colon :: us := hlex
  obtain ⟨a, b, rfl, ha, hb⟩ := exists_lex_eq hsplit (by simp [Token.isLast, hclosed])
  obtain ⟨s, b, rfl, hafter⟩ := exists_mark hb rfl
  rw [← List.nil_append [Frame.naming done name]] at hvalue
  obtain ⟨us, ws, u, rfl, hu, hunbroken, hnext⟩ := exists_build_eq (.inr rfl) hvalue hv
  obtain ⟨a', b', rfl, ha', hb'⟩ := exists_lex_eq hafter (isLast_of_build hu hunbroken)
  let n : NameText := ⟨a, name, ha, hclosed⟩
  refine ⟨⟨n.before s, ⟨a', u, by rw [ha', hu], hunbroken⟩⟩, b', ?_, ?_, ?_⟩
  · simp [MemberText.chars, NameText.before, n]
  · simp
    omega
  · rw [hb', ← hnext]
    simp [settle, hunbroken, resume, MemberText.node, NameText.before, n, Frame.place]

/-- Where an object goes on, the text gives its other members and closes it. -/
theorem exists_nextMembers (h : build [.members done] .next (lex cs) = (v, []))
    (hv : v.skipFault? = none) : ∃ (s : Blanks) (ms : List MemberText) (trail : Blanks),
      cs = s.chars ++ ((ms.map MemberText.chars).flatMap (',' :: ·) ++ '}' :: trail.chars) := by
  induction hn : cs.length using Nat.strongRecOn generalizing cs done with
  | ind n ih =>
    subst hn
    obtain ⟨t, us, hlex, h⟩ := exists_take h hv
    cases t with
    | comma =>
      -- blanks in front of the next mark go to the member before them
      obtain ⟨s, rest, rfl, rfl⟩ := exists_mark hlex rfl
      obtain ⟨m, rest, rfl, hlen, hnext⟩ := exists_member h hv
      obtain ⟨s', ms, trail, rfl⟩ := ih rest.length (by simp; omega) hnext rfl
      exact ⟨s, m.before s' :: ms, trail, by simp⟩
    | closeBrace =>
      obtain ⟨s, rest, rfl, rfl⟩ := exists_mark hlex rfl
      obtain ⟨-, hend⟩ := Prod.mk.inj h
      obtain ⟨trail, rfl⟩ := exists_blanks hend
      exact ⟨s, [], trail, rfl⟩
    | _ => exact absurd h (resume_broken_ne (isSome_breakFrame _ _) hv)

/-- A text of an object with members is put together from texts of its members. -/
theorem exists_objectChars (hlex : lex cs = .openBrace :: ts)
    (h : build [] .value (lex cs) = (v, [])) (hv : v.skipFault? = none)
    (hne : v ≠ .object [] none) : ∃ lead ms trail, cs = objectChars lead ms trail := by
  rw [hlex] at h
  obtain ⟨lead, rest, rfl, rfl⟩ := exists_mark hlex rfl
  have hopen : build [.members []] .firstName (lex rest) = (v, []) := h
  obtain ⟨t, us, hrest, hfirst⟩ := exists_take hopen hv
  have ht : t ≠ .closeBrace := by
    rintro rfl
    exact hne (Prod.mk.inj hfirst).1.symm
  have hname : build [.members []] .name (lex rest) = (v, []) := by
    rw [hrest, build_cons, ← hfirst, take_firstName ht]
    rfl
  obtain ⟨m, rest, rfl, -, hnext⟩ := exists_member hname hv
  obtain ⟨s, ms, trail, rfl⟩ := exists_nextMembers hnext hv
  exact ⟨lead, m.before s :: ms, trail, by simp [objectChars, commaSeparated]⟩

end Apart

end DocumentPipeline.Json
