import DocumentPipeline.Json.Reading
import Mathlib.Tactic.SplitIfs

/-! # Tokens of a written value

The compact text of a value is cut into the tokens the value was written with, whatever
text follows it. Only a number has to be followed by something that ends it, which a
comma, a closing bracket or the end of the text does.
-/
namespace DocumentPipeline

theorem hexValue?_hexChar : ∀ d < 16, hexValue? (hexChar d) = some d := by decide

namespace Json

namespace Result

variable {α β : Type}

@[simp] theorem pure_eq (a : α) : (pure a : Result α) = .ok a := rfl

@[simp] theorem ok_bind (a : α) (f : α → Result β) : (Except.ok a >>= f) = f a := rfl

@[simp] theorem map_ok (f : α → β) (a : α) : f <$> (Except.ok a : Result α) = .ok (f a) := rfl

end Result

section Strings

/-- The controls that an escape of one letter stands for. -/
def lettered : List Char := ['\x08', '\x0c', '\n', '\r', '\t']

/-- What the written form of a character is read as: a control without a letter of its own
stays a code unit. -/
def unitOf (c : Char) : CodeUnit :=
  if c.toNat < 0x20 ∧ c ∉ lettered then .escaped c.toNat else .char c

/-- The inside of a written string. -/
def textOf (s : String) : Text := ⟨s.toList.map unitOf, none⟩

/-- A unit before what is read of the rest of a string. -/
def consUnit (u : CodeUnit) (t : Text × List Char) : Text × List Char :=
  (⟨u :: t.1.units, t.1.fault⟩, t.2)

theorem hexQuad?_code {c : Char} (hc : c.toNat < 0x20) :
    hexQuad? '0' '0' (hexChar (c.toNat / 16)) (hexChar (c.toNat % 16)) = some c.toNat := by
  have hzero : hexValue? '0' = some 0 := by decide
  have hhigh := hexValue?_hexChar (c.toNat / 16) (by omega)
  have hlow := hexValue?_hexChar (c.toNat % 16) (by omega)
  simp only [hexQuad?, hzero, hhigh, hlow, Option.bind_eq_bind, Option.bind_some]
  congr 1
  omega

/-- An escape of one letter. -/
theorem lexText_letter {e c : Char} (he : simpleEscape? e = some c) (cs : List Char) :
    lexText ('\\' :: e :: cs) = consUnit (.char c) (lexText cs) := by
  have hne : e ≠ 'u' := by rintro rfl; simp [simpleEscape?] at he
  rw [lexText.eq_5 e cs (fun _ _ _ _ _ h _ => hne h) hne, he]
  rfl

/-- A control written by its code. -/
theorem lexText_code {c : Char} (hc : c.toNat < 0x20) (cs : List Char) :
    lexText ('\\' :: 'u' :: '0' :: '0' :: hexChar (c.toNat / 16) :: hexChar (c.toNat % 16) :: cs) =
      consUnit (.escaped c.toNat) (lexText cs) := by
  rw [lexText.eq_3, hexQuad?_code hc]
  rfl

/-- A character that stands for itself. -/
theorem lexText_plain {c : Char} (hquote : c ≠ '"') (hslash : c ≠ '\\')
    (hc : ¬ c.toNat < 0x20) (cs : List Char) :
    lexText (c :: cs) = consUnit (.char c) (lexText cs) := by
  rw [lexText.eq_def]
  split <;> simp_all [consUnit]

theorem lexText_escape (c : Char) (cs : List Char) :
    lexText (escape c ++ cs) = consUnit (unitOf c) (lexText cs) := by
  unfold escape
  split_ifs with hquote hslash hb hf hn hr ht hcode
  · subst hquote; exact lexText_letter rfl cs
  · subst hslash; exact lexText_letter rfl cs
  · subst hb; exact lexText_letter rfl cs
  · subst hf; exact lexText_letter rfl cs
  · subst hn; exact lexText_letter rfl cs
  · subst hr; exact lexText_letter rfl cs
  · subst ht; exact lexText_letter rfl cs
  · have hunit : unitOf c = .escaped c.toNat := by simp [unitOf, lettered, *]
    rw [hunit]
    exact lexText_code hcode cs
  · have hunit : unitOf c = .char c := by simp [unitOf, hcode]
    rw [hunit]
    exact lexText_plain hquote hslash hcode cs

/-- A written string is read up to its closing quote. -/
theorem lexText_escaped (s : List Char) (rest : List Char) :
    lexText (s.flatMap escape ++ '"' :: rest) = (⟨s.map unitOf, none⟩, rest) := by
  induction s with
  | nil => simp [lexText]
  | cons c s ih =>
    rw [List.flatMap_cons, List.append_assoc, lexText_escape, ih]
    rfl

/-- No unit of a written string is half of a pair. -/
theorem decodeUnits_unitOf (s : List Char) : decodeUnits none (s.map unitOf) = .ok s := by
  induction s with
  | nil => rfl
  | cons c s ih =>
    by_cases hc : c.toNat < 0x20 ∧ c ∉ lettered
    · have hlow : c.toNat < 0xD800 := by omega
      have hunit : unitOf c = .escaped c.toNat := by simp [unitOf, hc]
      rw [List.map_cons, hunit, decodeUnits.eq_def]
      simp [hlow, ih]
    · simp [unitOf, hc, decodeUnits, ih]

@[simp] theorem value_textOf (s : String) : (textOf s).value = .ok s := by
  simp [Text.value, textOf, decodeUnits_unitOf]

end Strings

section Numbers

/-- A whole number as written. -/
def numeral (n : Nat) : Numeral := ⟨false, Nat.toDigits 10 n, none, none⟩

/-- What may stand after a value: a comma, a closing bracket or the end of the text. -/
inductive Ends : List Char → Prop where
  | nil : Ends []
  | comma (cs : List Char) : Ends (',' :: cs)
  | bracket (cs : List Char) : Ends (']' :: cs)
  | brace (cs : List Char) : Ends ('}' :: cs)

theorem isDigit_toDigits {n : Nat} {c : Char} (hc : c ∈ Nat.toDigits 10 n) : c.isDigit = true :=
  Nat.isDigit_of_mem_toDigits (by decide) (by decide) hc

/-- A positive number is written without a leading zero. -/
theorem head_toDigits {n : Nat} (hn : 0 < n) :
    ∃ c cs, Nat.toDigits 10 n = c :: cs ∧ c ≠ '0' := by
  induction n using Nat.strongRecOn with
  | ind n ih =>
    by_cases hlt : n < 10
    · have hdigit : ∀ d < 10, 0 < d → Nat.digitChar d ≠ '0' := by decide
      exact ⟨n.digitChar, [], Nat.toDigits_of_lt_base hlt, hdigit n hlt hn⟩
    · obtain ⟨c, cs, hcs, hc⟩ := ih (n / 10) (by omega) (by omega)
      refine ⟨c, cs ++ [(n % 10).digitChar], ?_, hc⟩
      rw [Nat.toDigits_of_base_le (by decide) (by omega), hcs, List.cons_append]

variable {rest : List Char}

theorem takeDigits_toDigits (n : Nat) (hrest : Ends rest) :
    takeDigits (Nat.toDigits 10 n ++ rest) = (Nat.toDigits 10 n, rest) := by
  have hdigits : ∀ c ∈ Nat.toDigits 10 n, c.isDigit = true := fun c hc => isDigit_toDigits hc
  have htake : rest.takeWhile Char.isDigit = [] := by cases hrest <;> simp
  have hdrop : rest.dropWhile Char.isDigit = rest := by cases hrest <;> simp
  rw [takeDigits, List.takeWhile_append_of_pos hdigits, List.dropWhile_append_of_pos hdigits,
    htake, hdrop, List.append_nil]

theorem lexAfterDigits_ends (n : Numeral) (hrest : Ends rest) :
    lexAfterDigits n rest = (.number n, rest) := by
  cases hrest <;> rfl

/-- A written number is read up to what ends it. -/
theorem lexNumber_toDigits (n : Nat) (hrest : Ends rest) :
    lexNumber false (Nat.toDigits 10 n ++ rest) = (.number (numeral n), rest) := by
  rcases Nat.eq_zero_or_pos n with rfl | hn
  · cases hrest <;> rfl
  · have htake := takeDigits_toDigits n hrest
    obtain ⟨c, cs, hcs, hc⟩ := head_toDigits hn
    rw [hcs, List.cons_append] at htake ⊢
    rw [lexNumber.eq_def]
    split
    · simp_all
    · simp only [htake, List.isEmpty_cons, Bool.false_eq_true, if_false, numeral, hcs]
      exact lexAfterDigits_ends _ hrest

theorem lexToken_digit {c : Char} (hc : c.isDigit = true) (cs : List Char) :
    lexToken c cs = lexNumber false (c :: cs) := by
  unfold lexToken
  split <;> first | exact absurd hc (by decide) | simp [hc]

theorem isSpace_digit {c : Char} (hc : c.isDigit = true) : isSpace c = false := by
  simp only [isSpace, Bool.or_eq_false_iff, decide_eq_false_iff_not]
  refine ⟨⟨⟨?_, ?_⟩, ?_⟩, ?_⟩ <;> rintro rfl <;> exact absurd hc (by decide)

end Numbers

/-- The tokens `ts` are cut off the front of `cs`, which leaves `rest`. -/
structure Cuts (cs : List Char) (ts : List Token) (rest : List Char) : Prop where
  /-- Each token took a character at least. -/
  length_le : ts.length + rest.length ≤ cs.length
  lexUpTo_eq : ∀ fuel, lexUpTo (ts.length + fuel) cs = ts ++ lexUpTo fuel rest

namespace Cuts

variable {cs rest more : List Char} {ts us : List Token}

protected theorem trans (h : Cuts cs ts rest) (h' : Cuts rest us more) :
    Cuts cs (ts ++ us) more where
  length_le := by
    have := h.length_le
    have := h'.length_le
    rw [List.length_append]
    omega
  lexUpTo_eq fuel := by
    rw [List.length_append, Nat.add_assoc, h.lexUpTo_eq, h'.lexUpTo_eq, List.append_assoc]

/-- One token that the text goes on after. -/
theorem single {c : Char} {t : Token} (hc : isSpace c = false) (ht : lexToken c cs = (t, rest))
    (hlast : t.isLast = false) (hlen : rest.length ≤ cs.length) : Cuts (c :: cs) [t] rest where
  length_le := by simpa [Nat.add_comm] using hlen
  lexUpTo_eq fuel := by
    rw [List.length_singleton, Nat.add_comm, lexUpTo]
    simp [hc, ht, hlast]

theorem cons {c : Char} {t : Token} (hc : isSpace c = false) (ht : lexToken c cs = (t, cs))
    (hlast : t.isLast = false) (h : Cuts cs ts rest) : Cuts (c :: cs) (t :: ts) rest :=
  (single hc ht hlast (Nat.le_refl _)).trans h

theorem quote (s : String) (rest : List Char) :
    Cuts (Json.quote s ++ rest) [.text (textOf s)] rest := by
  have htext := lexText_escaped s.toList rest
  have happend : Json.quote s ++ rest = '"' :: (s.toList.flatMap escape ++ '"' :: rest) := by
    simp [Json.quote]
  rw [happend]
  refine single rfl ?_ rfl (by simp; omega)
  simp only [lexToken, htext, textOf]

/-- The name of a member with its colon. -/
theorem name (k : String) (h : Cuts cs ts rest) :
    Cuts (Json.quote k ++ ':' :: cs) (.text (textOf k) :: .colon :: ts) rest :=
  (quote k _).trans (cons rfl rfl rfl h)

theorem natural (n : Nat) (hrest : Ends rest) :
    Cuts ((Nat.repr n).toList ++ rest) [.number (numeral n)] rest := by
  have hnumber := lexNumber_toDigits n hrest
  rw [Nat.repr_eq_ofList_toDigits, String.toList_ofList]
  obtain ⟨c, cs, hcs⟩ := List.exists_cons_of_ne_nil (Nat.toDigits_ne_nil (n := n) (b := 10))
  have hdigit : c.isDigit = true := isDigit_toDigits (hcs ▸ List.mem_cons_self)
  rw [hcs, List.cons_append] at hnumber ⊢
  refine single (isSpace_digit hdigit) ?_ rfl (by simp)
  rw [lexToken_digit hdigit, hnumber]

/-- A text that is cut up whole is nothing but its tokens. -/
theorem lex_eq (h : Cuts cs ts []) : lex cs = ts := by
  obtain ⟨fuel, hfuel⟩ := Nat.exists_eq_add_of_le h.length_le
  have hend : lexUpTo fuel [] = [] := by cases fuel <;> rfl
  rw [lex, hfuel, List.length_nil, Nat.add_zero, h.lexUpTo_eq, hend, List.append_nil]

end Cuts

mutual

/-- The tokens of a written value. -/
def tokens : Json → List Token
  | null => [.null]
  | natural n => [.number (numeral n)]
  | text s => [.text (textOf s)]
  | array [] => [.openBracket, .closeBracket]
  | array (v :: vs) => .openBracket :: (tokens v ++ itemTokens vs)
  | object [] => [.openBrace, .closeBrace]
  | object ((k, v) :: ms) =>
    .openBrace :: .text (textOf k) :: .colon :: (tokens v ++ memberTokens ms)

/-- The tokens of the items after the first, with the closing bracket. -/
def itemTokens : List Json → List Token
  | [] => [.closeBracket]
  | v :: vs => .comma :: (tokens v ++ itemTokens vs)

/-- The tokens of the members after the first, with the closing brace. -/
def memberTokens : List (String × Json) → List Token
  | [] => [.closeBrace]
  | (k, v) :: ms => .comma :: .text (textOf k) :: .colon :: (tokens v ++ memberTokens ms)

end

theorem ends_writeItems (vs : List Json) (rest : List Char) : Ends (writeItems vs ++ rest) := by
  cases vs
  · exact .bracket rest
  · exact .comma _

theorem ends_writeMembers (ms : List (String × Json)) (rest : List Char) :
    Ends (writeMembers ms ++ rest) := by
  rcases ms with _ | ⟨m, ms⟩
  · exact .brace rest
  · exact .comma _

mutual

theorem cuts_write (v : Json) {rest : List Char} (hrest : Ends rest) :
    Cuts (write v ++ rest) (tokens v) rest := by
  match v with
  | null => exact .single rfl rfl rfl (Nat.le_add_right rest.length 3)
  | natural n => exact .natural n hrest
  | text s => exact .quote s rest
  | array [] => exact .cons rfl rfl rfl (.single rfl rfl rfl (Nat.le_refl _))
  | array (v :: vs) =>
    have hitems := cuts_writeItems vs rest
    simp only [write, tokens, List.cons_append, List.append_assoc]
    exact .cons rfl rfl rfl ((cuts_write v (ends_writeItems vs rest)).trans hitems)
  | object [] => exact .cons rfl rfl rfl (.single rfl rfl rfl (Nat.le_refl _))
  | object ((k, v) :: ms) =>
    have hmembers := cuts_writeMembers ms rest
    have hvalue := (cuts_write v (ends_writeMembers ms rest)).trans hmembers
    simp only [write, tokens, List.cons_append, List.append_assoc]
    exact .cons rfl rfl rfl (.name k hvalue)

theorem cuts_writeItems (vs : List Json) (rest : List Char) :
    Cuts (writeItems vs ++ rest) (itemTokens vs) rest := by
  match vs with
  | [] => exact .single rfl rfl rfl (Nat.le_refl _)
  | v :: vs =>
    have hitems := cuts_writeItems vs rest
    simp only [writeItems, itemTokens, List.cons_append, List.append_assoc]
    exact .cons rfl rfl rfl ((cuts_write v (ends_writeItems vs rest)).trans hitems)

theorem cuts_writeMembers (ms : List (String × Json)) (rest : List Char) :
    Cuts (writeMembers ms ++ rest) (memberTokens ms) rest := by
  match ms with
  | [] => exact .single rfl rfl rfl (Nat.le_refl _)
  | (k, v) :: ms =>
    have hmembers := cuts_writeMembers ms rest
    have hvalue := (cuts_write v (ends_writeMembers ms rest)).trans hmembers
    simp only [writeMembers, memberTokens, List.cons_append, List.append_assoc]
    exact .cons rfl rfl rfl (.name k hvalue)

end

theorem lex_write (v : Json) : lex v.write = tokens v := by
  have hcuts := cuts_write v .nil
  rw [List.append_nil] at hcuts
  exact hcuts.lex_eq

end Json

end DocumentPipeline
