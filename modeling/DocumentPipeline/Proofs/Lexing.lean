import DocumentPipeline.Proofs.Digits
import DocumentPipeline.Proofs.Tokens
import Mathlib.Data.List.TakeWhile
import Mathlib.Tactic.SplitIfs

/-! # Texts cut between their tokens

A token is read without a look at what follows it; only a number goes on as long as it can. A text
in which nothing breaks off is therefore cut into the same tokens whatever comes after it, blanks
between tokens do not count, and a text falls apart between any two of its tokens.
-/
namespace DocumentPipeline.Json

section Strings

/-- A string that is closed was read without a look at what follows it. -/
theorem lexText_local (cs : List Char) (h : (lexText cs).1.fault = none) :
    ∃ l, cs = l ++ (lexText cs).2 ∧ ∀ tail, lexText (l ++ tail) = ((lexText cs).1, tail) := by
  fun_induction lexText cs with
  | case1 => cases h
  | case2 cs => exact ⟨['"'], rfl, fun tail => lexText.eq_2 tail⟩
  | case3 a b c d cs n hn t r heq ih =>
    rw [heq] at ih
    obtain ⟨l, hl, htail⟩ := ih h
    refine ⟨'\\' :: 'u' :: a :: b :: c :: d :: l, by simp [hl], fun tail => ?_⟩
    simp only [List.cons_append]
    rw [lexText.eq_3, hn, htail]
  | case4 => cases h
  | case5 => cases h
  | case6 e cs _ _ c hc t r heq ih =>
    rw [heq] at ih
    obtain ⟨l, hl, htail⟩ := ih h
    refine ⟨'\\' :: e :: l, by simp [hl], fun tail => ?_⟩
    simp only [List.cons_append]
    rw [lexText_letter hc, htail]
    rfl
  | case7 => cases h
  | case8 => cases h
  | case9 => cases h
  | case10 c cs hquote _ _ hletter hlast hc t r heq ih =>
    rw [heq] at ih
    obtain ⟨l, hl, htail⟩ := ih h
    have hslash : c ≠ '\\' := fun hc => by
      cases cs with
      | nil => exact hlast hc rfl
      | cons e cs => exact hletter e cs hc rfl
    refine ⟨c :: l, by simp [hl], fun tail => ?_⟩
    rw [List.cons_append, lexText_plain hquote hslash hc, htail]
    rfl

end Strings

section Words

/-- A word that is complete was read up to its last letter. -/
theorem lexWord_local {t u : Token} {ws cs rest : List Char} (h : lexWord t ws cs = (u, rest))
    (hu : u.isLast = false) :
    u = t ∧ cs = ws ++ rest ∧ ∀ tail, lexWord t ws (ws ++ tail) = (t, tail) := by
  induction ws generalizing cs with
  | nil =>
    cases h
    exact ⟨rfl, rfl, fun tail => rfl⟩
  | cons w ws ih =>
    cases cs with
    | nil => cases h; cases hu
    | cons c cs =>
      rw [lexWord] at h
      split_ifs at h with hw
      · obtain ⟨rfl, rfl, htail⟩ := ih h
        exact ⟨rfl, by rw [hw]; rfl, fun tail => by simp [lexWord, htail]⟩
      · cases h; cases hu

end Words

section Numbers

/-- A number does not go on with the character. -/
def Stops (c : Char) : Prop := c.isDigit = false ∧ c ≠ '.' ∧ c ≠ 'e' ∧ c ≠ 'E'

/-- The tail begins as the rest does, or with something that no number goes on with. -/
def Follows (rest tail : List Char) : Prop :=
  tail.head? = rest.head? ∨ ∀ c ∈ tail.head?, Stops c

/-- A tail that no digit begins. -/
def NoDigit (tail : List Char) : Prop := ∀ c ∈ tail.head?, c.isDigit = false

variable {cs ds rest tail : List Char} {n m : Numeral}

theorem takeDigits_append (hds : ∀ c ∈ ds, c.isDigit = true) (ht : NoDigit tail) :
    takeDigits (ds ++ tail) = (ds, tail) := by
  have htake : tail.takeWhile Char.isDigit = [] ∧ tail.dropWhile Char.isDigit = tail := by
    cases tail with
    | nil => exact ⟨rfl, rfl⟩
    | cons c cs =>
      have hc := ht c rfl
      simp [hc]
  rw [takeDigits, List.takeWhile_append_of_pos hds, List.dropWhile_append_of_pos hds, htake.1,
    htake.2, List.append_nil]

theorem Follows.noDigit (h : Follows rest tail) (hr : NoDigit rest) : NoDigit tail := by
  intro c hc
  rcases h with h | h
  · exact hr c (h ▸ hc)
  · exact (h c hc).1

/-- The digits that are taken, and what is left. -/
theorem takeDigits_eq (cs : List Char) :
    ∃ ds rest, takeDigits cs = (ds, rest) ∧ cs = ds ++ rest ∧ (∀ c ∈ ds, c.isDigit = true) ∧
      NoDigit rest := by
  refine ⟨_, _, rfl, List.takeWhile_append_dropWhile.symm,
    fun c hc => List.mem_takeWhile_imp hc, ?_⟩
  intro c hc
  have := List.head?_dropWhile_not Char.isDigit cs
  simp_all

/-- The digits of an exponent after its sign. -/
def exponentDigits (negative : Bool) (cs : List Char) :
    Except Fault (Bool × List Char) × List Char :=
  let (ds, rest) := takeDigits cs
  if ds.isEmpty then (.error (.before rest), rest) else (.ok (negative, ds), rest)

/-- An exponent has a sign, or begins with its digits. -/
theorem lexExponent_eq (cs : List Char) : ∃ negative sign after, cs = sign ++ after ∧
    lexExponent cs = exponentDigits negative after ∧
    ∀ d ds, d.isDigit = true →
      lexExponent (sign ++ d :: ds) = exponentDigits negative (d :: ds) := by
  have hplain {c : Char} {cs : List Char} (hminus : c ≠ '-') (hplus : c ≠ '+') :
      lexExponent (c :: cs) = exponentDigits false (c :: cs) := by
    unfold lexExponent
    split
    all_goals simp_all [exponentDigits]
  rcases cs with _ | ⟨c, cs⟩
  · exact ⟨false, [], [], rfl, rfl, fun d ds hd =>
      hplain (ne_of_isDigit hd (by decide)) (ne_of_isDigit hd (by decide))⟩
  by_cases hminus : c = '-'
  · subst hminus
    exact ⟨true, ['-'], cs, rfl, rfl, fun d ds _ => rfl⟩
  by_cases hplus : c = '+'
  · subst hplus
    exact ⟨false, ['+'], cs, rfl, rfl, fun d ds _ => rfl⟩
  · exact ⟨false, [], c :: cs, rfl, hplain hminus hplus, fun d ds hd =>
      hplain (ne_of_isDigit hd (by decide)) (ne_of_isDigit hd (by decide))⟩

theorem lexExponent_local {e : Bool × List Char} (h : lexExponent cs = (.ok e, rest)) :
    ∃ l, cs = l ++ rest ∧ ∀ tail, Follows rest tail → lexExponent (l ++ tail) = (.ok e, tail) := by
  obtain ⟨negative, sign, after, rfl, heq, hgo⟩ := lexExponent_eq cs
  obtain ⟨ds, left, htake, rfl, hdigits, hstop⟩ := takeDigits_eq after
  rw [heq, exponentDigits, htake] at h
  cases ds with
  | nil => cases h
  | cons d ds =>
    cases h
    refine ⟨sign ++ d :: ds, by simp, fun tail ht => ?_⟩
    rw [List.append_assoc, List.cons_append, hgo d _ (hdigits d List.mem_cons_self),
      exponentDigits, ← List.cons_append, takeDigits_append hdigits (ht.noDigit hstop)]
    rfl

/-- What follows the beginning of a text leaves the text without a digit in front. -/
theorem NoDigit.append {l : List Char} (hc : NoDigit (l ++ rest)) (ht : Follows rest tail) :
    NoDigit (l ++ tail) := by
  cases l with
  | nil => exact ht.noDigit hc
  | cons c l => exact hc

theorem lexAfterFraction_of_ne (n : Numeral) (h : ∀ c ∈ cs.head?, c ≠ 'e' ∧ c ≠ 'E') :
    lexAfterFraction n cs = (.number n, cs) := by
  unfold lexAfterFraction
  split <;> simp_all

theorem lexAfterFraction_local {t : Token} (h : lexAfterFraction n cs = (t, rest))
    (ht : t.isLast = false) :
    ∃ l, cs = l ++ rest ∧
      ∀ tail, Follows rest tail → lexAfterFraction n (l ++ tail) = (t, tail) := by
  have hwhole {c : Char} (hc : c = 'e' ∨ c = 'E') {cs left : List Char} {e : Bool × List Char}
      (heq : lexExponent cs = (.ok e, left)) :
      lexAfterFraction n (c :: cs) = (.number { n with exponent := some e }, left) := by
    rcases hc with rfl | rfl <;> simp only [lexAfterFraction, heq]
  have hbroken {c : Char} (hc : c = 'e' ∨ c = 'E') {cs left : List Char} {f : Fault}
      (heq : lexExponent cs = (.error f, left)) :
      lexAfterFraction n (c :: cs) = (.scrap .number f, left) := by
    rcases hc with rfl | rfl <;> simp only [lexAfterFraction, heq]
  by_cases hplain : ∀ c ∈ cs.head?, c ≠ 'e' ∧ c ≠ 'E'
  · rw [lexAfterFraction_of_ne n hplain] at h
    cases h
    refine ⟨[], rfl, fun tail ht => lexAfterFraction_of_ne n fun c hc => ?_⟩
    rcases ht with ht | ht
    · exact hplain c (ht ▸ hc)
    · exact (ht c hc).2.2
  · obtain ⟨c, cs, rfl, hc⟩ : ∃ c cs', cs = c :: cs' ∧ (c = 'e' ∨ c = 'E') := by
      cases cs with
      | nil => simp at hplain
      | cons c cs => exact ⟨c, cs, rfl, by simp at hplain; tauto⟩
    obtain ⟨exponent, left, heq⟩ : ∃ exponent left, lexExponent cs = (exponent, left) :=
      ⟨_, _, rfl⟩
    cases exponent with
    | error f =>
      rw [hbroken hc heq] at h
      cases h
      cases ht
    | ok e =>
      rw [hwhole hc heq] at h
      cases h
      obtain ⟨l, rfl, hgo⟩ := lexExponent_local heq
      exact ⟨c :: l, rfl, fun tail ht => hwhole hc (hgo tail ht)⟩

theorem lexAfterDigits_local {t : Token} (h : lexAfterDigits n cs = (t, rest))
    (ht : t.isLast = false) :
    ∃ l, cs = l ++ rest ∧ ∀ tail, Follows rest tail → lexAfterDigits n (l ++ tail) = (t, tail) := by
  have hplain {cs : List Char} (hc : ∀ c ∈ cs.head?, c ≠ '.') :
      lexAfterDigits n cs = lexAfterFraction n cs := by
    unfold lexAfterDigits
    split <;> simp_all
  by_cases hpoint : ∀ c ∈ cs.head?, c ≠ '.'
  · rw [hplain hpoint] at h
    obtain ⟨l, rfl, hgo⟩ := lexAfterFraction_local h ht
    refine ⟨l, rfl, fun tail hfollows => ?_⟩
    rw [hplain, hgo tail hfollows]
    cases l with
    | nil =>
      intro c hc
      rcases hfollows with hsame | hstops
      · exact hpoint c (hsame ▸ hc)
      · exact (hstops c hc).2.1
    | cons d l => exact hpoint
  · obtain ⟨cs, rfl⟩ : ∃ cs', cs = '.' :: cs' := by
      cases cs with
      | nil => simp at hpoint
      | cons c cs => exact ⟨cs, by simp at hpoint; rw [hpoint]⟩
    obtain ⟨ds, left, htake, rfl, hdigits, hstop⟩ := takeDigits_eq cs
    rw [lexAfterDigits, htake] at h
    dsimp only at h
    split_ifs at h with hds
    · cases h
      cases ht
    · obtain ⟨l, rfl, hgo⟩ := lexAfterFraction_local h ht
      refine ⟨'.' :: ds ++ l, by simp, fun tail hfollows => ?_⟩
      rw [List.append_assoc, List.cons_append, lexAfterDigits,
        takeDigits_append hdigits (hstop.append hfollows)]
      dsimp only
      rw [if_neg hds, hgo tail hfollows]

theorem lexNumber_zero {negative : Bool} (h : NoDigit cs) :
    lexNumber negative ('0' :: cs) = lexAfterDigits ⟨negative, ['0'], none, none⟩ cs := by
  cases cs with
  | nil => rfl
  | cons c cs =>
    have hc : c.isDigit = false := h c rfl
    simp [lexNumber, hc]

theorem lexNumber_local {t : Token} {negative : Bool} (h : lexNumber negative cs = (t, rest))
    (ht : t.isLast = false) :
    ∃ l, cs = l ++ rest ∧ l ≠ [] ∧
      ∀ tail, Follows rest tail → lexNumber negative (l ++ tail) = (t, tail) := by
  have hplain {cs : List Char} (hc : ∀ c ∈ cs.head?, c ≠ '0') : lexNumber negative cs =
      let (ds, rest) := takeDigits cs
      if ds.isEmpty then (.scrap .number (.before rest), rest)
      else lexAfterDigits ⟨negative, ds, none, none⟩ rest := by
    unfold lexNumber
    split
    · exact absurd rfl (hc '0' rfl)
    · rfl
  by_cases hzero : ∀ c ∈ cs.head?, c ≠ '0'
  · obtain ⟨ds, left, htake, rfl, hdigits, hstop⟩ := takeDigits_eq cs
    rw [hplain hzero, htake] at h
    dsimp only at h
    split_ifs at h with hds
    · cases h
      cases ht
    · obtain ⟨l, rfl, hgo⟩ := lexAfterDigits_local h ht
      obtain ⟨d, ds, rfl⟩ := List.exists_cons_of_ne_nil (by simpa using hds : ds ≠ [])
      refine ⟨d :: ds ++ l, by simp, by simp, fun tail hfollows => ?_⟩
      have htail := takeDigits_append hdigits (hstop.append hfollows)
      rw [List.append_assoc, hplain (by simpa using hzero), htail]
      dsimp only
      rw [if_neg hds, hgo tail hfollows]
  · obtain ⟨cs, rfl⟩ : ∃ cs', cs = '0' :: cs' := by
      cases cs with
      | nil => simp at hzero
      | cons c cs => exact ⟨cs, by simp at hzero; rw [hzero]⟩
    have hstop : NoDigit cs := by
      rintro c hc
      cases hdigit : c.isDigit with
      | false => rfl
      | true =>
        obtain ⟨cs, rfl⟩ : ∃ cs', cs = c :: cs' := by
          cases cs with
          | nil => cases hc
          | cons d cs => cases hc; exact ⟨cs, rfl⟩
        simp only [lexNumber, hdigit, if_true] at h
        cases h
        cases ht
    rw [lexNumber_zero hstop] at h
    obtain ⟨l, rfl, hgo⟩ := lexAfterDigits_local h ht
    refine ⟨'0' :: l, rfl, by simp, fun tail hfollows => ?_⟩
    rw [List.cons_append, lexNumber_zero (hstop.append hfollows), hgo tail hfollows]

end Numbers

section Tokens

variable {c : Char} {cs rest tail : List Char} {t : Token}

/-- A token is read without a look at what follows it, save that a number goes on as long as it
can. -/
theorem lexToken_local (h : lexToken c cs = (t, rest)) (ht : t.isLast = false) :
    ∃ l, cs = l ++ rest ∧ ∀ tail, Follows rest tail → lexToken c (l ++ tail) = (t, tail) := by
  unfold lexToken at h
  split at h
  case h_1 | h_2 | h_3 | h_4 | h_5 | h_6 =>
    cases h
    exact ⟨[], rfl, fun tail _ => rfl⟩
  case h_7 =>
    cases h
    obtain ⟨l, hl, hgo⟩ := lexText_local cs (by simpa [Token.isLast] using ht)
    refine ⟨l, hl, fun tail _ => ?_⟩
    simp only [lexToken, hgo]
  case h_8 | h_9 | h_10 =>
    obtain ⟨rfl, rfl, hgo⟩ := lexWord_local h ht
    exact ⟨_, rfl, fun tail _ => hgo tail⟩
  case h_11 =>
    obtain ⟨l, rfl, -, hgo⟩ := lexNumber_local h ht
    exact ⟨l, rfl, hgo⟩
  case h_12 =>
    split_ifs at h with hdigit
    · obtain ⟨l, hl, hne, hgo⟩ := lexNumber_local h ht
      obtain ⟨d, l, rfl⟩ := List.exists_cons_of_ne_nil hne
      obtain ⟨rfl, rfl⟩ := List.cons.inj hl
      refine ⟨l, rfl, fun tail hfollows => ?_⟩
      rw [lexToken_digit hdigit, ← hgo tail hfollows]
      rfl
    · cases h
      cases ht

/-- Nothing breaks off inside the text. -/
def Whole (cs : List Char) : Prop := ∀ t ∈ lex cs, t.isLast = false

/-- What may come after a text without becoming part of its last token. -/
def Parts (tail : List Char) : Prop := ∀ c ∈ tail.head?, Stops c

theorem length_le_of_lexToken (h : lexToken c cs = (t, rest)) (ht : t.isLast = false) :
    rest.length ≤ cs.length := by
  obtain ⟨l, rfl, -⟩ := lexToken_local h ht
  simp

/-- Steps beyond the length of a text are never taken. -/
theorem lexUpTo_eq {m n : Nat} (hm : cs.length ≤ m) (hn : cs.length ≤ n) :
    lexUpTo m cs = lexUpTo n cs := by
  induction m generalizing n cs with
  | zero =>
    obtain rfl := List.eq_nil_of_length_eq_zero (Nat.le_zero.mp hm)
    cases n <;> rfl
  | succ m ih =>
    rcases cs with _ | ⟨c, cs⟩
    · cases n <;> rfl
    obtain ⟨n, rfl⟩ : ∃ n', n = n' + 1 := Nat.exists_eq_succ_of_ne_zero (by rintro rfl; simp at hn)
    obtain ⟨t, rest, hcut⟩ : ∃ t rest, lexToken c cs = (t, rest) := ⟨_, _, rfl⟩
    rw [List.length_cons] at hm hn
    have hspace : lexUpTo m cs = lexUpTo n cs := ih (by omega) (by omega)
    cases ht : t.isLast with
    | true => simp only [lexUpTo, hcut, ht, hspace, if_true]
    | false =>
      have hlen := length_le_of_lexToken hcut ht
      have hrest : lexUpTo m rest = lexUpTo n rest := ih (by omega) (by omega)
      simp only [lexUpTo, hcut, ht, hspace, hrest]

theorem lex_space (hc : isSpace c = true) (cs : List Char) : lex (c :: cs) = lex cs := by
  rw [lex, List.length_cons, lexUpTo, if_pos hc, lex]

theorem lex_token (hc : isSpace c = false) (h : lexToken c cs = (t, rest)) (ht : t.isLast = false) :
    lex (c :: cs) = t :: lex rest := by
  rw [lex, List.length_cons, lexUpTo, hc]
  simp only [h, ht, Bool.false_eq_true, if_false]
  rw [lexUpTo_eq (length_le_of_lexToken h ht) (Nat.le_refl _), lex]

theorem lex_last (hc : isSpace c = false) (h : lexToken c cs = (t, rest)) (ht : t.isLast = true) :
    lex (c :: cs) = [t] := by
  rw [lex, List.length_cons, lexUpTo, hc]
  simp only [h, ht, Bool.false_eq_true, if_false, if_true]

/-- The first token of a text in which nothing breaks off. -/
theorem Whole.token (h : Whole (c :: cs)) (hc : isSpace c = false) :
    ∃ t rest, lexToken c cs = (t, rest) ∧ t.isLast = false ∧ lex (c :: cs) = t :: lex rest ∧
      Whole rest := by
  obtain ⟨t, rest, hcut⟩ : ∃ t rest, lexToken c cs = (t, rest) := ⟨_, _, rfl⟩
  cases ht : t.isLast with
  | true =>
    have := h t (by rw [lex_last hc hcut ht]; exact List.mem_singleton_self _)
    rw [ht] at this
    cases this
  | false =>
    have heq := lex_token hc hcut ht
    exact ⟨t, rest, hcut, ht, heq, fun u hu => h u (heq ▸ List.mem_cons_of_mem _ hu)⟩

theorem Whole.of_space (h : Whole (c :: cs)) (hc : isSpace c = true) : Whole cs := by
  rw [Whole, lex_space hc] at h
  exact h

theorem follows_append (h : Parts tail) : Follows rest (rest ++ tail) := by
  cases rest with
  | nil => exact .inr h
  | cons d rest => exact .inl rfl

/-- A text in which nothing breaks off is cut in the same way whatever comes after it. -/
theorem lex_append (h : Whole cs) (ht : Parts tail) : lex (cs ++ tail) = lex cs ++ lex tail := by
  -- on the length, since a token takes more than the first character
  induction hn : cs.length using Nat.strongRecOn generalizing cs with
  | ind n ih =>
    subst hn
    rcases cs with _ | ⟨c, cs⟩
    · rfl
    cases hc : isSpace c with
    | true =>
      rw [List.cons_append, lex_space hc, lex_space hc]
      exact ih cs.length (by simp) (h.of_space hc) rfl
    | false =>
      obtain ⟨t, rest, hcut, hlast, heq, hrest⟩ := h.token hc
      obtain ⟨l, rfl, hgo⟩ := lexToken_local hcut hlast
      have hnext := hgo (rest ++ tail) (follows_append ht)
      rw [heq, List.cons_append, List.append_assoc, lex_token hc hnext hlast, List.cons_append,
        ih rest.length (by rw [List.length_cons, List.length_append]; omega) hrest rfl]

theorem lex_blanks {s : List Char} (hs : ∀ c ∈ s, isSpace c = true) (cs : List Char) :
    lex (s ++ cs) = lex cs := by
  induction s with
  | nil => rfl
  | cons c s ih =>
    rw [List.cons_append, lex_space (hs c List.mem_cons_self)]
    exact ih fun d hd => hs d (List.mem_cons_of_mem _ hd)

/-- A text falls apart between its tokens. -/
theorem exists_lex_eq {ts us : List Token} (h : lex cs = ts ++ us)
    (ht : ∀ t ∈ ts, t.isLast = false) : ∃ a b, cs = a ++ b ∧ lex a = ts ∧ lex b = us := by
  induction hn : cs.length using Nat.strongRecOn generalizing cs ts with
  | ind n ih =>
    subst hn
    rcases ts with _ | ⟨t, ts⟩
    · exact ⟨[], cs, rfl, rfl, h⟩
    rcases cs with _ | ⟨c, cs⟩
    · cases h
    cases hc : isSpace c with
    | true =>
      rw [lex_space hc] at h
      obtain ⟨a, b, rfl, ha, hb⟩ := ih cs.length (by simp) h ht rfl
      exact ⟨c :: a, b, rfl, by rw [lex_space hc, ha], hb⟩
    | false =>
      obtain ⟨u, rest, hcut⟩ : ∃ u rest, lexToken c cs = (u, rest) := ⟨_, _, rfl⟩
      cases hlast : u.isLast with
      | true =>
        rw [lex_last hc hcut hlast] at h
        obtain rfl := (List.cons.inj h).1
        rw [ht u List.mem_cons_self] at hlast
        cases hlast
      | false =>
        rw [lex_token hc hcut hlast] at h
        obtain ⟨rfl, hrest⟩ := List.cons.inj h
        obtain ⟨l, rfl, hgo⟩ := lexToken_local hcut hlast
        obtain ⟨a, b, rfl, ha, hb⟩ := ih rest.length
          (by rw [List.length_cons, List.length_append]; omega) hrest
          (fun t h => ht t (List.mem_cons_of_mem _ h)) rfl
        have hfollows : Follows (a ++ b) a := by
          cases a with
          | nil => exact .inr nofun
          | cons d a => exact .inl rfl
        refine ⟨c :: (l ++ a), b, by simp, ?_, hb⟩
        rw [lex_token hc (hgo a hfollows) hlast, ha]

end Tokens

end DocumentPipeline.Json
