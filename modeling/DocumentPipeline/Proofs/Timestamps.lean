import DocumentPipeline.Proofs.Calendar
import DocumentPipeline.Proofs.Digits

/-! # Instants as RFC 3339 writes them

An instant can be written at any offset from UTC in whole minutes, and with any number of digits
that write its fraction exactly. Reading takes all these texts back to the instant, and writing
picks one of them: that in UTC with the fewest of 0, 3, 6 and 9 digits.
-/
namespace DocumentPipeline

/-- The text of a date in the years 0000 to 9999. -/
def Date.written (d : Date) : List Char :=
  decimals 4 d.year.toNat ++ '-' :: decimals 2 d.month ++ '-' :: decimals 2 d.day

namespace Instant

/-- The text of a second of the day. -/
def clock (second : Nat) : List Char :=
  decimals 2 (second / 3600) ++ ':' :: decimals 2 (second / 60 % 60) ++
    ':' :: decimals 2 (second % 60)

/-- A fraction of a second in as many digits as one likes, if they write it exactly. -/
inductive Fraction (nanos : Nat) : List Char → Prop
  | none (h : nanos = 0) : Fraction nanos []
  | digits {ds : List Char} (hne : ds ≠ []) (hd : ∀ c ∈ ds, c.isDigit = true)
      (h : Nat.ofDigitChars 10 ds 0 * 10 ^ 9 = nanos * 10 ^ ds.length) : Fraction nanos ('.' :: ds)

/-- A zone that is so many minutes ahead of UTC, by less than a day. -/
inductive Zone : Int → List Char → Prop
  | utc {c : Char} (h : c = 'Z' ∨ c = 'z') : Zone 0 [c]
  | ahead {hours minutes : Nat} (hh : hours < 24) (hm : minutes < 60) :
      Zone (60 * hours + minutes : Nat) ('+' :: decimals 2 hours ++ ':' :: decimals 2 minutes)
  | behind {hours minutes : Nat} (hh : hours < 24) (hm : minutes < 60) :
      Zone (-(60 * hours + minutes : Nat)) ('-' :: decimals 2 hours ++ ':' :: decimals 2 minutes)

/-- The text tells the instant as clocks show it that are so many minutes ahead of UTC. -/
inductive Written (t : Instant) (offset : Int) : String → Prop
  | intro {day : Int} {date : Date} {second : Nat} {separator : Char} {fraction zone : List Char}
      (hday : date.OnDay day) (hyear : 0 ≤ date.year ∧ date.year ≤ 9999)
      (hsecond : second < 86400) (hlocal : t.seconds + 60 * offset = 86400 * day + second)
      (hseparator : separator ∈ ['T', 't', ' ']) (hfraction : Fraction t.nanos fraction)
      (hzone : Zone offset zone) :
      Written t offset
        (String.ofList (date.written ++ separator :: clock second ++ fraction ++ zone))

/-- A number of digits that write the fraction of the second exactly, the fewest of 0, 3, 6
and 9. -/
structure Fewest (nanos digits : Nat) : Prop where
  mem : digits ∈ [0, 3, 6, 9]
  exact : 10 ^ (9 - digits) ∣ nanos
  least : ∀ k ∈ [0, 3, 6, 9], 10 ^ (9 - k) ∣ nanos → digits ≤ k

/-- The text that is preferred for an instant. -/
inductive Canonical (t : Instant) : String → Prop
  | intro {day : Int} {date : Date} {second digits : Nat} (hday : date.OnDay day)
      (hsecond : second < 86400) (hlocal : t.seconds = 86400 * day + second)
      (hdigits : Fewest t.nanos digits) :
      Canonical t (String.ofList (date.written ++ 'T' :: clock second ++
        (if digits = 0 then [] else '.' :: decimals digits (t.nanos / 10 ^ (9 - digits))) ++ ['Z']))

/-- The instant is one of the years 0000 to 9999 and not inside a leap second. -/
def IsPlain (t : Instant) : Prop :=
  t.nanos < 10 ^ 9 ∧ ∃ date : Date, date.OnDay (t.seconds / 86400) ∧ 0 ≤ date.year ∧ date.year ≤ 9999

section Reading

variable {width n nanos : Nat} {rest ds : List Char}

theorem trimStart_of_not_isBlank {c : Char} {cs : List Char} (h : isBlank c = false) :
    trimStart (c :: cs) = c :: cs :=
  List.dropWhile_cons_of_neg (by simp [h])

/-- A number in decimals begins with a digit. -/
theorem exists_decimals_eq_cons (width n : Nat) :
    ∃ c cs, decimals (width + 1) n = c :: cs ∧ c.isDigit = true := by
  obtain ⟨c, cs, h⟩ := List.exists_cons_of_length_eq_add_one (length_decimals (width + 1) n)
  exact ⟨c, cs, h, isDigit_decimals c (h ▸ List.mem_cons_self)⟩

theorem trimStart_decimals (width n : Nat) (rest : List Char) :
    trimStart (decimals (width + 1) n ++ rest) = decimals (width + 1) n ++ rest := by
  obtain ⟨c, cs, h, hc⟩ := exists_decimals_eq_cons width n
  rw [h, List.cons_append, trimStart_of_not_isBlank (isBlank_of_isDigit hc)]

/-- Decimals in full width are read as a number, whatever follows. -/
theorem readNumber?_decimals (h : n < 10 ^ (width + 1)) (rest : List Char) :
    readNumber? (width + 1) (decimals (width + 1) n ++ rest) = some (n, rest) := by
  have htake : (decimals (width + 1) n ++ rest).take (width + 1) = decimals (width + 1) n :=
    List.take_left' (length_decimals _ _)
  have hdigits : (decimals (width + 1) n).takeWhile Char.isDigit = decimals (width + 1) n :=
    List.takeWhile_eq_self_iff.mpr isDigit_decimals
  have hne : decimals (width + 1) n ≠ [] := List.ne_nil_of_length_eq_add_one (length_decimals _ _)
  simp only [readNumber?, htake, hdigits, List.isEmpty_iff, hne, if_false,
    ofDigitChars_decimals h, List.drop_left]

theorem readField?_decimals (h : n < 10 ^ (width + 1)) (rest : List Char) :
    readField? (width + 1) (decimals (width + 1) n ++ rest) = some (n, rest) := by
  rw [readField?, trimStart_decimals, readNumber?_decimals h]

theorem readYear?_decimals (h : n < 10 ^ 4) (rest : List Char) :
    readYear? (decimals 4 n ++ rest) = some ((n : Int), rest) := by
  obtain ⟨c, cs, hcs, hc⟩ := exists_decimals_eq_cons 3 n
  have hnumber : readNumber? 4 (decimals 4 n ++ rest) = some (n, rest) :=
    readNumber?_decimals h rest
  rw [readYear?, trimStart_decimals]
  rw [hcs, List.cons_append] at hnumber ⊢
  split
  · next heq => exact absurd (List.cons.inj heq).1 (ne_of_isDigit hc (by decide))
  · next heq => exact absurd (List.cons.inj heq).1 (ne_of_isDigit hc (by decide))
  · rw [hnumber]
    rfl

theorem readMark?_cons {mark : Char} (h : isBlank mark = false) (cs : List Char) :
    readMark? mark (mark :: cs) = some cs := by
  simp [readMark?, trimStart_of_not_isBlank h]

/-- The digits beyond the ninth are no part of a fraction that is exact. -/
theorem ofDigitChars_take (hd : ∀ c ∈ ds, c.isDigit = true)
    (h : Nat.ofDigitChars 10 ds 0 * 10 ^ 9 = nanos * 10 ^ ds.length) :
    Nat.ofDigitChars 10 (ds.take 9) 0 * 10 ^ (9 - (ds.take 9).length) = nanos := by
  rcases Nat.le_total ds.length 9 with hlen | hlen
  · rw [List.take_of_length_le hlen]
    apply Nat.eq_of_mul_eq_mul_right (Nat.pow_pos (n := ds.length) (by decide : 0 < 10))
    rw [Nat.mul_assoc, ← Nat.pow_add, Nat.sub_add_cancel hlen, h]
  · have hsplit : Nat.ofDigitChars 10 ds 0 = Nat.ofDigitChars 10 (ds.take 9) 0 *
        10 ^ (ds.length - 9) + Nat.ofDigitChars 10 (ds.drop 9) 0 := by
      conv_lhs => rw [← List.take_append_drop 9 ds]
      rw [Nat.ofDigitChars_append, Nat.ofDigitChars_eq_ofDigitChars_zero, List.length_drop]
      rw [Nat.mul_comm]
    have hpos : 0 < 10 ^ (ds.length - 9) := Nat.pow_pos (by decide)
    have hlow : Nat.ofDigitChars 10 (ds.drop 9) 0 < 10 ^ (ds.length - 9) := by
      rw [← List.length_drop]
      exact ofDigitChars_lt fun c hc => hd c (List.mem_of_mem_drop hc)
    have hexact : Nat.ofDigitChars 10 ds 0 = nanos * 10 ^ (ds.length - 9) := by
      apply Nat.eq_of_mul_eq_mul_right (Nat.pow_pos (n := 9) (by decide : 0 < 10))
      rw [h, Nat.mul_assoc, ← Nat.pow_add, Nat.sub_add_cancel hlen]
    rw [List.length_take_of_le hlen, Nat.sub_self, Nat.pow_zero, Nat.mul_one]
    calc
      Nat.ofDigitChars 10 (ds.take 9) 0 =
          Nat.ofDigitChars 10 ds 0 / 10 ^ (ds.length - 9) := by
        rw [hsplit, Nat.add_comm, Nat.add_mul_div_right _ _ hpos, Nat.div_eq_of_lt hlow,
          Nat.zero_add]
      _ = nanos := by rw [hexact, Nat.mul_div_cancel _ hpos]

/-- Digits that end are told from what follows them. -/
theorem readFraction?_append (h : Fraction nanos ds) {c : Char} (hc : c.isDigit = false)
    (hpoint : c ≠ '.') (rest : List Char) :
    readFraction? (ds ++ c :: rest) = some (nanos, c :: rest) := by
  cases h with
  | none h =>
    subst h
    rw [List.nil_append, readFraction?]
    intro cs heq
    exact hpoint (List.cons.inj heq).1
  | @digits ds hne hd h =>
    have hstop (k : Nat) : ((c :: rest).take k).takeWhile Char.isDigit = [] := by
      cases k with
      | zero => rfl
      | succ k => rw [List.take_succ_cons, List.takeWhile_cons_of_neg (by simp [hc])]
    have htaken : ((ds ++ c :: rest).take 9).takeWhile Char.isDigit = ds.take 9 := by
      rw [List.take_append, List.takeWhile_append_of_pos fun d h => hd d (List.mem_of_mem_take h),
        hstop, List.append_nil]
    have hleft : (ds ++ c :: rest).drop (ds.take 9).length =
        ds.drop (ds.take 9).length ++ c :: rest :=
      List.drop_append_of_le_length (List.length_take_le' 9 ds)
    have hskipped :
        (ds.drop (ds.take 9).length ++ c :: rest).dropWhile Char.isDigit = c :: rest := by
      rw [List.dropWhile_append_of_pos fun d h => hd d (List.mem_of_mem_drop h),
        List.dropWhile_cons_of_neg (by simp [hc])]
    have hcount : (ds ++ c :: rest).length - (ds.drop (ds.take 9).length ++ c :: rest).length =
        (ds.take 9).length := by
      simp only [List.length_append, List.length_drop, List.length_take]
      omega
    have hsome : (ds.take 9).isEmpty = false := by simpa using hne
    simp only [List.cons_append, readFraction?, readNumber?, htaken, hsome, hleft, Option.map_some,
      Bool.false_eq_true, if_false, hskipped, hcount]
    rw [show Nat.pow 10 (9 - (ds.take 9).length) = 10 ^ (9 - (ds.take 9).length) from rfl,
      ofDigitChars_take hd h]

theorem readTwo?_decimals {n : Nat} (h : n < 100) (rest : List Char) :
    readTwo? (decimals 2 n ++ rest) = some (n, rest) := by
  have hdigit (m : Nat) : (Nat.digitChar (m % 10)).isDigit = true := by
    rw [Nat.isDigit_digitChar]
    exact decide_eq_true (Nat.mod_lt _ (by decide))
  have hvalue (m : Nat) : (Nat.digitChar (m % 10)).toNat - 48 = m % 10 :=
    Nat.toNat_digitChar_sub_48_of_lt_ten (Nat.mod_lt _ (by decide))
  simp only [decimals, List.nil_append, List.cons_append, readTwo?, hdigit, hvalue, Bool.and_self,
    if_true]
  congr 2
  omega

theorem readZone?_zone {offset : Int} {zone : List Char} (h : Zone offset zone) :
    readZone? zone = some (60 * offset, []) := by
  have hcolon (minutes : Nat) : (':' :: decimals 2 minutes).dropWhile
      (fun c => decide (c = ':') || isBlank c) = decimals 2 minutes := by
    obtain ⟨c, cs, hcs, hc⟩ := exists_decimals_eq_cons 1 minutes
    have hne : c ≠ ':' := ne_of_isDigit hc (by decide)
    rw [hcs, List.dropWhile_cons_of_pos (by simp),
      List.dropWhile_cons_of_neg (by simp [hne, isBlank_of_isDigit hc])]
  have hminutes {minutes : Nat} (hm : minutes < 60) :
      readTwo? (decimals 2 minutes) = some (minutes, []) := by
    simpa using readTwo?_decimals (n := minutes) (by omega) []
  cases h with
  | utc h => rcases h with rfl | rfl <;> rfl
  | @ahead hours minutes hh hm =>
    have hhours := readTwo?_decimals (n := hours) (by omega) (':' :: decimals 2 minutes)
    simp only [readZone?, List.cons_append, hhours, hcolon, hminutes hm, hm, if_true,
      Option.bind_eq_bind, Option.bind_some]
    congr 2
    simp
    omega
  | @behind hours minutes hh hm =>
    have hhours := readTwo?_decimals (n := hours) (by omega) (':' :: decimals 2 minutes)
    simp only [readZone?, List.cons_append, hhours, hcolon, hminutes hm, hm, if_true,
      Option.bind_eq_bind, Option.bind_some]
    congr 2
    simp
    omega

/-- A zone begins with a sign or a letter. -/
theorem Zone.eq_cons {offset : Int} {zone : List Char} (h : Zone offset zone) :
    ∃ c cs, zone = c :: cs ∧ c.isDigit = false ∧ c ≠ '.' ∧ isBlank c = false := by
  cases h with
  | utc h => rcases h with rfl | rfl <;> exact ⟨_, _, rfl, by decide, by decide, by decide⟩
  | ahead | behind => exact ⟨_, _, rfl, by decide, by decide, by decide⟩

theorem Zone.bounds {offset : Int} {zone : List Char} (h : Zone offset zone) :
    -1440 < offset ∧ offset < 1440 := by
  cases h <;> omega

/-- The instant is found again from what clocks show. -/
theorem ofLocal?_eq {t : Instant} {offset day : Int} {date : Date} {second : Nat} (ht : t.IsPlain)
    (hday : date.OnDay day) (hyear : 0 ≤ date.year ∧ date.year ≤ 9999) (hsecond : second < 86400)
    (hlocal : t.seconds + 60 * offset = 86400 * day + second)
    (hoffset : -1440 < offset ∧ offset < 1440) :
    ofLocal? date (second / 3600) (second / 60 % 60) (second % 60) t.nanos (60 * offset) =
      some t := by
  obtain ⟨hvalid, hnumber⟩ := Date.onDay_iff.mp hday
  obtain ⟨hnanos, utc, hutc, hyears⟩ := ht
  have hrange : t.inRange = true := by
    rw [inRange, ← Date.onDay_iff_eq.mp hutc]
    simp only [yearInRange, Bool.and_eq_true, decide_eq_true_eq]
    omega
  have hplace : yearInRange date.year ∧ date.IsValid ∧ second / 3600 < 24 ∧ second / 60 % 60 < 60 ∧
      second % 60 ≤ 60 ∧ -86400 < 60 * offset ∧ 60 * offset < 86400 := by
    refine ⟨?_, hvalid, by omega, by omega, by omega, by omega, by omega⟩
    simp only [yearInRange, Bool.and_eq_true, decide_eq_true_eq]
    omega
  have hplain : second % 60 ≠ 60 := by omega
  have hseconds : date.dayNumber * 86400 +
      (second / 3600 * 3600 + second / 60 % 60 * 60 + second % 60 : Nat) - 60 * offset =
        t.seconds := by
    omega
  obtain ⟨seconds, nanos, hlt⟩ := t
  simp only [ofLocal?, if_pos hplace, if_neg hplain, Nat.zero_add, hseconds, dif_pos hlt, hrange,
    if_true]

/-- Reading goes through the parts of a text from left to right. -/
theorem read?_of_parts {text : String} {year offset : Int} {month day hour minute second nanos : Nat}
    {separator : Char} {c₁ c₂ c₃ c₄ c₅ c₆ c₇ c₈ c₉ c₁₀ c₁₁ : List Char}
    (hyear : readYear? text.toList = some (year, c₁)) (h₁ : readMark? '-' c₁ = some c₂)
    (hmonth : readField? 2 c₂ = some (month, c₃)) (h₃ : readMark? '-' c₃ = some c₄)
    (hday : readField? 2 c₄ = some (day, separator :: c₅))
    (hseparator : separator ∈ ['T', 't', ' '])
    (hhour : readField? 2 c₅ = some (hour, c₆)) (h₆ : readMark? ':' c₆ = some c₇)
    (hminute : readField? 2 c₇ = some (minute, c₈)) (h₈ : readMark? ':' c₈ = some c₉)
    (hsecond : readField? 2 c₉ = some (second, c₁₀))
    (hfraction : readFraction? c₁₀ = some (nanos, c₁₁))
    (hzone : readZone? (trimStart c₁₁) = some (offset, [])) :
    read? text = ofLocal? ⟨year, month, day⟩ hour minute second nanos offset := by
  have hstep {α β : Type} {o : Option α} {a : α} (h : o = some a) (f : α → Option β) :
      (o >>= f) = f a := by
    rw [h]
    rfl
  rw [read?]
  refine (hstep hyear _).trans ((hstep h₁ _).trans ((hstep hmonth _).trans ((hstep h₃ _).trans
    ((hstep hday _).trans ?_))))
  simp only [List.mem_cons, List.not_mem_nil, or_false] at hseparator
  rcases hseparator with rfl | rfl | rfl
  all_goals
    exact (hstep hhour _).trans ((hstep h₆ _).trans ((hstep hminute _).trans ((hstep h₈ _).trans
      ((hstep hsecond _).trans ((hstep hfraction _).trans (hstep hzone _))))))

/-- Every text that tells an instant is read as that instant. -/
theorem read?_written {t : Instant} {offset : Int} {text : String} (ht : t.IsPlain)
    (h : Written t offset text) : read? text = some t := by
  cases h with
  | @intro day date second separator fraction zone hday hyear hsecond hlocal hsep hfrac hzone =>
    have hread := ofLocal?_eq ht hday hyear hsecond hlocal hzone.bounds
    have hzoned := readZone?_zone hzone
    obtain ⟨c, cs, rfl, hdigit, hpoint, hblank⟩ := hzone.eq_cons
    obtain ⟨⟨hm₁, hm₂, hd₁, hd₂⟩, -⟩ := Date.onDay_iff.mp hday
    have hmonth : date.month < 100 := by omega
    have hdate : date.day < 100 := by
      have := Date.daysIn_le date.year date.month
      omega
    have hfield {n : Nat} (hn : n < 100) (rest : List Char) :
        readField? 2 (decimals 2 n ++ rest) = some (n, rest) := readField?_decimals hn rest
    have hmark := @readMark?_cons '-' (by decide)
    have hcolon := @readMark?_cons ':' (by decide)
    obtain ⟨year, month, day⟩ := date
    obtain ⟨year, rfl⟩ := Int.eq_ofNat_of_zero_le hyear.1
    have hlast : (year : Int) ≤ 9999 := hyear.2
    rw [← hread]
    refine read?_of_parts ?_ (hmark _) (hfield hmonth _) (hmark _) (hfield hdate _) hsep
      (hfield (by omega) _) (hcolon _) (hfield (by omega) _) (hcolon _) (hfield (by omega) _)
      (readFraction?_append hfrac hdigit hpoint cs) ?_
    · rw [String.toList_ofList, Date.written, clock]
      simp only [List.append_assoc, List.cons_append]
      exact readYear?_decimals (by omega) _
    · rw [trimStart_of_not_isBlank hblank, hzoned]

end Reading

section Writing

variable {t : Instant} {nanos digits : Nat}

theorem Fewest.le (h : Fewest nanos digits) : digits ≤ 9 := by
  have := h.mem
  simp only [List.mem_cons, List.not_mem_nil, or_false] at this
  omega

/-- The fraction is written with the fewest digits that tell it. -/
theorem exists_fewest (h : nanos < 10 ^ 9) : ∃ digits, Fewest nanos digits ∧
    writeFraction nanos =
      if digits = 0 then [] else '.' :: decimals digits (nanos / 10 ^ (9 - digits)) := by
  unfold writeFraction
  split_ifs with h₀ h₆ h₃
  · exact ⟨0, ⟨by simp, by simp [h₀], fun k _ _ => Nat.zero_le k⟩, rfl⟩
  · refine ⟨3, ⟨by simp, Nat.dvd_of_mod_eq_zero h₆, fun k hk hdvd => ?_⟩, ?_⟩
    · simp only [List.mem_cons, List.not_mem_nil, or_false] at hk
      rcases hk with rfl | rfl | rfl | rfl
      · exact absurd (Nat.eq_zero_of_dvd_of_lt hdvd h) h₀
      all_goals decide
    · rw [if_neg (by decide), padded_eq_decimals (by omega)]
      rfl
  · refine ⟨6, ⟨by simp, Nat.dvd_of_mod_eq_zero h₃, fun k hk hdvd => ?_⟩, ?_⟩
    · simp only [List.mem_cons, List.not_mem_nil, or_false] at hk
      rcases hk with rfl | rfl | rfl | rfl
      · exact absurd (Nat.eq_zero_of_dvd_of_lt hdvd h) h₀
      · exact absurd (Nat.mod_eq_zero_of_dvd hdvd) h₆
      all_goals decide
    · rw [if_neg (by decide), padded_eq_decimals (by omega)]
      rfl
  · refine ⟨9, ⟨by simp, by simp, fun k hk hdvd => ?_⟩, ?_⟩
    · simp only [List.mem_cons, List.not_mem_nil, or_false] at hk
      rcases hk with rfl | rfl | rfl | rfl
      · exact absurd (Nat.eq_zero_of_dvd_of_lt hdvd h) h₀
      · exact absurd (Nat.mod_eq_zero_of_dvd hdvd) h₆
      · exact absurd (Nat.mod_eq_zero_of_dvd hdvd) h₃
      · decide
    · rw [if_neg (by decide), padded_eq_decimals h, Nat.sub_self, Nat.pow_zero, Nat.div_one]

/-- What is written is the preferred text. -/
theorem canonical_write (ht : t.IsPlain) : Canonical t t.write := by
  obtain ⟨hnanos, date, hday, hyear⟩ := ht
  obtain ⟨digits, hfewest, hfraction⟩ := exists_fewest hnanos
  obtain ⟨second, hsecond⟩ : ∃ second, (t.seconds % 86400).toNat = second := ⟨_, rfl⟩
  obtain ⟨⟨hm₁, hm₂, hd₁, hd₂⟩, -⟩ := Date.onDay_iff.mp hday
  have hd₃ := Date.daysIn_le date.year date.month
  have hlocal : t.writeLocal = date.written ++ 'T' :: clock second ++
      if digits = 0 then [] else '.' :: decimals digits (t.nanos / 10 ^ (9 - digits)) := by
    have hyears : writeYear date.year = decimals 4 date.year.toNat := by
      rw [writeYear, if_pos hyear, padded_eq_decimals (by omega)]
    have htwo {n : Nat} (hn : n < 10 ^ 2) : padded 2 n = decimals 2 n := padded_eq_decimals hn
    have hbelow : t.nanos / 1000000000 = 0 := Nat.div_eq_of_lt hnanos
    have hwhole : t.nanos % 1000000000 = t.nanos := Nat.mod_eq_of_lt hnanos
    simp only [writeLocal, ← Date.onDay_iff_eq.mp hday, hsecond, hyears, hbelow, hwhole, hfraction,
      Date.written, clock, Nat.add_zero, htwo (show date.month < 10 ^ 2 by omega),
      htwo (show date.day < 10 ^ 2 by omega), htwo (show second / 3600 < 10 ^ 2 by omega),
      htwo (show second / 60 % 60 < 10 ^ 2 by omega), htwo (show second % 60 < 10 ^ 2 by omega),
      List.append_assoc, List.cons_append]
  rw [write, hlocal]
  exact .intro hday (by omega) (by omega) hfewest

/-- The fewest digits write the fraction exactly. -/
theorem Fewest.fraction (h : Fewest nanos digits) (hn : nanos < 10 ^ 9) : Fraction nanos
    (if digits = 0 then [] else '.' :: decimals digits (nanos / 10 ^ (9 - digits))) := by
  have hexact := Nat.div_mul_cancel h.exact
  split_ifs with hzero
  · subst hzero
    exact .none (Nat.eq_zero_of_dvd_of_lt h.exact hn)
  · have hpower : 10 ^ (9 - digits) * 10 ^ digits = 10 ^ 9 := by
      rw [← Nat.pow_add, Nat.sub_add_cancel h.le]
    have hlt : nanos / 10 ^ (9 - digits) < 10 ^ digits := Nat.div_lt_of_lt_mul (hpower ▸ hn)
    refine .digits (List.ne_nil_of_length_pos ?_) isDigit_decimals ?_
    · rw [length_decimals]
      omega
    · rw [ofDigitChars_decimals hlt, length_decimals, ← hpower, ← Nat.mul_assoc, hexact]

/-- The preferred text is one of those that tell the instant. -/
theorem Canonical.written {text : String} (ht : t.IsPlain) (h : Canonical t text) :
    Written t 0 text := by
  obtain ⟨hnanos, utc, hutc, hyear⟩ := ht
  cases h with
  | @intro day date second digits hday hsecond hlocal hfewest =>
    obtain rfl : t.seconds / 86400 = day := by omega
    obtain rfl : utc = date := (Date.onDay_iff_eq.mp hutc).trans (Date.onDay_iff_eq.mp hday).symm
    exact .intro hday hyear hsecond (by omega) (by simp) (hfewest.fraction hnanos) (.utc (.inl rfl))

theorem exists_zone {offset : Int} (h₁ : -1440 < offset) (h₂ : offset < 1440) :
    ∃ zone, Zone offset zone := by
  obtain ⟨n, rfl | rfl⟩ := Int.eq_nat_or_neg offset
  · have hzone := Zone.ahead (show n / 60 < 24 by omega) (show n % 60 < 60 by omega)
    rw [Nat.div_add_mod] at hzone
    exact ⟨_, hzone⟩
  · have hzone := Zone.behind (show n / 60 < 24 by omega) (show n % 60 < 60 by omega)
    rw [Nat.div_add_mod] at hzone
    exact ⟨_, hzone⟩

/-- An instant can be told at every offset at which clocks show a year of four digits. -/
theorem exists_written {offset : Int} {date : Date} (ht : t.IsPlain) (h₁ : -1440 < offset)
    (h₂ : offset < 1440) (hday : date.OnDay ((t.seconds + 60 * offset) / 86400))
    (hyear : 0 ≤ date.year ∧ date.year ≤ 9999) : ∃ text, Written t offset text := by
  obtain ⟨zone, hzone⟩ := exists_zone h₁ h₂
  obtain ⟨digits, hfewest, -⟩ := exists_fewest ht.1
  obtain ⟨second, hsecond⟩ : ∃ second, ((t.seconds + 60 * offset) % 86400).toNat = second :=
    ⟨_, rfl⟩
  have hseparator : 'T' ∈ ['T', 't', ' '] := by simp
  have hlt : second < 86400 := by omega
  exact ⟨_, .intro hday hyear hlt (by omega) hseparator (hfewest.fraction ht.1) hzone⟩

end Writing

end Instant

end DocumentPipeline
