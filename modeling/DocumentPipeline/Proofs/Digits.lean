import DocumentPipeline.Time.Instant
import Mathlib.Algebra.Group.Nat.Defs
import Mathlib.Data.List.Induction
import Mathlib.Data.List.TakeWhile

/-! # Decimal digits

Digits are told from blanks and from all other characters. A number below a power of ten has one
form in so many digits; it is what is written with leading zeros, and it is read back.
-/
namespace DocumentPipeline

theorem toNat_of_isDigit {c : Char} (h : c.isDigit = true) : 48 ≤ c.toNat ∧ c.toNat ≤ 57 := by
  simp only [Char.isDigit, Bool.and_eq_true, decide_eq_true_eq] at h
  exact ⟨UInt32.le_iff_toNat_le.mp h.1, UInt32.le_iff_toNat_le.mp h.2⟩

theorem ne_of_isDigit {c d : Char} (hc : c.isDigit = true) (hd : d.isDigit = false) : c ≠ d := by
  rintro rfl
  rw [hc] at hd
  cases hd

theorem isBlank_of_isDigit {c : Char} (h : c.isDigit = true) : isBlank c = false := by
  have hc := toNat_of_isDigit h
  simp only [isBlank]
  grind

/-- Digits write a number below the power of ten that has one more. -/
theorem ofDigitChars_lt {ds : List Char} (h : ∀ c ∈ ds, c.isDigit = true) :
    Nat.ofDigitChars 10 ds 0 < 10 ^ ds.length := by
  induction ds using List.reverseRecOn with
  | nil => simp
  | append_singleton ds c ih =>
    have hlow := ih fun d hd => h d (List.mem_append_left _ hd)
    have hc := toNat_of_isDigit (h c (by simp))
    rw [Nat.ofDigitChars_append, Nat.ofDigitChars_cons, Nat.ofDigitChars_nil, List.length_append,
      List.length_singleton, Nat.pow_succ]
    change 10 * Nat.ofDigitChars 10 ds 0 + (c.toNat - 48) < _
    omega

/-- A number in so many decimal digits, of which the lowest come last. -/
def decimals : Nat → Nat → List Char
  | 0, _ => []
  | width + 1, n => decimals width (n / 10) ++ [Nat.digitChar (n % 10)]

section Decimals

variable {width n : Nat}

@[simp] theorem length_decimals (width n : Nat) : (decimals width n).length = width := by
  induction width generalizing n with
  | zero => rfl
  | succ width ih => simp [decimals, ih]

theorem isDigit_decimals : ∀ c ∈ decimals width n, c.isDigit = true := by
  induction width generalizing n with
  | zero => simp [decimals]
  | succ width ih =>
    intro c hc
    rcases List.mem_append.mp hc with hc | hc
    · exact ih c hc
    · obtain rfl := List.mem_singleton.mp hc
      rw [Nat.isDigit_digitChar]
      exact decide_eq_true (Nat.mod_lt _ (by decide))

/-- Zeros are all that is written of zero. -/
theorem decimals_zero (width : Nat) : decimals width 0 = List.replicate width '0' := by
  induction width with
  | zero => rfl
  | succ width ih => rw [decimals, Nat.zero_div, ih, List.replicate_succ']; rfl

theorem ofDigitChars_decimals (h : n < 10 ^ width) :
    Nat.ofDigitChars 10 (decimals width n) 0 = n := by
  induction width generalizing n with
  | zero => simp at h; simp [decimals, h]
  | succ width ih =>
    have hn : n / 10 < 10 ^ width := by omega
    have hdigit : (Nat.digitChar (n % 10)).toNat - 48 = n % 10 :=
      Nat.toNat_digitChar_sub_48_of_lt_ten (Nat.mod_lt _ (by decide))
    rw [decimals, Nat.ofDigitChars_append, ih hn, Nat.ofDigitChars_cons, Nat.ofDigitChars_nil]
    change 10 * (n / 10) + ((Nat.digitChar (n % 10)).toNat - 48) = n
    omega

/-- Leading zeros make up for the digits that a number lacks. -/
theorem padded_eq_decimals (h : n < 10 ^ (width + 1)) :
    Instant.padded (width + 1) n = decimals (width + 1) n := by
  have hrepr (m : Nat) : (Nat.repr m).toList = Nat.toDigits 10 m := by
    rw [Nat.repr_eq_ofList_toDigits, String.toList_ofList]
  induction width generalizing n with
  | zero =>
    have hn : n < 10 := by simpa using h
    rw [Instant.padded, hrepr, Nat.toDigits_of_lt_base hn, decimals, Nat.mod_eq_of_lt hn]
    rfl
  | succ width ih =>
    rcases Nat.lt_or_ge n 10 with hn | hn
    · rw [Instant.padded, hrepr, Nat.toDigits_of_lt_base hn, decimals, Nat.mod_eq_of_lt hn,
        Nat.div_eq_of_lt hn, decimals_zero]
      rfl
    · have htail := ih (n := n / 10) (by omega)
      rw [Instant.padded, hrepr] at htail
      rw [decimals, ← htail, Instant.padded, hrepr, Nat.toDigits_of_base_le (by decide) hn,
        List.length_append, List.length_singleton, Nat.add_sub_add_right, List.append_assoc]

end Decimals

end DocumentPipeline
