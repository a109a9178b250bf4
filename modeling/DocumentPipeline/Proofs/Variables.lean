import DocumentPipeline.Proofs.Digits
import DocumentPipeline.Settings.Loading
import Mathlib.Data.List.TakeDrop
import Mathlib.Data.List.TakeWhile

/-! # How environment variables are read

A variable is named after a field of the settings, in any case, and writes a number in decimal
digits. Neither the case of its name nor leading zeros matter: its layer holds that number under the
name of the field.
-/
namespace DocumentPipeline

/-- A field of the settings. -/
inductive Setting where
  | queueSize
  | numClients
  | numEmitters
  | maxOfferWaitMs
  deriving DecidableEq

namespace Setting

/-- The name of a field in a table. -/
def key : Setting → String
  | queueSize => "queue_size"
  | numClients => "num_clients"
  | numEmitters => "num_emitters"
  | maxOfferWaitMs => "max_offer_wait_ms"

/-- The value of a field. -/
def of (s : Settings) : Setting → UInt64
  | queueSize => s.queueSize
  | numClients => s.numClients
  | numEmitters => s.numEmitters
  | maxOfferWaitMs => s.maxOfferWaitMs

/-- Whether a variable is named after a field, in any case. -/
def Names (f : Setting) (name : String) : Prop :=
  name.toList.map Char.toLower = "docpipe_processor__".toList ++ f.key.toList

instance (f : Setting) (name : String) : Decidable (f.Names name) :=
  inferInstanceAs (Decidable (_ = _))

theorem key_injective {f g : Setting} (h : f.key = g.key) : f = g := by
  cases f <;> cases g <;> first | rfl | exact absurd h (by decide)

end Setting

theorem toNat_toLower (c : Char) :
    c.toLower.toNat = if 65 ≤ c.toNat ∧ c.toNat ≤ 90 then c.toNat + 32 else c.toNat := by
  have hle (d : Char) :
      (c.val ≥ d.val ↔ d.toNat ≤ c.toNat) ∧ (c.val ≤ d.val ↔ c.toNat ≤ d.toNat) :=
    ⟨UInt32.le_iff_toNat_le, UInt32.le_iff_toNat_le⟩
  unfold Char.toLower
  split
  · next h =>
    have hupper : 65 ≤ c.toNat ∧ c.toNat ≤ 90 := ⟨(hle 'A').1.mp h.1, (hle 'Z').2.mp h.2⟩
    rw [if_pos hupper]
    show (c.val + ('a'.val - 'A'.val)).toNat = c.val.toNat + 32
    have hc : c.val.toNat ≤ 90 := hupper.2
    rw [UInt32.toNat_add]
    exact Nat.mod_eq_of_lt (by simp; omega)
  · next h =>
    rw [if_neg fun hupper => h ⟨(hle 'A').1.mpr hupper.1, (hle 'Z').2.mpr hupper.2⟩]

/-- A character that is no letter comes from itself only. -/
theorem toLower_eq_iff {c d : Char} (hd : d.toNat < 65 ∨ 90 < d.toNat ∧ d.toNat < 97) :
    c.toLower = d ↔ c = d := by
  rw [← Char.toNat_inj, ← Char.toNat_inj, toNat_toLower]
  split <;> omega

theorem isBlank_toLower (c : Char) : isBlank c.toLower = isBlank c := by
  unfold isBlank
  rw [toNat_toLower]
  split
  · next h =>
    have hc : c.toNat ≤ 90 := h.2
    have := h.1
    grind
  · rfl

theorem trim_eq_self {cs : List Char} (h : ∀ c ∈ cs, isBlank c = false) : trim cs = cs := by
  have hstart {l : List Char} (hl : ∀ c ∈ l, isBlank c = false) : trimStart l = l := by
    cases l with
    | nil => rfl
    | cons c l => exact List.dropWhile_cons_of_neg (by simp [hl c])
  rw [trim, hstart h, hstart fun c hc => h c (List.mem_reverse.mp hc), List.reverse_reverse]

namespace Layer

/-- Whether a variable counts: its name begins with the marker, in any case. -/
def Counts (name : String) : Prop :=
  ((trim name.toList).take 8).map Char.toLower = "docpipe_".toList

instance (name : String) : Decidable (Counts name) := inferInstanceAs (Decidable (_ = _))

theorem map_toLower_pointed (cs : List Char) :
    (pointed cs).map Char.toLower = pointed (cs.map Char.toLower) := by
  induction cs using pointed.induct with
  | case1 cs ih => simp [pointed, ih]
  | case2 c cs hne ih =>
    have hlower : ∀ rest, c.toLower = '_' → cs.map Char.toLower = '_' :: rest → False := by
      intro rest hc hcs
      obtain ⟨d, ds, rfl, hd, -⟩ := List.map_eq_cons_iff.mp hcs
      exact hne ds ((toLower_eq_iff (by decide)).mp hc)
        (congrArg (· :: ds) ((toLower_eq_iff (by decide)).mp hd))
    rw [pointed.eq_2 c cs hne, List.map_cons, List.map_cons, ih, pointed.eq_2 _ _ hlower]
  | case3 => rfl

theorem map_toLower_splitOn (cs : List Char) :
    (cs.splitOn '.').map (List.map Char.toLower) = (cs.map Char.toLower).splitOn '.' := by
  induction cs with
  | nil => rfl
  | cons c cs ih =>
    have hdot : (c.toLower == '.') = (c == '.') :=
      Bool.eq_iff_iff.mpr (by simpa using toLower_eq_iff (by decide))
    simp only [List.splitOn, List.splitOnP_cons_eq_if_modifyHead, List.map_cons, hdot] at ih ⊢
    split
    · simp [ih]
    · rw [← ih]
      cases List.splitOnP (· == '.') cs <;> rfl

theorem trim_of_names {f : Setting} {name : String} (h : f.Names name) :
    trim name.toList = name.toList := by
  refine trim_eq_self fun c hc => ?_
  rw [← isBlank_toLower]
  have hnone : ("docpipe_processor__".toList ++ f.key.toList).all (!isBlank ·) = true := by
    cases f <;> decide
  rw [← h, List.all_map, List.all_eq_true] at hnone
  simpa using hnone c hc

theorem counts_of_names {f : Setting} {name : String} (h : f.Names name) : Counts name := by
  rw [Counts, trim_of_names h, List.map_take, h]
  cases f <;> decide

/-- The name of a variable is taken apart in the same way in any case. -/
theorem pathOf?_of_names {f : Setting} {name : String} (h : f.Names name) :
    pathOf? name = some ["processor", f.key] := by
  have hcounts : (name.toList.take marker.length).map Char.toLower = marker.map Char.toLower := by
    have := counts_of_names h
    rwa [Counts, trim_of_names h] at this
  have hkeys :
      ((pointed (name.toList.drop marker.length)).splitOn '.').map (List.map Char.toLower) =
        ["processor".toList, f.key.toList] := by
    rw [map_toLower_splitOn, map_toLower_pointed, List.map_drop, h]
    cases f <;> decide
  obtain ⟨first, rest, hsplit, hfirst, hrest⟩ := List.map_eq_cons_iff.mp hkeys
  obtain ⟨second, none, rfl, hsecond, hnil⟩ := List.map_eq_cons_iff.mp hrest
  obtain rfl := List.map_eq_nil_iff.mp hnil
  have hfilled : first ≠ [] ∧ second ≠ [] := by
    constructor
    · rintro rfl
      exact absurd hfirst (by decide)
    · rintro rfl
      exact absurd hsecond (by cases f <;> decide)
  rw [pathOf?, trim_of_names h, if_pos hcounts, hsplit]
  simp only [List.map_cons, hfirst, hsecond]
  simp [hfilled]

/-- A text writes a number in decimal digits. -/
def Writes (value : String) (n : UInt64) : Prop :=
  value ≠ "" ∧ value.toList.all Char.isDigit = true ∧
    Nat.ofDigitChars 10 value.toList 0 = n.toNat

instance (value : String) (n : UInt64) : Decidable (Writes value n) :=
  inferInstanceAs (Decidable (_ ∧ _))

theorem isSeparator_of_isDigit {c : Char} (h : c.isDigit = true) : isSeparator c = false := by
  simp [isSeparator, ne_of_isDigit h]

theorem isSpace_of_isDigit {c : Char} (h : c.isDigit = true) : isSpace c = false := by
  simp [isSpace, ne_of_isDigit h]

/-- Digits are a word that writes a whole number. -/
theorem ofWord_digits {cs : List Char} {n : UInt64} (hne : cs ≠ [])
    (hdigits : cs.all Char.isDigit = true) (hn : Nat.ofDigitChars 10 cs 0 = n.toNat) :
    ofWord cs = .integer n.toNat := by
  have hlt := n.toNat_lt
  have hnumber : boundedNumber? 18446744073709551616 cs = some n.toNat := by
    simp [boundedNumber?, hne, hdigits, hn]
    omega
  obtain ⟨c, rest, rfl⟩ := List.exists_cons_of_ne_nil hne
  have hc : c.isDigit = true := by simp_all
  have hwhole : wholeNumber? (c :: rest) = some (n.toNat : Int) := by
    unfold wholeNumber?
    split
    · next heq => exact absurd (List.cons.inj heq).1 (ne_of_isDigit hc (by decide))
    · next heq => exact absurd (List.cons.inj heq).1 (ne_of_isDigit hc (by decide))
    · rw [hnumber]
      rfl
  rw [ofWord, hwhole]

/-- Digits from end to end are read as their number. -/
theorem ofText_of_writes {value : String} {n : UInt64} (h : Writes value n) :
    ofText value = .integer n.toNat := by
  obtain ⟨hne, hdigits, hn⟩ := h
  have hdigit : ∀ c ∈ value.toList, c.isDigit = true := by simpa using hdigits
  have hword := ofWord_digits (by simpa using hne) hdigits hn
  obtain ⟨c, cs, hcs⟩ : ∃ c cs, value.toList = c :: cs :=
    List.exists_cons_of_ne_nil (by simpa using hne)
  rw [hcs] at hdigit hword
  have hc : c.isDigit = true := hdigit c List.mem_cons_self
  have hskip : skipSpaces (c :: cs) = c :: cs :=
    List.dropWhile_cons_of_neg (by simp [isSpace_of_isDigit hc])
  have hplain : ∀ d ∈ c :: cs, (!isSeparator d) = true := fun d hd => by
    simp [isSeparator_of_isDigit (hdigit d hd)]
  have hspan : (c :: cs).span (fun d => !isSeparator d) = (c :: cs, []) := by
    rw [List.span_eq_takeWhile_dropWhile, List.takeWhile_eq_self_iff.mpr hplain,
      List.dropWhile_eq_nil_iff.mpr hplain]
  have htrim : trim (c :: cs) = c :: cs := trim_eq_self fun d hd => isBlank_of_isDigit (hdigit d hd)
  have hread : readValue? (value.length + 1) (c :: cs) = some (.integer n.toNat, []) := by
    rw [readValue?, hskip]
    split
    iterate 7
      · next heq => exact absurd (List.cons.inj heq).1 (ne_of_isDigit hc (by decide))
    · simp only [hspan, htrim, hword]
      rfl
  rw [ofText, hcs, hread]

theorem ofVariable_of_not_counts {name value : String} (h : ¬ Counts name) :
    ofVariable name value = [] := by
  have hpath : pathOf? name = none := if_neg h
  rw [ofVariable, hpath]

/-- A variable that is named after a field and writes a number is a layer of its own. -/
theorem ofVariable_of_names {f : Setting} {n : UInt64} {name value : String} (hf : f.Names name)
    (hn : Writes value n) :
    ofVariable name value = [("processor", .table [(f.key, .integer n.toNat)])] := by
  rw [ofVariable, pathOf?_of_names hf, ofText_of_writes hn]
  rfl

end Layer

end DocumentPipeline
