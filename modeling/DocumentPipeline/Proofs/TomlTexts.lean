import DocumentPipeline.Proofs.Loaders
import DocumentPipeline.Proofs.Tokens

/-! # Documents that are written

A section is written as its header and a line for each number in it. Read again, the header opens
a table and each line gives its number to a key of that table, so that a configuration comes back
from its document.
-/
namespace DocumentPipeline

namespace Toml

/-- A run of characters that have a property ends before the first that has not. -/
theorem span_append_cons {p : Char → Bool} {w : List Char} {d : Char}
    (hw : ∀ c ∈ w, p c = true) (hd : p d = false) (rest : List Char) :
    (w ++ d :: rest).span p = (w, d :: rest) := by
  rw [List.span_eq_takeWhile_dropWhile, List.takeWhile_append_of_pos hw,
    List.dropWhile_append_of_pos hw, List.takeWhile_cons_of_neg (by simp [hd]),
    List.dropWhile_cons_of_neg (by simp [hd]), List.append_nil]

section Keys

/-- A key that needs no quotes. -/
def IsBare (key : String) : Prop := key ≠ "" ∧ key.toList.all isKeyChar = true

instance (key : String) : Decidable (IsBare key) := inferInstanceAs (Decidable (_ ∧ _))

variable {key : String} {c d : Char} {after : List Char}

theorem ne_of_isKeyChar (hc : isKeyChar c = true) (hd : isKeyChar d = false) : c ≠ d := by
  rintro rfl
  rw [hc] at hd
  cases hd

theorem IsBare.isKeyChar_of_mem (h : IsBare key) : ∀ c ∈ key.toList, isKeyChar c = true :=
  List.all_eq_true.mp h.2

theorem IsBare.exists_cons (h : IsBare key) :
    ∃ c cs, key.toList = c :: cs ∧ isKeyChar c = true := by
  have hne : key.toList ≠ [] := by simpa using h.1
  obtain ⟨c, cs, hcs⟩ := List.exists_cons_of_ne_nil hne
  exact ⟨c, cs, hcs, h.isKeyChar_of_mem c (hcs ▸ List.mem_cons_self)⟩

theorem skipBlanks_cons (hspace : c ≠ ' ') (htab : c ≠ '\t') (rest : List Char) :
    skipBlanks (c :: rest) = c :: rest :=
  List.dropWhile_cons_of_neg (by simp [hspace, htab])

/-- A key goes as far as its characters do. -/
theorem IsBare.readKey? (h : IsBare key) (hd : isKeyChar d = false) (rest : List Char) :
    readKey? (key.toList ++ d :: rest) = some (key, d :: rest) := by
  have hspan := span_append_cons h.isKeyChar_of_mem hd rest
  obtain ⟨c, cs, hcs, hc⟩ := h.exists_cons
  have hkey : String.ofList (c :: cs) = key := by rw [← hcs, String.ofList_toList]
  rw [hcs, List.cons_append] at hspan ⊢
  unfold Toml.readKey?
  split
  · next heq => exact absurd (List.cons.inj heq).1 (ne_of_isKeyChar hc (by decide))
  · next heq => exact absurd (List.cons.inj heq).1 (ne_of_isKeyChar hc (by decide))
  · simp only [hspan, hkey]

/-- A single key with blanks behind it is a path to nothing but itself. -/
theorem IsBare.readKeys? {rest : List Char} (h : IsBare key) (hd : isKeyChar d = false)
    (hskip : skipBlanks (d :: rest) = c :: after) (hc : c ≠ '.') :
    readKeys? (key.toList ++ d :: rest) = some (([], key), c :: after) := by
  have hread := h.readKey? hd rest
  obtain ⟨e, es, hes, he⟩ := h.exists_cons
  rw [hes, List.cons_append] at hread ⊢
  change readPath? (78 + 1) _ = _
  rw [readPath?, skipBlanks_cons (ne_of_isKeyChar he (by decide)) (ne_of_isKeyChar he (by decide)),
    hread]
  simp only [Option.bind_eq_bind, Option.bind_some, hskip]
  split
  · next heq => exact absurd (List.cons.inj heq).1 hc
  · rfl

end Keys

section Numbers

variable {n : Nat} {w : List Char}

theorem exists_cons_toDigits (n : Nat) :
    ∃ c cs, Nat.toDigits 10 n = c :: cs ∧ c.isDigit = true := by
  obtain ⟨c, cs, hcs⟩ := List.exists_cons_of_ne_nil (Nat.toDigits_ne_nil (n := n) (b := 10))
  exact ⟨c, cs, hcs, Json.isDigit_toDigits (hcs ▸ List.mem_cons_self)⟩

theorem ungroup?_digits (hne : w ≠ []) (hw : ∀ d ∈ w, d.isDigit = true) :
    ungroup? Char.isDigit w = some w := by
  induction w with
  | nil => exact absurd rfl hne
  | cons d w ih =>
    have hd : d.isDigit = true := hw d List.mem_cons_self
    cases w with
    | nil => simp [ungroup?, hd]
    | cons e w =>
      have hrest := ih (by simp) fun d hd => hw d (List.mem_cons_of_mem _ hd)
      have he : e ≠ '_' := ne_of_isDigit (hw e (by simp)) (by decide)
      rw [ungroup?, if_pos hd, hrest]
      · rfl
      · simp
      · simp [he]

theorem splitSign_digit {d : Char} (hd : d.isDigit = true) :
    splitSign (d :: w) = (false, d :: w) := by
  unfold splitSign
  split
  · next heq => exact absurd (List.cons.inj heq).1 (ne_of_isDigit hd (by decide))
  · next heq => exact absurd (List.cons.inj heq).1 (ne_of_isDigit hd (by decide))
  · rfl

/-- The decimal digits of a number have no base in front and no leading zero. -/
theorem readInteger?_toDigits (hn : n ≤ largest) :
    readInteger? (Nat.toDigits 10 n) = some (n : Int) := by
  rcases Nat.eq_zero_or_pos n with rfl | hpos
  · rfl
  obtain ⟨c, cs, hcs, hc⟩ := Json.head_toDigits hpos
  have hdigits : ∀ d ∈ c :: cs, d.isDigit = true := by
    intro d hd
    exact Json.isDigit_toDigits (hcs ▸ hd)
  have hwhole : wholeDigits? (c :: cs) = some (c :: cs) := by
    simp [wholeDigits?, ungroup?_digits (List.cons_ne_nil c cs) hdigits, hc]
  have hvalue : Nat.ofDigitChars 10 (c :: cs) 0 = n := by
    rw [← hcs, Nat.ofDigitChars_ten_toDigits]
  have hrange : inWordRange (n : Int) = true := by
    simp only [largest] at hn
    simp [inWordRange]
    omega
  rw [hcs]
  unfold readInteger?
  split
  iterate 3
    · next heq => exact absurd (List.cons.inj heq).1 hc
  · simp [splitSign_digit (hdigits c List.mem_cons_self), hwhole, hvalue, hrange]

theorem ofWord?_toDigits (hn : n ≤ largest) :
    ofWord? (Nat.toDigits 10 n) = some (.integer n) := by
  have hword {c : Char} {cs : List Char} (hc : c.isDigit = false) :
      Nat.toDigits 10 n ≠ c :: cs := by
    intro heq
    have hdigit : c.isDigit = true := Json.isDigit_toDigits (heq ▸ List.mem_cons_self)
    rw [hc] at hdigit
    cases hdigit
  rw [ofWord?, if_neg (hword (by decide)), if_neg (hword (by decide)), readInteger?_toDigits hn]

theorem endsWord_of_isDigit {d : Char} (hd : d.isDigit = true) : endsWord d = false := by
  simp [endsWord, ne_of_isDigit hd]

/-- A number at the end of a line is read as it was written. -/
theorem readWords?_toDigits (hn : n ≤ largest) (rest : List Char) :
    readWords? (Nat.toDigits 10 n ++ '\n' :: rest) = some (.integer n, '\n' :: rest) := by
  have hplain : ∀ d ∈ Nat.toDigits 10 n, (!endsWord d) = true := by
    intro d hd
    simp [endsWord_of_isDigit (Json.isDigit_toDigits hd)]
  have hsplit : splitWord (Nat.toDigits 10 n ++ '\n' :: rest) =
      (Nat.toDigits 10 n, '\n' :: rest) := span_append_cons hplain (by decide) rest
  rw [readWords?, hsplit]
  simp [ofWord?_toDigits hn]

theorem readValue?_toDigits (depth : Nat) (hn : n ≤ largest) (rest : List Char) :
    readValue? depth (Nat.toDigits 10 n ++ '\n' :: rest) =
      some (.scalar (.integer n), '\n' :: rest) := by
  have hwords := readWords?_toDigits hn rest
  obtain ⟨c, cs, hcs, hc⟩ := exists_cons_toDigits n
  rw [hcs, List.cons_append] at hwords ⊢
  have hflat : readValue?.readFlat? (c :: (cs ++ '\n' :: rest)) =
      some (.scalar (.integer n), '\n' :: rest) := by
    unfold readValue?.readFlat?
    split
    · next heq => exact absurd (List.cons.inj heq).1 (ne_of_isDigit hc (by decide))
    · next heq => exact absurd (List.cons.inj heq).1 (ne_of_isDigit hc (by decide))
    · rw [hwords]
      rfl
  cases depth with
  | zero => exact hflat
  | succ depth =>
    unfold readValue?
    split
    · next heq => exact absurd (List.cons.inj heq).1 (ne_of_isDigit hc (by decide))
    · next heq => exact absurd (List.cons.inj heq).1 (ne_of_isDigit hc (by decide))
    · exact hflat

end Numbers

section Statements

variable {key : String} {n : UInt64} {cs rest : List Char} {s : Statement} {ss : List Statement}

theorem toList_line (key : String) (n : UInt64) :
    (line key n).toList = key.toList ++ [' ', '=', ' '] ++ Nat.toDigits 10 n.toNat ++ ['\n'] := by
  simp [line, Nat.repr_eq_ofList_toDigits]

theorem IsBare.exists_cons_line (h : IsBare key) (n : UInt64) :
    ∃ c cs, (line key n).toList = c :: cs ∧ isKeyChar c = true := by
  obtain ⟨c, cs, hcs, hc⟩ := h.exists_cons
  rw [toList_line, hcs]
  exact ⟨c, _, rfl, hc⟩

@[simp] theorem finishLine?_newline : finishLine? ('\n' :: rest) = some rest := rfl

/-- A line gives its number to its key. -/
theorem readStatement?_line (hkey : IsBare key) (hn : n.toNat ≤ largest) (rest : List Char) :
    readStatement? ((line key n).toList ++ rest) =
      some (.give [] key (.scalar (.integer n.toNat)), rest) := by
  have hpair : readPair? (readValue? (depthLimit - 1)) ((line key n).toList ++ rest) =
      some (([], key, .scalar (.integer n.toNat)), '\n' :: rest) := by
    have hkeys : readKeys?
        (key.toList ++ ' ' :: '=' :: ' ' :: (Nat.toDigits 10 n.toNat ++ '\n' :: rest)) =
          some (([], key), '=' :: ' ' :: (Nat.toDigits 10 n.toNat ++ '\n' :: rest)) :=
      hkey.readKeys? (by decide) rfl (by decide)
    have hvalue := readValue?_toDigits (depthLimit - 1) hn rest
    have hskip : skipBlanks (' ' :: (Nat.toDigits 10 n.toNat ++ '\n' :: rest)) =
        Nat.toDigits 10 n.toNat ++ '\n' :: rest := by
      obtain ⟨c, cs, hcs, hc⟩ := exists_cons_toDigits n.toNat
      rw [hcs, List.cons_append]
      exact skipBlanks_cons (ne_of_isDigit hc (by decide)) (ne_of_isDigit hc (by decide)) _
    simp [readPair?, toList_line, hkeys, hskip, hvalue]
  obtain ⟨c, cs, hcs, hc⟩ := hkey.exists_cons_line n
  rw [hcs, List.cons_append] at hpair ⊢
  unfold readStatement?
  split
  · next heq => exact absurd (List.cons.inj heq).1 (ne_of_isKeyChar hc (by decide))
  · next heq => exact absurd (List.cons.inj heq).1 (ne_of_isKeyChar hc (by decide))
  · simp only [hpair, Option.bind_eq_bind, Option.bind_some, finishLine?_newline, Option.map_some]

/-- The line of a header. -/
def header (key : String) : List Char := '[' :: key.toList ++ [']', '\n']

theorem readStatement?_header (hkey : IsBare key) (rest : List Char) :
    readStatement? (header key ++ rest) = some (.openTable [] key, rest) := by
  have hkeys : readKeys? (key.toList ++ ']' :: '\n' :: rest) =
      some (([], key), ']' :: '\n' :: rest) := hkey.readKeys? (by decide) rfl (by decide)
  obtain ⟨c, cs, hcs, hc⟩ := hkey.exists_cons
  have hheader : header key ++ rest = '[' :: c :: (cs ++ ']' :: '\n' :: rest) := by
    simp [header, hcs]
  rw [hcs, List.cons_append] at hkeys
  rw [hheader]
  unfold readStatement?
  split
  · next heq =>
    exact absurd (List.cons.inj (List.cons.inj heq).2).1 (ne_of_isKeyChar hc (by decide))
  · next heq =>
    obtain rfl := (List.cons.inj heq).2
    simp [hkeys]
  · next h => exact absurd rfl (h _)

/-- The characters are these statements, each right after the one before. -/
structure Holds (cs : List Char) (ss : List Statement) : Prop where
  /-- Each statement took a character at least. -/
  length_le : ss.length ≤ cs.length
  read (most : Nat) (h : ss.length < most) : readStatements? most cs = some ss

namespace Holds

theorem nil : Holds [] [] where
  length_le := Nat.le_refl 0
  read most h := by
    obtain ⟨most, rfl⟩ := Nat.exists_eq_succ_of_ne_zero (Nat.ne_of_gt h)
    rfl

theorem cons {c : Char} (hc : isKeyChar c = true ∨ c = '[')
    (hread : readStatement? (c :: cs) = some (s, rest)) (hrest : rest.length ≤ cs.length)
    (h : Holds rest ss) : Holds (c :: cs) (s :: ss) where
  length_le := Nat.succ_le_succ (h.length_le.trans hrest)
  read most hmost := by
    obtain ⟨most, rfl⟩ := Nat.exists_eq_add_one_of_ne_zero (Nat.ne_zero_of_lt hmost)
    have hne {d : Char} (hkey : isKeyChar d = false) (hd : d ≠ '[') : c ≠ d := by
      rcases hc with hc | rfl
      · exact ne_of_isKeyChar hc hkey
      · exact hd.symm
    have hplain : ¬ (c = '#' ∨ c = '\n' ∨ c = '\r') := by
      rintro (hc | hc | hc) <;> exact absurd hc (hne (by decide) (by decide))
    rw [readStatements?,
      skipBlanks_cons (hne (by decide) (by decide)) (hne (by decide) (by decide))]
    simp [hplain, hread, h.read most (Nat.lt_of_succ_lt_succ hmost)]

theorem header (hkey : IsBare key) (h : Holds rest ss) :
    Holds (header key ++ rest) (.openTable [] key :: ss) :=
  .cons (.inr rfl) (readStatement?_header hkey rest) (by simp; omega) h

theorem line (hkey : IsBare key) (hn : n.toNat ≤ largest) (h : Holds rest ss) :
    Holds ((line key n).toList ++ rest) (.give [] key (.scalar (.integer n.toNat)) :: ss) := by
  have hread := readStatement?_line hkey hn rest
  obtain ⟨c, cs, hcs, hc⟩ := hkey.exists_cons_line n
  rw [hcs, List.cons_append] at hread ⊢
  exact .cons (.inl hc) hread (by simp) h

theorem statements?_eq (h : Holds cs ss) : statements? cs = some ss :=
  h.read _ (Nat.lt_succ_of_le h.length_le)

end Holds

end Statements

section Tables

variable {name key : String} {es : Entries} {entries : List (String × UInt64)}

/-- The lines of numbers under their keys. -/
def lines (entries : List (String × UInt64)) : List Char :=
  entries.flatMap fun e => (line e.1 e.2).toList

/-- What the lines say. -/
def assignments (entries : List (String × UInt64)) : List Statement :=
  entries.map fun e => .give [] e.1 (.scalar (.integer e.2.toNat))

/-- The table of the numbers. -/
def numbers (entries : List (String × UInt64)) : Entries :=
  entries.map fun e => (e.1, .scalar (.integer e.2.toNat))

theorem holds_lines (h : ∀ e ∈ entries, IsBare e.1 ∧ e.2.toNat ≤ largest) :
    Holds (lines entries) (assignments entries) := by
  induction entries with
  | nil => exact .nil
  | cons e entries ih =>
    obtain ⟨hkey, hn⟩ := h e List.mem_cons_self
    exact .line hkey hn (ih fun a ha => h a (List.mem_cons_of_mem _ ha))

theorem put_of_lookup_eq_none (v : Value) (h : es.lookup key = none) :
    es.put key v = es ++ [(key, v)] := by
  induction es with
  | nil => rfl
  | cons e es ih =>
    obtain ⟨k, w⟩ := e
    have hne : key ≠ k := by
      rintro rfl
      simp at h
    rw [List.lookup_cons, beq_false_of_ne hne] at h
    rw [Entries.put, if_neg hne.symm, ih h, List.cons_append]

/-- A new key comes last in the table of the latest header. -/
theorem take_give (name : String) (v : Value) (h : es.lookup key = none) :
    Draft.take ⟨[(name, .table .opened es)], [name]⟩ (.give [] key v) =
      some ⟨[(name, .table .opened (es ++ [(key, v)]))], [name]⟩ := by
  simp [Draft.take, Entries.alterAt, Entries.give, h, put_of_lookup_eq_none v h, Entries.put]

theorem foldlM_assignments (name : String) (hnew : ∀ e ∈ entries, es.lookup e.1 = none)
    (hkeys : (entries.map Prod.fst).Nodup) :
    (assignments entries).foldlM Draft.take ⟨[(name, .table .opened es)], [name]⟩ =
      some ⟨[(name, .table .opened (es ++ numbers entries))], [name]⟩ := by
  induction entries generalizing es with
  | nil => simp [assignments, numbers]
  | cons e entries ih =>
    obtain ⟨he, hrest⟩ := List.nodup_cons.mp hkeys
    have hfirst := take_give name (.scalar (.integer e.2.toNat)) (hnew e List.mem_cons_self)
    have hlater : ∀ a ∈ entries,
        (es ++ [(e.1, Value.scalar (.integer e.2.toNat))]).lookup a.1 = none := by
      intro a ha
      have hne : a.1 ≠ e.1 := by
        intro heq
        exact he (List.mem_map.mpr ⟨a, ha, heq⟩)
      rw [List.lookup_append, hnew a (List.mem_cons_of_mem _ ha), List.lookup_cons,
        beq_false_of_ne hne]
      rfl
    have hmore := ih hlater hrest
    rw [assignments, List.map_cons, List.foldlM_cons, hfirst]
    change (assignments entries).foldlM Draft.take _ = _
    rw [hmore, List.append_assoc]
    rfl

/-- The text of a section is a document with one table. -/
theorem read?_section (hname : IsBare name)
    (h : ∀ e ∈ entries, IsBare e.1 ∧ e.2.toNat ≤ largest)
    (hkeys : (entries.map Prod.fst).Nodup) :
    read? (String.ofList (header name ++ lines entries)) =
      some [(name, .table .opened (numbers entries))] := by
  have hstatements := ((holds_lines h).header hname).statements?_eq
  have hnew : ∀ e ∈ entries, List.lookup e.1 ([] : Entries) = none := fun _ _ => rfl
  have htables := foldlM_assignments name hnew hkeys
  rw [read?, String.toList_ofList]
  change (statements? (header name ++ lines entries)).bind ofStatements? = _
  rw [hstatements, Option.bind_some, ofStatements?, List.foldlM_cons]
  change ((assignments entries).foldlM Draft.take ⟨[(name, .table .opened [])], [name]⟩).map _ = _
  rw [htables]
  rfl

end Tables

end Toml

namespace Settings

/-- The numbers of the settings under the names of their fields, in order. -/
def entries (s : Settings) : List (String × UInt64) :=
  [Setting.queueSize, .numClients, .numEmitters, .maxOfferWaitMs].map fun f => (f.key, f.of s)

theorem isWritable_iff {s : Settings} :
    s.isWritable = true ↔ ∀ f : Setting, (f.of s).toNat ≤ Toml.largest := by
  simp only [isWritable, Bool.and_eq_true, decide_eq_true_eq]
  constructor
  · rintro ⟨⟨⟨hq, hc⟩, he⟩, hw⟩ f
    cases f
    · exact hq
    · exact hc
    · exact he
    · exact hw
  · intro h
    exact ⟨⟨⟨h .queueSize, h .numClients⟩, h .numEmitters⟩, h .maxOfferWaitMs⟩

end Settings

namespace Config

variable {c : Config}

/-- A configuration that can be written is written as one section. -/
theorem toToml?_eq_some (h : ∀ f : Setting, (f.of c.processor).toNat ≤ Toml.largest) :
    c.toToml? =
      some (String.ofList (Toml.header "processor" ++ Toml.lines c.processor.entries)) := by
  rw [toToml?, if_pos (Settings.isWritable_iff.mpr h), Option.some_inj, ← String.toList_inj]
  simp [Toml.header, Toml.lines, Settings.entries, Setting.key, Setting.of]

theorem isBare_key (f : Setting) : Toml.IsBare f.key := by
  cases f <;> decide

theorem isBare_processor : Toml.IsBare "processor" := by
  decide

theorem read?_entries (h : ∀ f : Setting, (f.of c.processor).toNat ≤ Toml.largest) :
    Toml.read? (String.ofList (Toml.header "processor" ++ Toml.lines c.processor.entries)) =
      some [("processor", .table .opened (Toml.numbers c.processor.entries))] := by
  refine Toml.read?_section isBare_processor ?_ (by simp [Settings.entries, Setting.key])
  intro e he
  obtain ⟨f, -, rfl⟩ := List.mem_map.mp he
  exact ⟨isBare_key f, h f⟩

theorem configures_entries (c : Config) :
    Toml.Configures [("processor", .table .opened (Toml.numbers c.processor.entries))] c := by
  refine .inr ⟨_, rfl, .table fun f => .inr ?_⟩
  cases f <;> rfl

/-- A configuration whose numbers a document can hold is written, and read back from its text, by
itself or from a file. Any other is not written at all. -/
theorem toToml_reads_back (c : Config) :
    ((∀ f : Setting, (f.of c.processor).toNat ≤ 2 ^ 63 - 1) →
      ∃ text, c.toToml? = some text ∧ Config.ofToml text = .ok c ∧
        ∀ path environment, (∀ v ∈ environment, ¬ Layer.Counts v.1) →
          Config.load path (.file text.toUTF8) environment = .ok c) ∧
    ((∃ f : Setting, 2 ^ 63 - 1 < (f.of c.processor).toNat) → c.toToml? = none) := by
  constructor
  · intro h
    have hread : Config.ofToml _ = .ok c :=
      ofToml_eq_ok_iff.mpr ⟨_, read?_entries h, configures_entries c⟩
    refine ⟨_, toToml?_eq_some h, hread, ?_⟩
    intro path environment hcounts
    rw [load_text path _ hcounts, hread]
  · rintro ⟨f, hf⟩
    have hnot : ¬ c.processor.isWritable = true := by
      intro hw
      exact absurd (Settings.isWritable_iff.mp hw f) (Nat.not_le.mpr hf)
    rw [toToml?, if_neg hnot]

/-- The largest and the smallest numbers that a document holds. -/
def extremes : Config := ⟨⟨9223372036854775807, 0, 10, 120000⟩⟩

/-- One of the numbers is the first that no document holds. -/
def excess : Config := ⟨⟨10000, 4, 9223372036854775808, 120000⟩⟩

theorem extremes_read_back :
    (∃ text, extremes.toToml? = some text ∧ Config.ofToml text = .ok extremes ∧
      Config.load "settings.toml" (.file text.toUTF8) [("PATH", "/bin")] = .ok extremes) ∧
    (∀ f : Setting, (f.of extremes.processor).toNat ≤ 2 ^ 63 - 1) ∧
    excess.toToml? = none ∧ 2 ^ 63 - 1 < (Setting.of excess.processor .numEmitters).toNat := by
  have hsmall : ∀ f : Setting, (f.of extremes.processor).toNat ≤ 2 ^ 63 - 1 := by
    intro f
    cases f <;> decide
  have hlarge : 2 ^ 63 - 1 < (Setting.of excess.processor .numEmitters).toNat := by decide
  have hpath : ∀ v ∈ [("PATH", "/bin")], ¬ Layer.Counts v.1 := by
    intro v hv
    obtain rfl := List.mem_singleton.mp hv
    decide
  obtain ⟨text, htext, hread, hload⟩ := (toToml_reads_back extremes).1 hsmall
  exact ⟨⟨text, htext, hread, hload _ _ hpath⟩, hsmall,
    (toToml_reads_back excess).2 ⟨.numEmitters, hlarge⟩, hlarge⟩

end Config

end DocumentPipeline
