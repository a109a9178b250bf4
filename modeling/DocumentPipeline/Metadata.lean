/-! # Document metadata

An ordered multimap from attribute names to lists of values. The entries are
kept in strictly increasing byte order of their names, so two maps with the same
contents are the same list and have one written form.
-/
namespace DocumentPipeline

/-- The UTF-8 bytes of a text: what its size counts and what orders the names. -/
def utf8 (s : String) : List UInt8 := s.toUTF8.data.toList

/-- Size of a text in UTF-8 bytes. -/
def byteLength (s : String) : Nat := (utf8 s).length

theorem utf8_inj {s t : String} : utf8 s = utf8 t ↔ s = t := by
  constructor
  · intro h
    apply String.toByteArray_inj.1
    cases hs : s.toByteArray with | mk a =>
    cases ht : t.toByteArray with | mk b =>
    have : a.toList = b.toList := by simpa [utf8, String.toUTF8, hs, ht] using h
    rw [Array.toList_inj.1 this]
  · intro h; rw [h]

/-- Names are compared byte by byte. -/
def NameBefore (a b : String) : Prop := utf8 a < utf8 b

instance (a b : String) : Decidable (NameBefore a b) :=
  inferInstanceAs (Decidable (utf8 a < utf8 b))

theorem NameBefore.irrefl (a : String) : ¬ NameBefore a a := List.lt_irrefl _

theorem NameBefore.trans {a b c : String} (h : NameBefore a b) (h' : NameBefore b c) :
    NameBefore a c := List.lt_trans h h'

theorem nameBefore_of_ne {a b : String} (hne : a ≠ b) (h : ¬ NameBefore a b) :
    NameBefore b a := by
  false_or_by_contra
  rename_i h'
  exact hne (utf8_inj.1 (List.le_antisymm (List.not_lt.1 h') (List.not_lt.1 h)))

/-- One attribute with the values given to it, oldest first. -/
abbrev Attribute := String × List String

namespace Attribute

/-- Entries in strictly increasing order of their names. -/
def Sorted (es : List Attribute) : Prop := es.Pairwise fun a b => NameBefore a.1 b.1

/-- Changes the values of `k` by `f`, an absent name counting as having none. -/
def alter (k : String) (f : List String → List String) : List Attribute → List Attribute
  | [] => [(k, f [])]
  | (n, vs) :: es =>
    if k = n then (n, f vs) :: es
    else if NameBefore k n then (k, f []) :: (n, vs) :: es
    else (n, vs) :: alter k f es

/-- The values of `k`, if the name is present. -/
def find? (k : String) : List Attribute → Option (List String)
  | [] => none
  | (n, vs) :: es => if k = n then some vs else find? k es

theorem mem_alter {k : String} {f : List String → List String} {e : Attribute} :
    ∀ {es : List Attribute}, e ∈ alter k f es → e.1 = k ∨ e ∈ es
  | [], h => by simp [alter] at h; simp [h]
  | (n, vs) :: es, h => by
    simp only [alter] at h
    split at h
    · rename_i hk; rcases List.mem_cons.1 h with h | h <;> simp [h, hk]
    · split at h
      · rcases List.mem_cons.1 h with h | h
        · simp [h]
        · exact .inr h
      · rcases List.mem_cons.1 h with h | h
        · simp [h]
        · rcases mem_alter h with h | h <;> simp [h]

theorem Sorted.alter {es : List Attribute} (h : Sorted es) (k : String)
    (f : List String → List String) : Sorted (alter k f es) := by
  induction es with
  | nil => simp [Attribute.alter, Sorted]
  | cons e es ih =>
    obtain ⟨n, vs⟩ := e
    obtain ⟨hn, hes⟩ := List.pairwise_cons.1 h
    simp only [Attribute.alter]
    split
    · exact List.pairwise_cons.2 ⟨hn, hes⟩
    · rename_i hne
      split
      · rename_i hlt
        refine List.pairwise_cons.2 ⟨fun e he => ?_, h⟩
        rcases List.mem_cons.1 he with he | he
        · subst he; exact hlt
        · exact hlt.trans (hn e he)
      · rename_i hlt
        refine List.pairwise_cons.2 ⟨fun e he => ?_, ih hes⟩
        rcases mem_alter he with he | he
        · simpa [he] using nameBefore_of_ne hne hlt
        · exact hn e he

/-- Bytes of a name and of the values given to it. -/
def byteSize (e : Attribute) : Nat := byteLength e.1 + e.2.foldr (fun v n => byteLength v + n) 0

end Attribute

/-- Multi-valued attributes in the order of their names. -/
structure Metadata where
  entries : List Attribute
  sorted : Attribute.Sorted entries
  deriving DecidableEq

namespace Metadata

/-- No attributes. -/
def empty : Metadata := ⟨[], .nil⟩

instance : EmptyCollection Metadata := ⟨empty⟩

instance : Inhabited Metadata := ⟨empty⟩

/-- Changes the values of one name. -/
def alter (m : Metadata) (k : String) (f : List String → List String) : Metadata :=
  ⟨Attribute.alter k f m.entries, m.sorted.alter k f⟩

/-- Appends a value, keeping the earlier ones. -/
def add (m : Metadata) (k v : String) : Metadata := m.alter k (· ++ [v])

/-- Replaces all values of a name by one. -/
def set (m : Metadata) (k v : String) : Metadata := m.alter k fun _ => [v]

/-- Replaces all values of a name by a list, which may be empty. -/
def put (m : Metadata) (k : String) (vs : List String) : Metadata := m.alter k fun _ => vs

/-- All values of a name, oldest first; none for an absent name. -/
def getAll (m : Metadata) (k : String) : List String := (Attribute.find? k m.entries).getD []

/-- The oldest value of a name. -/
def get? (m : Metadata) (k : String) : Option String := (m.getAll k).head?

/-- Number of distinct names. -/
def size (m : Metadata) : Nat := m.entries.length

/-- Whether no name was ever mentioned. -/
def isEmpty (m : Metadata) : Bool := m.entries.isEmpty

/-- The attributes in the order of their names. -/
def toList (m : Metadata) : List Attribute := m.entries

/-- Collects attributes given in any order; a repeated name keeps its last list. -/
def ofList (es : List Attribute) : Metadata := es.foldl (fun m e => m.put e.1 e.2) empty

/-- Bytes of the names and of all values. -/
def byteSize (m : Metadata) : Nat := m.entries.foldr (fun e n => Attribute.byteSize e + n) 0

@[simp] theorem toList_empty : empty.toList = [] := rfl

end Metadata

end DocumentPipeline
