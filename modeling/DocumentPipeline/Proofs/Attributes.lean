import DocumentPipeline.Json.Records
import Mathlib.Data.Finset.Card
import Mathlib.Tactic.SplitIfs

/-! # What metadata keeps of its changes

A history of additions and replacements leaves one list of values under each name that it mentions:
the value set last and those added since. The order of the changes to different names leaves no
trace.
-/
namespace DocumentPipeline

namespace Attribute

variable {k n : String} {vs : List String} {es fs : List Attribute}

theorem Sorted.nodup (h : Sorted es) : (es.map Prod.fst).Nodup := by
  rw [List.nodup_iff_pairwise_ne, List.pairwise_map]
  refine h.imp fun {a b} hab heq => ?_
  exact NameBefore.irrefl a.1 (heq ▸ hab)

/-- A name before all others is not among them. -/
theorem not_mem_of_before (h : ∀ e ∈ es, NameBefore k e.1) : k ∉ es.map Prod.fst := by
  intro hk
  obtain ⟨e, he, rfl⟩ := List.mem_map.mp hk
  exact NameBefore.irrefl e.1 (h e he)

theorem find?_eq_none_iff : find? k es = none ↔ k ∉ es.map Prod.fst := by
  induction es with
  | nil => simp [find?]
  | cons e es ih =>
    rw [find?, List.map_cons, List.mem_cons, not_or]
    split_ifs with h
    · simp [h]
    · simp [h, ih]

theorem find?_eq_some_iff (h : Sorted es) : find? k es = some vs ↔ (k, vs) ∈ es := by
  induction es with
  | nil => simp [find?]
  | cons e es ih =>
    obtain ⟨hbefore, hes⟩ := List.pairwise_cons.mp h
    rw [find?, List.mem_cons]
    split_ifs with hk
    · subst hk
      have hnot : (e.1, vs) ∉ es := fun hmem => NameBefore.irrefl e.1 (hbefore (e.1, vs) hmem)
      simp [hnot, Prod.ext_iff, eq_comm]
    · simp [Prod.ext_iff, hk, ih hes]

/-- Attributes in order are determined by what is among them. -/
theorem Sorted.eq_of_mem_iff (h : Sorted es) (h' : Sorted fs) (hmem : ∀ e, e ∈ es ↔ e ∈ fs) :
    es = fs := by
  refine List.Perm.eq_of_pairwise ?_ h h' ?_
  · intro a b _ _ hab hba
    exact absurd (hab.trans hba) (NameBefore.irrefl a.1)
  · exact (List.perm_ext_iff_of_nodup h.nodup.of_map h'.nodup.of_map).mpr hmem

section Alter

variable (f : List String → List String)

theorem find?_alter_of_ne (h : n ≠ k) : find? n (alter k f es) = find? n es := by
  induction es with
  | nil => simp [alter, find?, h]
  | cons e es ih =>
    rw [alter]
    split_ifs with hk
    · subst hk
      simp [find?, h]
    · simp [find?, h]
    · simp [find?, ih]

theorem find?_alter_self (h : Sorted es) :
    find? k (alter k f es) = some (f ((find? k es).getD [])) := by
  induction es with
  | nil => simp [alter, find?]
  | cons e es ih =>
    obtain ⟨hbefore, hes⟩ := List.pairwise_cons.mp h
    rw [alter]
    split_ifs with hk hlt
    · simp [find?, hk]
    · have habsent : find? k es = none :=
        find?_eq_none_iff.mpr (not_mem_of_before fun a ha => hlt.trans (hbefore a ha))
      simp [find?, hk, habsent]
    · simp [find?, hk, ih hes]

end Alter

end Attribute

namespace Metadata

/-- The names of all attributes. -/
def names (m : Metadata) : List String := m.toList.map Prod.fst

section Alter

variable {m m' : Metadata} {k n : String} {f : List String → List String}

theorem mem_names_alter : n ∈ (m.alter k f).names ↔ n = k ∨ n ∈ m.names := by
  have hiff (m : Metadata) : n ∈ m.names ↔ Attribute.find? n m.entries ≠ none :=
    (not_iff_comm.mp Attribute.find?_eq_none_iff.symm).symm
  rw [hiff, hiff, alter]
  by_cases h : n = k
  · subst h
    simp [Attribute.find?_alter_self f m.sorted]
  · simp [h, Attribute.find?_alter_of_ne f h]

theorem getAll_alter :
    (m.alter k f).getAll n = if n = k then f (m.getAll k) else m.getAll n := by
  rw [getAll, alter]
  split_ifs with h
  · subst h
    rw [Attribute.find?_alter_self f m.sorted]
    rfl
  · rw [Attribute.find?_alter_of_ne f h]
    rfl

theorem mem_toList_iff {vs : List String} :
    (k, vs) ∈ m.toList ↔ k ∈ m.names ∧ vs = m.getAll k := by
  rw [toList, ← Attribute.find?_eq_some_iff m.sorted, names, getAll]
  cases hk : Attribute.find? k m.entries with
  | none => simp [Attribute.find?_eq_none_iff.mp hk, toList]
  | some ws =>
    have hmem : k ∈ m.entries.map Prod.fst :=
      List.mem_map.mpr ⟨(k, ws), (Attribute.find?_eq_some_iff m.sorted).mp hk, rfl⟩
    simp [hmem, toList, eq_comm]

/-- Metadata is determined by its names and the values under each. -/
theorem ext_of_getAll (hnames : ∀ k, k ∈ m.names ↔ k ∈ m'.names)
    (hvalues : ∀ k, m.getAll k = m'.getAll k) : m = m' := by
  have hentries : m.entries = m'.entries := by
    refine m.sorted.eq_of_mem_iff m'.sorted fun e => ?_
    change (e.1, e.2) ∈ m.toList ↔ (e.1, e.2) ∈ m'.toList
    rw [mem_toList_iff, mem_toList_iff, hnames, hvalues]
  cases m
  cases m'
  congr 1

end Alter

/-- One change of metadata. -/
inductive Change where
  | add (name value : String)
  | set (name value : String)
  deriving DecidableEq

namespace Change

/-- The name whose values change. -/
def name : Change → String
  | add k _ => k
  | set k _ => k

def apply (m : Metadata) : Change → Metadata
  | add k v => m.add k v
  | set k v => m.set k v

/-- What becomes of the values under the name. -/
def update : Change → List String → List String
  | add _ v, vs => vs ++ [v]
  | set _ v, _ => [v]

theorem apply_eq_alter (m : Metadata) (c : Change) : apply m c = m.alter c.name c.update := by
  cases c <;> rfl

end Change

/-- What changes make of no attributes, one after the other. -/
def ofChanges (cs : List Change) : Metadata := cs.foldl Change.apply empty

/-- The values that changes add under a name, in order. -/
def added (k : String) (cs : List Change) : List String :=
  cs.filterMap fun
    | .add n v => if n = k then some v else none
    | .set _ _ => none

section Histories

variable {m : Metadata} {k : String} {cs ds : List Change}

theorem mem_names_foldl :
    k ∈ (cs.foldl Change.apply m).names ↔ k ∈ m.names ∨ k ∈ cs.map Change.name := by
  induction cs generalizing m with
  | nil => simp
  | cons c cs ih =>
    rw [List.foldl_cons, ih, Change.apply_eq_alter, mem_names_alter, List.map_cons, List.mem_cons]
    tauto

/-- What is under a name depends on the changes of that name alone. -/
theorem getAll_foldl :
    (cs.foldl Change.apply m).getAll k =
      (cs.filter (·.name = k)).foldl (fun vs c => c.update vs) (m.getAll k) := by
  induction cs generalizing m with
  | nil => rfl
  | cons c cs ih =>
    rw [List.foldl_cons, ih, Change.apply_eq_alter, getAll_alter, List.filter_cons]
    by_cases h : c.name = k
    · subst h
      simp
    · simp [h, Ne.symm h]

/-- As long as nothing is set under a name, its values are kept and others come after them. -/
theorem getAll_foldl_of_not_set (h : ∀ v, .set k v ∉ cs) :
    (cs.foldl Change.apply m).getAll k = m.getAll k ++ added k cs := by
  induction cs generalizing m with
  | nil => simp [added]
  | cons c cs ih =>
    have hrest : ∀ v, .set k v ∉ cs := fun v hv => h v (List.mem_cons_of_mem _ hv)
    rw [List.foldl_cons, ih hrest, Change.apply_eq_alter, getAll_alter]
    cases c with
    | add n v =>
      by_cases hn : n = k
      · simp [added, Change.name, Change.update, hn]
      · simp [added, Change.name, hn, Ne.symm hn]
    | set n v =>
      have hn : k ≠ n := by
        rintro rfl
        exact h v List.mem_cons_self
      simp [added, Change.name, hn]

@[simp] theorem getAll_empty : getAll empty k = [] := rfl

theorem mem_names_ofChanges : k ∈ (ofChanges cs).names ↔ k ∈ cs.map Change.name := by
  rw [ofChanges, mem_names_foldl]
  simp [names]

theorem getAll_ofChanges_of_set {v : String} {before after : List Change}
    (h : ∀ w, .set k w ∉ after) :
    (ofChanges (before ++ .set k v :: after)).getAll k = v :: added k after := by
  rw [ofChanges, List.foldl_append, List.foldl_cons, getAll_foldl_of_not_set h,
    Change.apply_eq_alter, getAll_alter]
  simp [Change.name, Change.update]

theorem names_nodup (m : Metadata) : m.names.Nodup := Attribute.Sorted.nodup m.sorted

theorem size_ofChanges : (ofChanges cs).size = (cs.map Change.name).toFinset.card := by
  have hnames : (ofChanges cs).names.toFinset = (cs.map Change.name).toFinset := by
    ext k
    rw [List.mem_toFinset, List.mem_toFinset, mem_names_ofChanges]
  rw [← hnames, List.toFinset_card_of_nodup (names_nodup _), names, List.length_map]
  rfl

theorem isEmpty_ofChanges : (ofChanges cs).isEmpty = true ↔ cs = [] := by
  have hsize : (ofChanges cs).isEmpty = true ↔ (ofChanges cs).size = 0 := by
    rw [isEmpty, List.isEmpty_iff_length_eq_zero]
    rfl
  rw [hsize, size_ofChanges]
  simp

end Histories

/-- Metadata is what a history of changes calls for. -/
structure Recalls (m : Metadata) (cs : List Change) : Prop where
  /-- Under a name are the value set last and those added since. -/
  set {k v : String} {before after : List Change} (hsplit : cs = before ++ .set k v :: after)
    (hlast : ∀ w, .set k w ∉ after) : m.getAll k = v :: added k after
  /-- If nothing was set, all that was added is there. -/
  neverSet {k : String} (h : ∀ v, .set k v ∉ cs) : m.getAll k = added k cs
  first (k : String) : m.get? k = (m.getAll k).head?
  size : m.size = (cs.map Change.name).toFinset.card
  isEmpty : m.isEmpty = true ↔ cs = []
  /-- The names come in the order of their bytes, none twice. -/
  ordered : m.toList.Pairwise fun a b => utf8 a.1 < utf8 b.1
  /-- Each name that was mentioned is listed, with its values. -/
  listed {k : String} {vs : List String} :
    (k, vs) ∈ m.toList ↔ k ∈ cs.map Change.name ∧ vs = m.getAll k

theorem recalls_ofChanges (cs : List Change) : Recalls (ofChanges cs) cs where
  set hsplit hlast := by
    subst hsplit
    exact getAll_ofChanges_of_set hlast
  neverSet h := (getAll_foldl_of_not_set h).trans (List.nil_append _)
  first k := rfl
  size := size_ofChanges
  isEmpty := isEmpty_ofChanges
  ordered := (ofChanges cs).sorted
  listed := mem_toList_iff.trans (and_congr_left' mem_names_ofChanges)

/-- Histories that agree on each name by itself come to the same. -/
theorem ofChanges_eq_of_filter_eq {cs ds : List Change}
    (h : ∀ k, cs.filter (·.name = k) = ds.filter (·.name = k)) : ofChanges cs = ofChanges ds := by
  apply ext_of_getAll
  · intro k
    have hmention (cs : List Change) :
        k ∈ (ofChanges cs).names ↔ cs.filter (·.name = k) ≠ [] := by
      rw [mem_names_ofChanges, List.mem_map, ne_eq, List.filter_eq_nil_iff]
      simp
    rw [hmention, hmention, h]
  · intro k
    rw [ofChanges, ofChanges, getAll_foldl, getAll_foldl, h]

/-- Every history leaves metadata that recalls it, and the order of changes to different names
makes no difference, not even to the text that is written. -/
theorem ofChanges_canonical (cs : List Change) :
    Recalls (ofChanges cs) cs ∧
      ∀ ds : List Change, (∀ k, cs.filter (·.name = k) = ds.filter (·.name = k)) →
        ofChanges cs = ofChanges ds ∧
          (ofChanges cs).toJson.render = (ofChanges ds).toJson.render := by
  refine ⟨recalls_ofChanges cs, fun ds h => ?_⟩
  have heq := ofChanges_eq_of_filter_eq h
  exact ⟨heq, by rw [heq]⟩

/-- Changes to two names in turn. As code units of sixteen bits the names are in the other order. -/
def alternateChanges : List Change :=
  [.add "😀" "a", .set "ﬁ" "b", .add "😀" "c", .set "😀" "d", .add "ﬁ" "e", .add "😀" "f"]

/-- The same changes, name by name. -/
def groupedChanges : List Change :=
  [.set "ﬁ" "b", .add "ﬁ" "e", .add "😀" "a", .add "😀" "c", .set "😀" "d", .add "😀" "f"]

theorem alternateChanges_canonical :
    (∀ k, alternateChanges.filter (·.name = k) = groupedChanges.filter (·.name = k)) ∧
      ofChanges alternateChanges = ofChanges groupedChanges ∧
      (ofChanges alternateChanges).getAll "😀" = ["d", "f"] ∧
      (ofChanges alternateChanges).getAll "?" = [] ∧
      (ofChanges alternateChanges).toList = [("ﬁ", ["b", "e"]), ("😀", ["d", "f"])] := by
  have hfilter :
      ∀ k, alternateChanges.filter (·.name = k) = groupedChanges.filter (·.name = k) := by
    intro k
    by_cases hk : "😀" = k
    · subst hk
      decide
    · simp [alternateChanges, groupedChanges, List.filter_cons, Change.name, hk]
  obtain ⟨hrecalls, hsame⟩ := ofChanges_canonical alternateChanges
  have hlast : ∀ w, .set "😀" w ∉ [Change.add "ﬁ" "e", .add "😀" "f"] := by simp
  have hnever : ∀ w, .set "?" w ∉ alternateChanges := by simp [alternateChanges]
  have hsplit : alternateChanges = alternateChanges.take 3 ++
      .set "😀" "d" :: [Change.add "ﬁ" "e", .add "😀" "f"] := rfl
  exact ⟨hfilter, (hsame groupedChanges hfilter).1, hrecalls.set hsplit hlast,
    hrecalls.neverSet hnever, by decide⟩

end Metadata

end DocumentPipeline
