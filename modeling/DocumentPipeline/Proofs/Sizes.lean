import DocumentPipeline.Proofs.Attributes
import DocumentPipeline.WorkItem
import Mathlib.Algebra.BigOperators.Group.List.Basic
import Mathlib.Algebra.GroupWithZero.Nat

/-! # How sizes follow changes

The size of a payload is a sum over its documents, their attributes and the values of each. A
change at one name of one document moves it by the values that come and go, and by the name
itself if that is new.
-/
namespace DocumentPipeline

/-- Bytes of a list of values. -/
def valueBytes (vs : List String) : Nat := (vs.map byteLength).sum

@[simp] theorem valueBytes_append (vs ws : List String) :
    valueBytes (vs ++ ws) = valueBytes vs + valueBytes ws := by
  simp [valueBytes]

@[simp] theorem valueBytes_singleton (v : String) : valueBytes [v] = byteLength v := by
  simp [valueBytes]

theorem foldr_add_eq_sum {α : Type} (size : α → Nat) (as : List α) :
    as.foldr (fun a n => size a + n) 0 = (as.map size).sum := by
  induction as with
  | nil => rfl
  | cons a as ih => rw [List.foldr_cons, ih, List.map_cons, List.sum_cons]

namespace Attribute

variable {k : String} {es : List Attribute}

theorem byteSize_eq (e : Attribute) : byteSize e = byteLength e.1 + valueBytes e.2 := by
  rw [byteSize, foldr_add_eq_sum, valueBytes]

/-- The values under a name are replaced in the sum, and a name counts when it is new. -/
theorem sum_alter (f : List String → List String) (h : Sorted es) :
    ((alter k f es).map byteSize).sum + valueBytes ((find? k es).getD []) =
      (es.map byteSize).sum + valueBytes (f ((find? k es).getD [])) +
        if k ∈ es.map Prod.fst then 0 else byteLength k := by
  induction es with
  | nil =>
    simp [alter, find?, byteSize_eq, valueBytes]
    omega
  | cons e es ih =>
    obtain ⟨n, vs⟩ := e
    obtain ⟨hbefore, hes⟩ := List.pairwise_cons.mp h
    by_cases hk : k = n
    · simp [alter, find?, byteSize_eq, hk]
      omega
    · by_cases hlt : NameBefore k n
      · have hrest : k ∉ es.map Prod.fst := not_mem_of_before fun a ha => hlt.trans (hbefore a ha)
        have hnone : find? k es = none := find?_eq_none_iff.mpr hrest
        have hnew : k ∉ ((n, vs) :: es).map Prod.fst := by
          rw [List.map_cons, List.mem_cons, not_or]
          exact ⟨hk, hrest⟩
        rw [if_neg hnew]
        simp [alter, find?, hk, hlt, hnone, byteSize_eq, valueBytes]
        omega
      · have hmem : k ∈ ((n, vs) :: es).map Prod.fst ↔ k ∈ es.map Prod.fst := by simp [hk]
        have hrest := ih hes
        simp only [hmem, alter, find?, hk, hlt, if_false]
        rw [List.map_cons, List.map_cons, List.sum_cons, List.sum_cons]
        omega

end Attribute

namespace Metadata

variable {m : Metadata} {k : String} {f : List String → List String}

theorem byteSize_eq (m : Metadata) :
    m.byteSize = (m.toList.map fun e => byteLength e.1 + valueBytes e.2).sum := by
  rw [byteSize, foldr_add_eq_sum, toList]
  congr 2
  funext e
  exact Attribute.byteSize_eq e

theorem byteSize_alter : (m.alter k f).byteSize + valueBytes (m.getAll k) =
    m.byteSize + valueBytes (f (m.getAll k)) + if k ∈ m.names then 0 else byteLength k := by
  rw [byteSize, byteSize, foldr_add_eq_sum, foldr_add_eq_sum]
  exact Attribute.sum_alter f m.sorted

theorem byteSize_add (m : Metadata) (k v : String) : (m.add k v).byteSize =
    m.byteSize + byteLength v + if k ∈ m.names then 0 else byteLength k := by
  have halter := byteSize_alter (m := m) (k := k) (f := (· ++ [v]))
  rw [valueBytes_append, valueBytes_singleton] at halter
  rw [add]
  omega

theorem byteSize_set (m : Metadata) (k v : String) :
    (m.set k v).byteSize + valueBytes (m.getAll k) =
      m.byteSize + byteLength v + if k ∈ m.names then 0 else byteLength k := by
  rw [set, byteSize_alter, valueBytes_singleton]

end Metadata

namespace Payload

theorem byteSize_eq (p : Payload) : p.byteSize = (p.documents.map Metadata.byteSize).sum :=
  foldr_add_eq_sum _ _

theorem byteSize_append (key : EmitKey) (xs ys : List Metadata) :
    (mk key (xs ++ ys)).byteSize = (mk key xs).byteSize + (mk key ys).byteSize := by
  simp [byteSize_eq]

theorem byteSize_cons (key : EmitKey) (m : Metadata) (ms : List Metadata) :
    (mk key (m :: ms)).byteSize = m.byteSize + (mk key ms).byteSize := by
  simp [byteSize_eq]

theorem byteSize_perm (key : EmitKey) {xs ys : List Metadata} (h : xs.Perm ys) :
    (mk key xs).byteSize = (mk key ys).byteSize := by
  rw [byteSize_eq, byteSize_eq]
  exact (h.map Metadata.byteSize).sum_eq

/-- The size of a payload adds up over its documents in any order, and follows each change to one
of them: a value that is added counts, the values that it replaces no longer do, and its name
counts if it is new. -/
theorem byteSize_follows_changes :
    (∀ p : Payload, p.byteSize =
      (p.documents.map fun m =>
        (m.toList.map fun e => byteLength e.1 + (e.2.map byteLength).sum).sum).sum) ∧
    (∀ key xs ys, (mk key (xs ++ ys)).byteSize = (mk key xs).byteSize + (mk key ys).byteSize) ∧
    (∀ key xs ys, xs.Perm ys → (mk key xs).byteSize = (mk key ys).byteSize) ∧
    (∀ key before after (m : Metadata) k v,
      (mk key (before ++ m.add k v :: after)).byteSize =
        (mk key (before ++ m :: after)).byteSize + byteLength v +
          if k ∈ m.names then 0 else byteLength k) ∧
    ∀ key before after (m : Metadata) k v,
      (mk key (before ++ m.set k v :: after)).byteSize + ((m.getAll k).map byteLength).sum =
        (mk key (before ++ m :: after)).byteSize + byteLength v +
          if k ∈ m.names then 0 else byteLength k := by
  refine ⟨fun p => ?_, byteSize_append, fun key xs ys h => byteSize_perm key h, ?_, ?_⟩
  · rw [byteSize_eq]
    congr 2
    funext m
    exact m.byteSize_eq
  · intro key before after m k v
    have hadd := m.byteSize_add k v
    simp only [byteSize_append, byteSize_cons]
    omega
  · intro key before after m k v
    have hset := m.byteSize_set k v
    rw [valueBytes] at hset
    simp only [byteSize_append, byteSize_cons]
    omega

/-- Two values under one name, none of them of one byte for each character. -/
def wideDocument : Metadata := (Metadata.empty.add "😀" "né").add "😀" "ﬁ"

theorem wideDocument_follows_changes :
    [wideDocument, ∅].Perm [∅, wideDocument] ∧
      (mk ⟨"fse", "a"⟩ [wideDocument, ∅]).byteSize = 10 ∧
      (mk ⟨"fse", "a"⟩ [∅, wideDocument]).byteSize = 10 ∧
      (mk ⟨"fse", "a"⟩ [∅, wideDocument.add "ﬁ" "x"]).byteSize = 14 ∧
      (mk ⟨"fse", "a"⟩ [∅, wideDocument.set "😀" "x"]).byteSize = 5 := by
  obtain ⟨hsum, -, hperm, hadd, hset⟩ := byteSize_follows_changes
  have hswap : [wideDocument, ∅].Perm [∅, wideDocument] := .swap _ _ _
  have hsize : (mk ⟨"fse", "a"⟩ [∅, wideDocument]).byteSize = 10 := by
    rw [hsum]
    decide
  refine ⟨hswap, (hperm _ _ _ hswap).trans hsize, hsize, ?_, ?_⟩
  · refine (hadd _ [∅] [] wideDocument "ﬁ" "x").trans ?_
    rw [List.singleton_append, hsize]
    decide
  · have hreplace := hset ⟨"fse", "a"⟩ [∅] [] wideDocument "😀" "x"
    rw [List.singleton_append, List.singleton_append, hsize] at hreplace
    have hold : ((wideDocument.getAll "😀").map byteLength).sum = 6 := by decide
    have hknown : "😀" ∈ wideDocument.names := by decide
    have hvalue : byteLength "x" = 1 := by decide
    rw [if_pos hknown, hold, hvalue] at hreplace
    omega

end Payload

end DocumentPipeline
