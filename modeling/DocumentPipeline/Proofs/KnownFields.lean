import DocumentPipeline.Proofs.Tokens
import Mathlib.Data.List.Nodup

/-! # What a record is read from

An object is read as a record from the members that its fields know, each given once and in any
order; every other member is passed over.
-/
namespace DocumentPipeline

namespace Json

theorem Result.bind_eq_ok_iff {α β : Type} {x : Result α} {f : α → Result β} {b : β} :
    (x >>= f) = .ok b ↔ ∃ a, x = .ok a ∧ f a = .ok b := by
  cases x with
  | error e => exact ⟨nofun, nofun⟩
  | ok a => simp

theorem close_eq_ok_iff {fault : Option Fault} {u : Unit} : close fault = .ok u ↔ fault = none := by
  cases fault <;> simp [close]

section Lookups

variable {s s' : Slots} {k : String} {v : Node}

theorem lookup_cons_eq (k : String) (v : Node) (s : Slots) (name : String) :
    List.lookup name ((k, v) :: s) = if name = k then some v else s.lookup name := by
  rw [List.lookup_cons]
  by_cases h : name = k
  · simp [h]
  · simp [h, beq_eq_false_iff_ne.mpr h]

/-- Under distinct names a lookup finds what was put in, in whatever place. -/
theorem lookup_eq_some_iff (h : (s.map Prod.fst).Nodup) : s.lookup k = some v ↔ (k, v) ∈ s := by
  induction s with
  | nil => simp
  | cons e s ih =>
    obtain ⟨name, u⟩ := e
    obtain ⟨hname, hs⟩ := List.nodup_cons.mp h
    rw [lookup_cons_eq, List.mem_cons]
    by_cases hk : k = name
    · subst hk
      have hnot : (k, v) ∉ s := fun hmem => hname (List.mem_map.mpr ⟨(k, v), hmem, rfl⟩)
      simp [hnot, eq_comm]
    · simp [hk, ih hs]

theorem lookup_perm (h : s.Perm s') (hs : (s.map Prod.fst).Nodup) (k : String) :
    s.lookup k = s'.lookup k := by
  have hs' : (s'.map Prod.fst).Nodup := (h.map Prod.fst).nodup_iff.mp hs
  ext v
  rw [lookup_eq_some_iff hs, lookup_eq_some_iff hs', h.mem_iff]

theorem lookup_eq_none_iff : s.lookup k = none ↔ k ∉ s.map Prod.fst := by
  rw [List.lookup_eq_none_iff]
  constructor
  · intro h hmem
    obtain ⟨e, he, rfl⟩ := List.mem_map.mp hmem
    simpa using h e he
  · intro h e he
    have hne : k ≠ e.1 := fun heq => h (heq ▸ List.mem_map_of_mem he)
    simpa using hne

theorem lookup_isSome_iff : (s.lookup k).isSome = true ↔ k ∈ s.map Prod.fst := by
  rw [Option.isSome_iff_ne_none, ne_eq, lookup_eq_none_iff, not_not]

section Reading

variable {α : Type} (read : Node → Result α) (default : α)

theorem Slots.get_cons (k : String) (v : Node) (s : Slots) (name : String) :
    Slots.get ((k, v) :: s) name read = if name = k then read v else s.get name read := by
  rw [Slots.get, lookup_cons_eq]
  split_ifs <;> rfl

theorem Slots.getD_cons (k : String) (v : Node) (s : Slots) (name : String) :
    Slots.getD ((k, v) :: s) name read default =
      if name = k then read v else s.getD name read default := by
  rw [Slots.getD, lookup_cons_eq]
  split_ifs <;> rfl

end Reading

end Lookups

section Records

variable {fields : List Field} {ms : List (Label × Node)} {m : Label × Node} {slots slots' : Slots}

/-- The field that a member gives, with its value. -/
def given? (fields : List Field) (m : Label × Node) : Option (String × Node) :=
  match readLabel m.1 with
  | .ok name => if (fields.find? (·.name = name)).isSome then some (name, m.2) else none
  | .error _ => none

/-- The fields that an object gives, in the order of its text. -/
def known (fields : List Field) (ms : List (Label × Node)) : Slots := ms.filterMap (given? fields)

/-- A member by itself is no problem for a record. -/
inductive Takes (fields : List Field) : Label × Node → Prop
  | known {label : Label} {v : Node} {name : String} {f : Field}
      (hname : readLabel label = .ok name) (hfind : fields.find? (·.name = name) = some f)
      (hcheck : f.check v = .ok ()) : Takes fields (label, v)
  | unknown {label : Label} {v : Node} {name : String} (hname : readLabel label = .ok name)
      (hfind : fields.find? (·.name = name) = none) (hskip : v.skip = .ok ()) :
      Takes fields (label, v)

theorem known_cons (fields : List Field) (m : Label × Node) (ms : List (Label × Node)) :
    known fields (m :: ms) = (given? fields m).toList ++ known fields ms := by
  cases h : given? fields m <;> simp [known, h]

theorem known_append (fields : List Field) (as bs : List (Label × Node)) :
    known fields (as ++ bs) = known fields as ++ known fields bs := List.filterMap_append

theorem takeMember_eq_ok_iff (hslots : (slots.map Prod.fst).Nodup) :
    takeMember fields slots m = .ok slots' ↔ Takes fields m ∧
      (slots'.map Prod.fst).Nodup ∧ slots' = (given? fields m).toList ++ slots := by
  obtain ⟨label, v⟩ := m
  constructor
  · intro h
    obtain ⟨name, hname, h⟩ := Result.bind_eq_ok_iff.mp h
    cases hfind : fields.find? (·.name = name) with
    | none =>
      simp only [hfind] at h
      obtain ⟨⟨⟩, hskip, h⟩ := Result.bind_eq_ok_iff.mp h
      cases h
      exact ⟨.unknown hname hfind hskip, hslots, by simp [given?, hname, hfind]⟩
    | some f =>
      simp only [hfind] at h
      split_ifs at h with hold
      obtain ⟨⟨⟩, hcheck, h⟩ := Result.bind_eq_ok_iff.mp h
      cases h
      have hnew : name ∉ slots.map Prod.fst := fun hmem => hold (lookup_isSome_iff.mpr hmem)
      exact ⟨.known hname hfind hcheck, List.nodup_cons.mpr ⟨hnew, hslots⟩,
        by simp [given?, hname, hfind]⟩
  · rintro ⟨htakes, hnodup, rfl⟩
    cases htakes with
    | @known _ _ name f hname hfind hcheck =>
      have hgiven : given? fields (label, v) = some (name, v) := by simp [given?, hname, hfind]
      rw [hgiven] at hnodup ⊢
      have hnew : ¬ (slots.lookup name).isSome = true := fun hold =>
        (List.nodup_cons.mp hnodup).1 (lookup_isSome_iff.mp hold)
      simp [takeMember, hname, hfind, hcheck, hnew]
    | unknown hname hfind hskip => simp [takeMember, given?, hname, hfind, hskip]

theorem foldlM_takeMember_eq_ok_iff (hslots : (slots.map Prod.fst).Nodup) :
    ms.foldlM (takeMember fields) slots = .ok slots' ↔ (∀ m ∈ ms, Takes fields m) ∧
      (slots'.map Prod.fst).Nodup ∧ slots' = (known fields ms).reverse ++ slots := by
  induction ms generalizing slots with
  | nil =>
    have hnil : List.foldlM (takeMember fields) slots [] = .ok slots' ↔ slots' = slots := by
      simp [eq_comm]
    rw [hnil]
    exact ⟨fun h => ⟨nofun, h ▸ hslots, h⟩, fun h => h.2.2⟩
  | cons m ms ih =>
    have hsplit : (known fields (m :: ms)).reverse ++ slots =
        (known fields ms).reverse ++ ((given? fields m).toList ++ slots) := by
      rw [known_cons]
      cases given? fields m <;> simp
    rw [List.foldlM_cons, Result.bind_eq_ok_iff, hsplit, List.forall_mem_cons]
    constructor
    · rintro ⟨next, hm, hms⟩
      obtain ⟨htakes, hnext, rfl⟩ := (takeMember_eq_ok_iff hslots).mp hm
      obtain ⟨hrest, hnodup, rfl⟩ := (ih hnext).mp hms
      exact ⟨⟨htakes, hrest⟩, hnodup, rfl⟩
    · rintro ⟨⟨htakes, hrest⟩, hnodup, rfl⟩
      have hnext : (((given? fields m).toList ++ slots).map Prod.fst).Nodup := by
        rw [List.map_append] at hnodup
        exact hnodup.of_append_right
      exact ⟨_, (takeMember_eq_ok_iff hslots).mpr ⟨htakes, hnext, rfl⟩,
        (ih hnext).mpr ⟨hrest, hnodup, rfl⟩⟩

theorem foldlM_takeMember_eq_ok (htakes : ∀ m ∈ ms, Takes fields m)
    (hnodup : ((known fields ms).map Prod.fst).Nodup) :
    ms.foldlM (takeMember fields) [] = .ok (known fields ms).reverse := by
  have hnil : (([] : Slots).map Prod.fst).Nodup := List.nodup_nil
  exact (foldlM_takeMember_eq_ok_iff hnil).mpr ⟨htakes, by simpa using hnodup, by simp⟩

/-- The members of an object that gives a record. -/
structure Fits (fields : List Field) (ms : List (Label × Node)) : Prop where
  takes : ∀ m ∈ ms, Takes fields m
  nodup : ((known fields ms).map Prod.fst).Nodup
  complete : ∀ f ∈ fields, f.presence = .required → f.name ∈ (known fields ms).map Prod.fst

theorem requireAll_eq_ok_iff : requireAll slots fields = .ok () ↔
    ∀ f ∈ fields, f.presence = .required → f.name ∈ slots.map Prod.fst := by
  induction fields with
  | nil => simp [requireAll]
  | cons f fs ih =>
    rw [requireAll, List.forall_mem_cons]
    split_ifs with hmissing
    · obtain ⟨hreq, hnone⟩ := hmissing
      rw [Option.isNone_iff_eq_none, lookup_eq_none_iff] at hnone
      exact ⟨nofun, fun h => absurd (h.1 hreq) hnone⟩
    · have hpresent (hreq : f.presence = .required) : f.name ∈ slots.map Prod.fst := by
        by_contra habsent
        exact hmissing ⟨hreq, Option.isNone_iff_eq_none.mpr (lookup_eq_none_iff.mpr habsent)⟩
      rw [ih]
      exact ⟨fun h => ⟨hpresent, h⟩, fun h => h.2⟩

/-- The missing field is named if no other is missing. -/
theorem requireAll_eq_missing {f : Field} (hf : f ∈ fields) (hreq : f.presence = .required)
    (hmissing : f.name ∉ slots.map Prod.fst) (hothers : ∀ g ∈ fields, g.presence = .required →
      g.name = f.name ∨ g.name ∈ slots.map Prod.fst) :
    requireAll slots fields = .error (.missingField f.name) := by
  induction fields with
  | nil => cases hf
  | cons g fs ih =>
    rw [List.forall_mem_cons] at hothers
    rw [requireAll]
    split_ifs with hg
    · obtain ⟨hreq', hnone⟩ := hg
      rw [Option.isNone_iff_eq_none, lookup_eq_none_iff] at hnone
      rw [(hothers.1 hreq').resolve_right hnone]
    · refine ih ((List.mem_cons.mp hf).resolve_left ?_) hothers.2
      rintro rfl
      exact hg ⟨hreq, Option.isNone_iff_eq_none.mpr (lookup_eq_none_iff.mpr hmissing)⟩

/-- The slots of a record are the fields that its object gives. -/
theorem readSlots_eq_ok_iff : readSlots fields (.object ms none) = .ok slots ↔
    Fits fields ms ∧ slots = (known fields ms).reverse := by
  have hread : readSlots fields (.object ms none) = .ok slots ↔
      ms.foldlM (takeMember fields) [] = .ok slots ∧ requireAll slots fields = .ok () := by
    simp only [readSlots, close, Result.bind_eq_ok_iff]
    constructor
    · rintro ⟨s, hms, ⟨⟩, -, ⟨⟩, hrequired, h⟩
      cases h
      exact ⟨hms, hrequired⟩
    · rintro ⟨hms, hrequired⟩
      exact ⟨slots, hms, (), trivial, (), hrequired, rfl⟩
  have hnil : (([] : Slots).map Prod.fst).Nodup := List.nodup_nil
  rw [hread, foldlM_takeMember_eq_ok_iff hnil, requireAll_eq_ok_iff, List.append_nil]
  constructor
  · rintro ⟨⟨htakes, hnodup, rfl⟩, hcomplete⟩
    exact ⟨⟨htakes, by simpa using hnodup, by simpa using hcomplete⟩, rfl⟩
  · rintro ⟨⟨htakes, hnodup, hcomplete⟩, rfl⟩
    exact ⟨⟨htakes, by simpa using hnodup, rfl⟩, by simpa using hcomplete⟩

section Members

variable {as bs ms' : List (Label × Node)} {label : Label} {v v' : Node} {k : String} {f : Field}

/-- No field knows the member. -/
def Unknown (fields : List Field) (m : Label × Node) : Prop :=
  ∃ name, readLabel m.1 = .ok name ∧ fields.find? (·.name = name) = none ∧ m.2.skip = .ok ()

theorem Unknown.takeMember_eq (h : Unknown fields m) (slots : Slots) :
    takeMember fields slots m = .ok slots := by
  obtain ⟨name, hname, hfind, hskip⟩ := h
  simp [takeMember, hname, hfind, hskip]

/-- An unknown member is passed over wherever it stands, whatever comes of the others. -/
theorem Unknown.readSlots_insert (h : Unknown fields m) (as bs : List (Label × Node)) :
    readSlots fields (.object (as ++ m :: bs) none) =
      readSlots fields (.object (as ++ bs) none) := by
  simp only [readSlots, List.foldlM_append, List.foldlM_cons, h.takeMember_eq, Result.ok_bind]

theorem Fits.perm (h : Fits fields ms) (hms : ms.Perm ms') : Fits fields ms' := by
  have hknown : ((known fields ms).map Prod.fst).Perm ((known fields ms').map Prod.fst) :=
    (hms.filterMap _).map Prod.fst
  exact ⟨fun m hm => h.takes m (hms.mem_iff.mpr hm), hknown.nodup_iff.mp h.nodup,
    fun f hf hreq => hknown.mem_iff.mp (h.complete f hf hreq)⟩

variable (hname : readLabel label = .ok k) (hfind : fields.find? (·.name = k) = some f)

include hname hfind

theorem known_insert (as bs : List (Label × Node)) (v : Node) :
    (known fields (as ++ (label, v) :: bs)).Perm ((k, v) :: known fields (as ++ bs)) := by
  have hgiven : given? fields (label, v) = some (k, v) := by simp [given?, hname, hfind]
  have hsplit : known fields (as ++ (label, v) :: bs) =
      known fields as ++ (k, v) :: known fields bs := by
    simp [known, hgiven]
  rw [hsplit, known_append]
  exact List.perm_middle

theorem keys_insert (as bs : List (Label × Node)) (v : Node) :
    ((known fields (as ++ (label, v) :: bs)).map Prod.fst).Perm
      (k :: (known fields (as ++ bs)).map Prod.fst) :=
  (known_insert hname hfind as bs v).map Prod.fst

/-- A field that is given once is found as if it stood in front of the others. -/
theorem Fits.lookup_insert (h : Fits fields (as ++ (label, v) :: bs)) (name : String) :
    (known fields (as ++ (label, v) :: bs)).lookup name =
      ((k, v) :: known fields (as ++ bs)).lookup name :=
  lookup_perm (known_insert hname hfind as bs v) h.nodup name

theorem Fits.lookup_remove (h : Fits fields (as ++ (label, v) :: bs)) :
    (known fields (as ++ bs)).lookup k = none := by
  have hnodup := (keys_insert hname hfind as bs v).nodup_iff.mp h.nodup
  exact lookup_eq_none_iff.mpr (List.nodup_cons.mp hnodup).1

theorem Fits.check_eq (h : Fits fields ms) (hm : (label, v) ∈ ms) : f.check v = .ok () := by
  cases h.takes _ hm with
  | known hname' hfind' hcheck =>
    cases hname.symm.trans hname'
    cases hfind.symm.trans hfind'
    exact hcheck
  | unknown hname' hfind' =>
    cases hname.symm.trans hname'
    cases hfind.symm.trans hfind'

/-- Another value that the field takes can stand in its place. -/
theorem Fits.replace (h : Fits fields (as ++ (label, v) :: bs)) (hcheck : f.check v = f.check v') :
    Fits fields (as ++ (label, v') :: bs) := by
  have hkeys := (keys_insert hname hfind as bs v).trans (keys_insert hname hfind as bs v').symm
  refine ⟨fun m hm => ?_, hkeys.nodup_iff.mp h.nodup,
    fun g hg hreq => hkeys.mem_iff.mp (h.complete g hg hreq)⟩
  rcases List.mem_append.mp hm with hm | hm
  · exact h.takes m (List.mem_append_left _ hm)
  rcases List.mem_cons.mp hm with rfl | hm
  · exact .known hname hfind (hcheck ▸ h.check_eq hname hfind (by simp))
  · exact h.takes m (List.mem_append_right _ (List.mem_cons_of_mem _ hm))

/-- A field that may be absent can be left out. -/
theorem Fits.remove (h : Fits fields (as ++ (label, v) :: bs))
    (hoptional : ∀ g ∈ fields, g.presence = .required → g.name ≠ k) : Fits fields (as ++ bs) := by
  have hkeys := keys_insert hname hfind as bs v
  refine ⟨fun m hm => h.takes m ?_, (List.nodup_cons.mp (hkeys.nodup_iff.mp h.nodup)).2,
    fun g hg hreq => ?_⟩
  · rcases List.mem_append.mp hm with hm | hm
    · exact List.mem_append_left _ hm
    · exact List.mem_append_right _ (List.mem_cons_of_mem _ hm)
  · have hmem := hkeys.mem_iff.mp (h.complete g hg hreq)
    exact (List.mem_cons.mp hmem).resolve_left (hoptional g hg hreq)

theorem Fits.getD_remove (h : Fits fields (as ++ (label, v) :: bs)) {α : Type}
    (read : Node → Result α) (default : α) :
    (known fields (as ++ bs)).getD k read default = .ok default := by
  rw [Slots.getD, h.lookup_remove hname hfind]

/-- Without a member for it, a required field is missing. -/
theorem Fits.readSlots_remove (h : Fits fields (as ++ (label, v) :: bs))
    (hreq : f.presence = .required) :
    readSlots fields (.object (as ++ bs) none) = .error (.missingField k) := by
  have hf := List.mem_of_find?_eq_some hfind
  obtain rfl : f.name = k := by simpa using List.find?_some hfind
  have hkeys := keys_insert hname hfind as bs v
  obtain ⟨hmissing, hnodup⟩ := List.nodup_cons.mp (hkeys.nodup_iff.mp h.nodup)
  have htakes : ∀ m ∈ as ++ bs, Takes fields m := fun m hm => h.takes m (by
    rw [List.mem_append] at hm
    rw [List.mem_append, List.mem_cons]
    tauto)
  have hothers (g : Field) (hg : g ∈ fields) (hg' : g.presence = .required) :
      g.name = f.name ∨ g.name ∈ (known fields (as ++ bs)).reverse.map Prod.fst := by
    simpa using hkeys.mem_iff.mp (h.complete g hg hg')
  have hmembers := foldlM_takeMember_eq_ok htakes hnodup
  have hrequired := requireAll_eq_missing hf hreq (by simpa using hmissing) hothers
  rw [readSlots, hmembers, close, Result.ok_bind, Result.ok_bind, hrequired]
  rfl

/-- A second member for a field is one too many. -/
theorem Fits.readSlots_repeat (h : Fits fields (as ++ bs))
    (hold : k ∈ (known fields as).map Prod.fst) (v : Node) :
    readSlots fields (.object (as ++ (label, v) :: bs) none) = .error (.duplicateField k) := by
  have hnodup : ((known fields as).map Prod.fst).Nodup := by
    have hall := h.nodup
    rw [known_append, List.map_append] at hall
    exact hall.of_append_left
  have htakes : ∀ m ∈ as, Takes fields m := fun m hm => h.takes m (List.mem_append_left bs hm)
  have hmembers := foldlM_takeMember_eq_ok htakes hnodup
  have hgiven : ((known fields as).reverse.lookup k).isSome = true := by
    rw [lookup_isSome_iff, List.map_reverse, List.mem_reverse]
    exact hold
  have hrepeat : takeMember fields (known fields as).reverse (label, v) =
      .error (.duplicateField k) := by
    simp [takeMember, hname, hfind, hgiven]
  rw [readSlots, List.foldlM_append, hmembers, Result.ok_bind, List.foldlM_cons, hrepeat]
  rfl

end Members

theorem mem_keys_known_iff {k : String} : k ∈ (known fields ms).map Prod.fst ↔
    (fields.find? (·.name = k)).isSome = true ∧ ∃ m ∈ ms, readLabel m.1 = .ok k := by
  have hgiven (m : Label × Node) : (∃ e, given? fields m = some e ∧ e.1 = k) ↔
      (fields.find? (·.name = k)).isSome = true ∧ readLabel m.1 = .ok k := by
    unfold given?
    cases hname : readLabel m.1 with
    | error e => simp
    | ok name =>
      by_cases hk : name = k
      · subst hk
        simp
      · simp [hk]
  simp only [List.mem_map, known, List.mem_filterMap]
  constructor
  · rintro ⟨e, ⟨m, hm, he⟩, hk⟩
    obtain ⟨hfield, hname⟩ := (hgiven m).mp ⟨e, he, hk⟩
    exact ⟨hfield, m, hm, hname⟩
  · rintro ⟨hfield, m, hm, hname⟩
    obtain ⟨e, he, hk⟩ := (hgiven m).mpr ⟨hfield, hname⟩
    exact ⟨e, ⟨m, hm, he⟩, hk⟩

section Lists

variable {fs rest : List Field} {done : Slots}

/-- Fields that have a default are not missed at the end of a list. -/
theorem takeItems_nil (hrest : ∀ f ∈ rest, f.presence = .defaulted) :
    takeItems none rest [] = .ok [] := by
  induction rest with
  | nil => rfl
  | cons f rest ih =>
    rw [List.forall_mem_cons] at hrest
    simp [takeItems, close, hrest.1, ih hrest.2]

/-- Items are for the fields in their order. -/
theorem keys_takeItems (hrest : ∀ f ∈ rest, f.presence = .defaulted) {vs : List Node}
    (hlen : vs.length = fs.length) (h : takeItems none (fs ++ rest) vs = .ok slots) :
    slots.map Prod.fst = fs.map Field.name := by
  induction fs generalizing vs slots with
  | nil =>
    obtain rfl := List.eq_nil_of_length_eq_zero hlen
    rw [List.nil_append, takeItems_nil hrest] at h
    cases h
    rfl
  | cons f fs ih =>
    cases vs with
    | nil => cases hlen
    | cons v vs =>
      obtain ⟨⟨⟩, -, h⟩ := Result.bind_eq_ok_iff.mp h
      obtain ⟨more, hmore, h⟩ := Result.bind_eq_ok_iff.mp h
      cases h
      rw [List.map_cons, List.map_cons, ih (by simpa using hlen) hmore]

/-- Members that are named for the fields in their order are taken as items are. -/
theorem foldlM_takeMember_eq_takeItems
    (hnames : List.Forall₂ (fun m f => readLabel m.1 = .ok f.name) ms fs)
    (hfind : ∀ f ∈ fs, fields.find? (·.name = f.name) = some f)
    (hnodup : (fs.map Field.name ++ done.map Prod.fst).Nodup)
    (hrest : ∀ f ∈ rest, f.presence = .defaulted) :
    ms.foldlM (takeMember fields) done = (do
      let slots ← takeItems none (fs ++ rest) (ms.map Prod.snd)
      .ok (slots.reverse ++ done)) := by
  induction hnames generalizing done with
  | nil => simp [takeItems_nil hrest]
  | @cons m f ms fs hname _ ih =>
    rw [List.forall_mem_cons] at hfind
    have hnew : done.lookup f.name = none := by
      rw [lookup_eq_none_iff]
      exact fun hmem => (List.nodup_cons.mp hnodup).1 (List.mem_append_right _ hmem)
    have hstep : takeMember fields done m = (do f.check m.2; .ok ((f.name, m.2) :: done)) := by
      simp [takeMember, hname, hfind.1, hnew]
    have hnext : (fs.map Field.name ++ ((f.name, m.2) :: done).map Prod.fst).Nodup :=
      List.nodup_middle.mpr hnodup
    rw [List.foldlM_cons, hstep, List.map_cons, List.cons_append, takeItems]
    cases f.check m.2 with
    | error e => rfl
    | ok =>
      simp only [Result.ok_bind, ih hfind.2 hnext]
      cases takeItems none (fs ++ rest) (ms.map Prod.snd) <;> simp

/-- The list of the first fields of a record, all but the defaulted among them, is read as the
object is that names them. -/
theorem readSlots_object_eq (hfields : fields = fs ++ rest)
    (hnames : List.Forall₂ (fun m f => readLabel m.1 = .ok f.name) ms fs)
    (hfind : ∀ f ∈ fs, fields.find? (·.name = f.name) = some f)
    (hnodup : (fs.map Field.name).Nodup) (hrest : ∀ f ∈ rest, f.presence = .defaulted) :
    readSlots fields (.object ms none) =
      List.reverse <$> readSlots fields (.array (ms.map Prod.snd) none) := by
  have hnew : (fs.map Field.name ++ ([] : Slots).map Prod.fst).Nodup := by simpa using hnodup
  have hmembers := foldlM_takeMember_eq_takeItems hnames hfind hnew hrest
  rw [readSlots, readSlots, hmembers]
  subst hfields
  cases hitems : takeItems none (fs ++ rest) (ms.map Prod.snd) with
  | error e => rfl
  | ok slots =>
    have hkeys := keys_takeItems hrest (by simp [hnames.length_eq]) hitems
    have hrequired : requireAll slots.reverse (fs ++ rest) = .ok () := by
      rw [requireAll_eq_ok_iff]
      intro f hf hreq
      rcases List.mem_append.mp hf with hf | hf
      · rw [List.map_reverse, List.mem_reverse, hkeys]
        exact List.mem_map_of_mem hf
      · rw [hrest f hf] at hreq
        cases hreq
    simp [close, hrequired]

theorem fault_eq_none_of_takeItems {fault : Option Fault} {vs : List Node}
    (h : takeItems fault fields vs = .ok slots) : fault = none := by
  induction fields generalizing vs slots with
  | nil =>
    cases vs with
    | nil =>
      obtain ⟨_, hclose, -⟩ := Result.bind_eq_ok_iff.mp h
      exact close_eq_ok_iff.mp hclose
    | cons => cases h
  | cons f fs ih =>
    cases vs with
    | nil =>
      obtain ⟨_, hclose, -⟩ := Result.bind_eq_ok_iff.mp h
      exact close_eq_ok_iff.mp hclose
    | cons v vs =>
      obtain ⟨_, -, h⟩ := Result.bind_eq_ok_iff.mp h
      obtain ⟨more, hmore, -⟩ := Result.bind_eq_ok_iff.mp h
      exact ih hmore

end Lists

/-- No record is read from a node that breaks off. -/
theorem skipFault?_of_readSlots {v : Node} (h : readSlots fields v = .ok slots) :
    v.skipFault? = none := by
  cases v with
  | object ms fault =>
    obtain ⟨_, -, h⟩ := Result.bind_eq_ok_iff.mp h
    obtain ⟨_, hclose, -⟩ := Result.bind_eq_ok_iff.mp h
    exact close_eq_ok_iff.mp hclose
  | array vs fault => exact fault_eq_none_of_takeItems h
  | _ => cases h

end Records

end Json

end DocumentPipeline
