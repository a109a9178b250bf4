import DocumentPipeline.Json.Records
import DocumentPipeline.Proofs.KnownFields
import DocumentPipeline.Proofs.Pieces
import DocumentPipeline.Proofs.RoundTrip
import Mathlib.Logic.Relation

/-! # Texts of work items

An item is decoded from the fields that its text gives. The text of an object falls apart into
its members; their order, blanks between tokens and members that no field knows make no difference,
and a list of values stands for the object that names them. A field that is left out has its
default or is missed, and none may be given twice.
-/
namespace DocumentPipeline

open Json

namespace WorkItem

variable {ms ms' as bs : List (Label × Node)} {slots slots' : Slots} {w : WorkItem}

/-- The item that the slots of a record give. -/
def fill (slots : Slots) : Result WorkItem := do
  .ok
    { id := ← slots.get "id" readString
      fetchKey := ← slots.get "fetch_key" FetchKey.read
      emitKey := ← slots.get "emit_key" EmitKey.read
      metadata := ← slots.getD "metadata" Metadata.read ∅
      onException := ← slots.getD "on_parse_exception" ExceptionPolicy.read .emit }

theorem read_eq (v : Node) : read v = (readSlots fields v >>= fill) := rfl

theorem fill_congr (h : ∀ name, slots.lookup name = slots'.lookup name) :
    fill slots = fill slots' := by
  simp [fill, Slots.get, Slots.getD, h]

/-- Each part of an item comes from the slot of its field, or is the default of the field. -/
@[mk_iff]
structure Given (slots : Slots) (w : WorkItem) : Prop where
  id : slots.get "id" readString = .ok w.id
  fetchKey : slots.get "fetch_key" FetchKey.read = .ok w.fetchKey
  emitKey : slots.get "emit_key" EmitKey.read = .ok w.emitKey
  metadata : slots.getD "metadata" Metadata.read ∅ = .ok w.metadata
  onException : slots.getD "on_parse_exception" ExceptionPolicy.read .emit = .ok w.onException

theorem fill_eq_ok_iff : fill slots = .ok w ↔ Given slots w := by
  simp only [fill, Result.bind_eq_ok_iff]
  constructor
  · rintro ⟨id, hid, fetchKey, hfetch, emitKey, hemit, metadata, hmetadata, policy, hpolicy, h⟩
    cases h
    exact ⟨hid, hfetch, hemit, hmetadata, hpolicy⟩
  · rintro ⟨hid, hfetch, hemit, hmetadata, hpolicy⟩
    exact ⟨_, hid, _, hfetch, _, hemit, _, hmetadata, _, hpolicy, rfl⟩

/-- An object gives an item by the fields that it gives, in whatever order. -/
theorem read_eq_ok_iff : read (.object ms none) = .ok w ↔
    Fits fields ms ∧ Given (known fields ms) w := by
  simp only [read_eq, Result.bind_eq_ok_iff, readSlots_eq_ok_iff, ← fill_eq_ok_iff]
  have hreverse (hfits : Fits fields ms) :
      fill (known fields ms).reverse = fill (known fields ms) :=
    fill_congr fun name => (lookup_perm (List.reverse_perm _).symm hfits.nodup name).symm
  constructor
  · rintro ⟨_, ⟨hfits, rfl⟩, hfill⟩
    exact ⟨hfits, hreverse hfits ▸ hfill⟩
  · rintro ⟨hfits, hfill⟩
    exact ⟨_, ⟨hfits, rfl⟩, (hreverse hfits).trans hfill⟩

theorem read_perm (h : read (.object ms none) = .ok w) (hms : ms.Perm ms') :
    read (.object ms' none) = .ok w := by
  rw [read_eq_ok_iff, ← fill_eq_ok_iff] at h ⊢
  obtain ⟨hfits, hfill⟩ := h
  have hlookup := lookup_perm (hms.filterMap (given? fields)) hfits.nodup
  exact ⟨hfits.perm hms, (fill_congr hlookup).symm.trans hfill⟩

theorem find?_fields {f : Field} (hf : f ∈ fields) : fields.find? (·.name = f.name) = some f := by
  simp only [fields, List.mem_cons, List.not_mem_nil, or_false] at hf
  rcases hf with rfl | rfl | rfl | rfl | rfl <;> rfl

theorem exists_required {k : String} (hk : k ∈ ["id", "fetch_key", "emit_key"]) :
    ∃ f ∈ fields, f.presence = .required ∧ f.name = k := by
  simp only [List.mem_cons, List.not_mem_nil, or_false] at hk
  rcases hk with rfl | rfl | rfl <;> simp [fields, Field.of]

section Members

variable {label : Label} {v v' : Node} {k : String} {f : Field}

/-- A field can be given by another value that is read in the same way. -/
theorem read_replace (hname : readLabel label = .ok k)
    (hfind : fields.find? (·.name = k) = some f) (hcheck : f.check v = f.check v')
    (hfill : ∀ slots, fill ((k, v) :: slots) = fill ((k, v') :: slots))
    (h : read (.object (as ++ (label, v) :: bs) none) = .ok w) :
    read (.object (as ++ (label, v') :: bs) none) = .ok w := by
  rw [read_eq_ok_iff, ← fill_eq_ok_iff] at h ⊢
  obtain ⟨hfits, hgiven⟩ := h
  have hfits' := hfits.replace hname hfind hcheck
  rw [fill_congr (hfits.lookup_insert hname hfind)] at hgiven
  rw [fill_congr (hfits'.lookup_insert hname hfind), ← hfill]
  exact ⟨hfits', hgiven⟩

theorem read_remove_metadata (hname : readLabel label = .ok "metadata")
    (h : read (.object (as ++ (label, v) :: bs) none) = .ok w) :
    read (.object (as ++ bs) none) = .ok { w with metadata := ∅ } := by
  rw [read_eq_ok_iff, ← fill_eq_ok_iff] at h
  obtain ⟨hfits, hfill⟩ := h
  have hfind : fields.find? (·.name = "metadata") =
      some (.of "metadata" .defaulted Metadata.read) := rfl
  rw [fill_congr (hfits.lookup_insert hname hfind), fill_eq_ok_iff, given_iff] at hfill
  simp only [Slots.get_cons, Slots.getD_cons, String.reduceEq, reduceIte] at hfill
  obtain ⟨hid, hfetch, hemit, -, hpolicy⟩ := hfill
  refine read_eq_ok_iff.mpr ⟨hfits.remove hname hfind (by simp [fields, Field.of]), ?_⟩
  exact ⟨hid, hfetch, hemit, hfits.getD_remove hname hfind _ _, hpolicy⟩

theorem read_remove_onException (hname : readLabel label = .ok "on_parse_exception")
    (h : read (.object (as ++ (label, v) :: bs) none) = .ok w) :
    read (.object (as ++ bs) none) = .ok { w with onException := .emit } := by
  rw [read_eq_ok_iff, ← fill_eq_ok_iff] at h
  obtain ⟨hfits, hfill⟩ := h
  have hfind : fields.find? (·.name = "on_parse_exception") =
      some (.of "on_parse_exception" .defaulted ExceptionPolicy.read) := rfl
  rw [fill_congr (hfits.lookup_insert hname hfind), fill_eq_ok_iff, given_iff] at hfill
  simp only [Slots.get_cons, Slots.getD_cons, String.reduceEq, reduceIte] at hfill
  obtain ⟨hid, hfetch, hemit, hmetadata, -⟩ := hfill
  refine read_eq_ok_iff.mpr ⟨hfits.remove hname hfind (by simp [fields, Field.of]), ?_⟩
  exact ⟨hid, hfetch, hemit, hmetadata, hfits.getD_remove hname hfind _ _⟩

theorem read_remove_required (hk : k ∈ ["id", "fetch_key", "emit_key"])
    (hname : readLabel label = .ok k)
    (h : read (.object (as ++ (label, v) :: bs) none) = .ok w) :
    read (.object (as ++ bs) none) = .error (.missingField k) := by
  obtain ⟨hfits, -⟩ := read_eq_ok_iff.mp h
  obtain ⟨f, hf, hreq, rfl⟩ := exists_required hk
  rw [read_eq, hfits.readSlots_remove hname (find?_fields hf) hreq]
  rfl

end Members

/-- An item without metadata has none, and one without a policy is emitted. -/
theorem default_of_read (h : read (.object ms none) = .ok w) :
    ((∀ m ∈ ms, readLabel m.1 ≠ .ok "metadata") → w.metadata = ∅) ∧
      ((∀ m ∈ ms, readLabel m.1 ≠ .ok "on_parse_exception") → w.onException = .emit) := by
  obtain ⟨-, hgiven⟩ := read_eq_ok_iff.mp h
  have hlookup {k : String} (habsent : ∀ m ∈ ms, readLabel m.1 ≠ .ok k) :
      (known fields ms).lookup k = none := by
    rw [lookup_eq_none_iff, mem_keys_known_iff]
    rintro ⟨-, m, hm, hname⟩
    exact habsent m hm hname
  constructor
  · intro habsent
    have hmetadata := hgiven.metadata
    rw [Slots.getD, hlookup habsent] at hmetadata
    exact (Except.ok.inj hmetadata).symm
  · intro habsent
    have hpolicy := hgiven.onException
    rw [Slots.getD, hlookup habsent] at hpolicy
    exact (Except.ok.inj hpolicy).symm

theorem exists_error_of_not_fits (h : ¬ Fits fields ms) :
    ∃ e, read (.object ms none) = .error e := by
  cases hread : read (.object ms none) with
  | error e => exact ⟨e, rfl⟩
  | ok w => exact absurd (read_eq_ok_iff.mp hread).1 h

theorem not_fits_of_absent {k : String} (hk : k ∈ ["id", "fetch_key", "emit_key"])
    (habsent : ∀ m ∈ ms, readLabel m.1 ≠ .ok k) : ¬ Fits fields ms := by
  intro hfits
  obtain ⟨f, hf, hreq, rfl⟩ := exists_required hk
  obtain ⟨-, m, hm, hname⟩ := mem_keys_known_iff.mp (hfits.complete f hf hreq)
  exact habsent m hm hname

theorem not_fits_of_repeated {f : Field} (hf : f ∈ fields) {m : Label × Node}
    (hm : readLabel m.1 = .ok f.name) (hold : ∃ m' ∈ as ++ bs, readLabel m'.1 = .ok f.name) :
    ¬ Fits fields (as ++ m :: bs) := by
  intro hfits
  have hfind := find?_fields hf
  have hkeys := keys_insert hm hfind as bs m.2
  have hnew := (List.nodup_cons.mp (hkeys.nodup_iff.mp hfits.nodup)).1
  exact hnew (mem_keys_known_iff.mpr ⟨by rw [hfind]; rfl, hold⟩)

/-- The list of the first three fields or more is read as the object that names them. -/
theorem read_array (hlow : 3 ≤ ms.length) (hhigh : ms.length ≤ 5)
    (hnames : List.Forall₂ (fun m f => readLabel m.1 = .ok f.name) ms (fields.take ms.length)) :
    read (.array (ms.map Prod.snd) none) = read (.object ms none) := by
  have hfields : fields = fields.take ms.length ++ fields.drop ms.length :=
    (List.take_append_drop _ _).symm
  have hfind : ∀ f ∈ fields.take ms.length, fields.find? (·.name = f.name) = some f :=
    fun f hf => find?_fields (List.mem_of_mem_take hf)
  have hall : (fields.map Field.name).Nodup := by simp [fields, Field.of]
  have hnodup : ((fields.take ms.length).map Field.name).Nodup :=
    hall.sublist ((List.take_sublist _ _).map _)
  have hrest : ∀ f ∈ fields.drop ms.length, f.presence = .defaulted := by
    have hthree : ∀ f ∈ fields.drop 3, f.presence = .defaulted := by simp [fields, Field.of]
    exact fun f hf => hthree f (List.drop_subset_drop_left _ hlow hf)
  rw [read_eq, read_eq, readSlots_object_eq hfields hnames hfind hnodup hrest]
  cases hslots : readSlots fields (.array (ms.map Prod.snd) none) with
  | error e => rfl
  | ok slots =>
    have hkeys : (slots.map Prod.fst).Nodup := by
      have hitems : takeItems none (fields.take ms.length ++ fields.drop ms.length)
          (ms.map Prod.snd) = .ok slots := by rw [← hfields]; exact hslots
      rw [keys_takeItems hrest (by simp [fields, hhigh]) hitems]
      exact hnodup
    exact fill_congr fun name => (lookup_perm (List.reverse_perm slots).symm hkeys name)

section Texts

variable {cs cs' : List Char} {lead trail : Blanks} {m : MemberText} {k : String}

/-- What a text is decoded to. -/
def ofText (cs : List Char) : Result WorkItem := decode read (String.ofList cs)

theorem ofText_congr (h : lex cs = lex cs') : ofText cs = ofText cs' := by
  simp only [ofText, decode, parse, String.toList_ofList, h]

theorem ofText_object (lead trail : Blanks) (ms : List MemberText) :
    ofText (objectChars lead ms trail) = read (.object (ms.map MemberText.node) none) :=
  (ValueText.object lead trail ms).decode_eq read

theorem ofText_array (lead trail : Blanks) (vs : List ValueText) :
    ofText (arrayChars lead vs trail) = read (.array (vs.map ValueText.tree) none) :=
  (ValueText.array lead trail vs).decode_eq read

/-- A decoded text of an object is put together from texts of members. -/
theorem exists_objectChars_of_ofText {ts : List Token} (h : ofText cs = .ok w)
    (hobject : lex cs = .openBrace :: ts) : ∃ lead ms trail, cs = objectChars lead ms trail := by
  obtain ⟨v, rest, hbuild⟩ : ∃ v rest, build [] .value (lex cs) = (v, rest) := ⟨_, _, rfl⟩
  have hparse : parse (String.ofList cs) = (v, !rest.isEmpty) := by
    simp [parse, hbuild]
  rw [ofText, decode, hparse] at h
  obtain ⟨w', hread, h⟩ := Result.bind_eq_ok_iff.mp h
  split_ifs at h with hrest
  obtain rfl : rest = [] := by simpa using hrest
  obtain ⟨slots, hslots, -⟩ := Result.bind_eq_ok_iff.mp hread
  refine exists_objectChars hobject hbuild (skipFault?_of_readSlots hslots) ?_
  rintro rfl
  cases hread

/-- No field has the name of the member. -/
def Unknown (fields : List Field) (m : MemberText) : Prop :=
  ∃ name, m.Named name ∧ ∀ f ∈ fields, f.name ≠ name

theorem Unknown.node {fields : List Field} {u : MemberText} (h : Unknown fields u) :
    Json.Unknown fields u.node := by
  obtain ⟨name, hname, hfields⟩ := h
  refine ⟨name, hname, ?_, ?_⟩
  · simpa using hfields
  · rw [MemberText.node, Node.skip, u.value.unbroken]

/-- The fields of the records in an item. -/
def keyFields : List (String × List Field) :=
  [("fetch_key", FetchKey.fields), ("emit_key", EmitKey.fields)]

/-- A change of a text that is no change of a known field. -/
inductive Edit : List Char → List Char → Prop
  /-- Blanks between two tokens. -/
  | blanks {a b : List Char} (s : Blanks) (ha : Whole a) (hab : lex (a ++ b) = lex a ++ lex b) :
      Edit (a ++ b) (a ++ (s.chars ++ b))
  /-- Another order of the members of the item. -/
  | reorder {ms ms' : List MemberText} (lead trail : Blanks) (h : ms.Perm ms') :
      Edit (objectChars lead ms trail) (objectChars lead ms' trail)
  /-- A member more of the item. -/
  | insert {u : MemberText} (lead trail : Blanks) (as bs : List MemberText)
      (hu : Unknown fields u) :
      Edit (objectChars lead (as ++ bs) trail) (objectChars lead (as ++ u :: bs) trail)
  /-- A member more of a key. -/
  | insertInKey {k : String} {inner : List Field} {n : NameText} {u : MemberText}
      (lead trail lead' trail' : Blanks) (as bs as' bs' : List MemberText)
      (hk : (k, inner) ∈ keyFields) (hn : n.text.value = .ok k) (hu : Unknown inner u) :
      Edit (objectChars lead (as ++ ⟨n, .object lead' trail' (as' ++ bs')⟩ :: bs) trail)
        (objectChars lead (as ++ ⟨n, .object lead' trail' (as' ++ u :: bs')⟩ :: bs) trail)

theorem Edit.ofText_eq (hedit : Edit cs cs') (h : ofText cs = .ok w) : ofText cs' = .ok w := by
  cases hedit with
  | blanks s ha hab => rwa [ofText_congr (s.lex_between ha hab)]
  | reorder lead trail hms =>
    rw [ofText_object] at h ⊢
    exact read_perm h (hms.map _)
  | insert lead trail as bs hu =>
    rw [ofText_object, List.map_append] at h ⊢
    rw [List.map_cons, read_eq, hu.node.readSlots_insert]
    exact h
  | @insertInKey k inner n u lead trail lead' trail' as bs as' bs' hk hn hu =>
    rw [ofText_object, List.map_append, List.map_cons] at h ⊢
    have hinner : readSlots inner (ValueText.object lead' trail' (as' ++ bs')).tree =
        readSlots inner (ValueText.object lead' trail' (as' ++ u :: bs')).tree := by
      simp only [ValueText.object, List.map_append, List.map_cons, hu.node.readSlots_insert]
    simp only [keyFields, List.mem_cons, List.not_mem_nil, or_false, Prod.mk.injEq] at hk
    rcases hk with ⟨rfl, rfl⟩ | ⟨rfl, rfl⟩
    · have hread : FetchKey.read (ValueText.object lead' trail' (as' ++ bs')).tree =
          FetchKey.read (ValueText.object lead' trail' (as' ++ u :: bs')).tree := by
        simp only [FetchKey.read, hinner]
      exact read_replace hn rfl (by simp [Field.of, hread])
        (fun slots => by simp [fill, Slots.get_cons, Slots.getD_cons, hread]) h
    · have hread : EmitKey.read (ValueText.object lead' trail' (as' ++ bs')).tree =
          EmitKey.read (ValueText.object lead' trail' (as' ++ u :: bs')).tree := by
        simp only [EmitKey.read, hinner]
      exact read_replace hn rfl (by simp [Field.of, hread])
        (fun slots => by simp [fill, Slots.get_cons, Slots.getD_cons, hread]) h

variable {as bs ms : List MemberText}

/-- The text of a key that is given as an object is put together in the same way. -/
theorem exists_objectChars_of_key (h : ofText (objectChars lead ms trail) = .ok w) (hm : m ∈ ms)
    (hkey : m.Named "fetch_key" ∨ m.Named "emit_key") {ts : List Token}
    (hobject : lex m.value.chars = .openBrace :: ts) :
    ∃ lead' ms' trail', m.value.chars = objectChars lead' ms' trail' := by
  refine exists_objectChars hobject m.value.build_eq m.value.unbroken fun hempty => ?_
  rw [ofText_object] at h
  obtain ⟨hfits, -⟩ := read_eq_ok_iff.mp h
  have hmem : (.name m.name.text, .object [] none) ∈ ms.map MemberText.node :=
    List.mem_map.mpr ⟨m, hm, by rw [MemberText.node, hempty]⟩
  rcases hkey with hk | hk
  · have hfind : fields.find? (·.name = "fetch_key") =
        some (.of "fetch_key" .required FetchKey.read) := rfl
    cases hfits.check_eq hk.readLabel_eq hfind hmem
  · have hfind : fields.find? (·.name = "emit_key") =
        some (.of "emit_key" .required EmitKey.read) := rfl
    cases hfits.check_eq hk.readLabel_eq hfind hmem

theorem ofText_default (h : ofText (objectChars lead ms trail) = .ok w) :
    ((∀ m ∈ ms, ¬ m.Named "metadata") → w.metadata = ∅) ∧
      ((∀ m ∈ ms, ¬ m.Named "on_parse_exception") → w.onException = .emit) := by
  rw [ofText_object] at h
  obtain ⟨hmetadata, hpolicy⟩ := default_of_read h
  exact ⟨fun habsent => hmetadata (List.forall_mem_map.mpr habsent),
    fun habsent => hpolicy (List.forall_mem_map.mpr habsent)⟩

theorem ofText_remove (h : ofText (objectChars lead (as ++ m :: bs) trail) = .ok w) :
    (m.Named "metadata" →
      ofText (objectChars lead (as ++ bs) trail) = .ok { w with metadata := ∅ }) ∧
    (m.Named "on_parse_exception" →
      ofText (objectChars lead (as ++ bs) trail) = .ok { w with onException := .emit }) ∧
    (∀ k ∈ ["id", "fetch_key", "emit_key"], m.Named k →
      ofText (objectChars lead (as ++ bs) trail) = .error (.missingField k)) := by
  rw [ofText_object, List.map_append, List.map_cons] at h
  rw [ofText_object, List.map_append]
  exact ⟨fun hm => read_remove_metadata hm.readLabel_eq h,
    fun hm => read_remove_onException hm.readLabel_eq h,
    fun k hk hm => read_remove_required hk hm.readLabel_eq h⟩

theorem exists_error_of_absent (hk : k ∈ ["id", "fetch_key", "emit_key"])
    (habsent : ∀ m ∈ ms, ¬ m.Named k) (lead trail : Blanks) :
    ∃ e, ofText (objectChars lead ms trail) = .error e := by
  rw [ofText_object]
  exact exists_error_of_not_fits (not_fits_of_absent hk (List.forall_mem_map.mpr habsent))

theorem exists_error_of_repeated {f : Field} (hf : f ∈ fields) (hm : m.Named f.name)
    (hold : ∃ m' ∈ as ++ bs, MemberText.Named m' f.name) (lead trail : Blanks) :
    ∃ e, ofText (objectChars lead (as ++ m :: bs) trail) = .error e := by
  rw [ofText_object, List.map_append, List.map_cons]
  refine exists_error_of_not_fits (not_fits_of_repeated hf hm ?_)
  obtain ⟨m', hm', hname⟩ := hold
  exact ⟨m'.node, by simpa using List.mem_map_of_mem hm', hname⟩

/-- A field that is given a second time is named. -/
theorem ofText_repeat (h : ofText (objectChars lead (as ++ bs) trail) = .ok w) {f : Field}
    (hf : f ∈ fields) (hm : m.Named f.name) (hold : ∃ m' ∈ as, MemberText.Named m' f.name) :
    ofText (objectChars lead (as ++ m :: bs) trail) = .error (.duplicateField f.name) := by
  rw [ofText_object, List.map_append] at h
  rw [ofText_object, List.map_append, List.map_cons, read_eq]
  obtain ⟨hfits, -⟩ := read_eq_ok_iff.mp h
  obtain ⟨m', hm', hname⟩ := hold
  have hfind := find?_fields hf
  have hgiven : f.name ∈ (known fields (as.map MemberText.node)).map Prod.fst :=
    mem_keys_known_iff.mpr ⟨by rw [hfind]; rfl, m'.node, List.mem_map_of_mem hm', hname⟩
  have hrepeat := hfits.readSlots_repeat hm.readLabel_eq hfind hgiven m.value.tree
  rw [MemberText.node, hrepeat]
  rfl

/-- The list of the values of the first fields is decoded as the object that names them. -/
theorem ofText_array_eq (hlow : 3 ≤ ms.length) (hhigh : ms.length ≤ 5)
    (hnames : List.Forall₂ (fun (m : MemberText) f => m.Named f.name) ms (fields.take ms.length))
    (lead trail lead' trail' : Blanks) :
    ofText (arrayChars lead (ms.map MemberText.value) trail) =
      ofText (objectChars lead' ms trail') := by
  have hvalues : (ms.map MemberText.value).map ValueText.tree =
      (ms.map MemberText.node).map Prod.snd := by simp [MemberText.node]
  rw [ofText_array, ofText_object, hvalues]
  refine read_array (by simpa using hlow) (by simpa using hhigh) ?_
  rw [List.length_map, List.forall₂_map_left_iff]
  exact hnames

/-- Items are decoded from texts by their known fields alone. -/
structure ByKnownFields (decoder : List Char → Result WorkItem) : Prop where
  /-- An object is decoded exactly if it can be taken as a record and the fields that it gives are
  read as the parts of the item. -/
  decoded (lead trail : Blanks) (ms : List MemberText) (w : WorkItem) :
    decoder (objectChars lead ms trail) = .ok w ↔
      Fits fields (ms.map MemberText.node) ∧ Given (known fields (ms.map MemberText.node)) w
  /-- The text of an object falls apart into members. -/
  apart {cs : List Char} {w : WorkItem} {ts : List Token} (h : decoder cs = .ok w)
    (hobject : lex cs = .openBrace :: ts) : ∃ lead ms trail, cs = objectChars lead ms trail
  /-- So does the text of a key that is given as an object. -/
  keyApart {lead trail : Blanks} {ms : List MemberText} {m : MemberText} {w : WorkItem}
    (h : decoder (objectChars lead ms trail) = .ok w) (hm : m ∈ ms)
    (hkey : m.Named "fetch_key" ∨ m.Named "emit_key") {ts : List Token}
    (hobject : lex m.value.chars = .openBrace :: ts) :
    ∃ lead' ms' trail', m.value.chars = objectChars lead' ms' trail'
  /-- Order, blanks and unknown members do not count. -/
  edits {cs cs' : List Char} {w : WorkItem} (h : decoder cs = .ok w)
    (hedits : Relation.ReflTransGen Edit cs cs') : decoder cs' = .ok w
  /-- What is not given has its default. -/
  defaults {lead trail : Blanks} {ms : List MemberText} {w : WorkItem}
    (h : decoder (objectChars lead ms trail) = .ok w) :
    ((∀ m ∈ ms, ¬ m.Named "metadata") → w.metadata = ∅) ∧
      ((∀ m ∈ ms, ¬ m.Named "on_parse_exception") → w.onException = .emit)
  /-- What is left out gets its default, or is missed if it has none. -/
  leftOut {lead trail : Blanks} {as bs : List MemberText} {m : MemberText} {w : WorkItem}
    (h : decoder (objectChars lead (as ++ m :: bs) trail) = .ok w) :
    (m.Named "metadata" →
      decoder (objectChars lead (as ++ bs) trail) = .ok { w with metadata := ∅ }) ∧
    (m.Named "on_parse_exception" →
      decoder (objectChars lead (as ++ bs) trail) = .ok { w with onException := .emit }) ∧
    (∀ k ∈ ["id", "fetch_key", "emit_key"], m.Named k →
      decoder (objectChars lead (as ++ bs) trail) = .error (.missingField k))
  /-- No text lacks a required field. -/
  required {ms : List MemberText} {k : String} (hk : k ∈ ["id", "fetch_key", "emit_key"])
    (habsent : ∀ m ∈ ms, ¬ m.Named k) (lead trail : Blanks) :
    ∃ e, decoder (objectChars lead ms trail) = .error e
  /-- A field that is given once more is named. -/
  again {lead trail : Blanks} {as bs : List MemberText} {m : MemberText} {w : WorkItem}
    (h : decoder (objectChars lead (as ++ bs) trail) = .ok w) {f : Field} (hf : f ∈ fields)
    (hm : m.Named f.name) (hold : ∃ m' ∈ as, MemberText.Named m' f.name) :
    decoder (objectChars lead (as ++ m :: bs) trail) = .error (.duplicateField f.name)
  /-- No text gives a field twice. -/
  once {as bs : List MemberText} {m : MemberText} {f : Field} (hf : f ∈ fields)
    (hm : m.Named f.name) (hold : ∃ m' ∈ as ++ bs, MemberText.Named m' f.name)
    (lead trail : Blanks) : ∃ e, decoder (objectChars lead (as ++ m :: bs) trail) = .error e
  /-- The values of the first fields can be listed in the order of the fields. -/
  listed {ms : List MemberText} (hlow : 3 ≤ ms.length) (hhigh : ms.length ≤ 5)
    (hnames : List.Forall₂ (fun m f => MemberText.Named m f.name) ms (fields.take ms.length))
    (lead trail lead' trail' : Blanks) :
    decoder (arrayChars lead (ms.map MemberText.value) trail) =
      decoder (objectChars lead' ms trail')

/-- Every text of an item is decoded by the fields that it gives, and by nothing else in it. -/
theorem byKnownFields_ofText : ByKnownFields ofText where
  decoded lead trail ms w := by
    rw [ofText_object]
    exact read_eq_ok_iff
  apart := exists_objectChars_of_ofText
  keyApart := exists_objectChars_of_key
  edits h hedits := by
    induction hedits with
    | refl => exact h
    | tail _ hedit ih => exact hedit.ofText_eq ih
  defaults := ofText_default
  leftOut := ofText_remove
  required := exists_error_of_absent
  again := ofText_repeat
  once := exists_error_of_repeated
  listed := ofText_array_eq

/-- The members of a sample item. -/
def sampleMembers : List MemberText :=
  [("id", .text "a"), ("fetch_key", (FetchKey.mk "fsf" "a").toJson),
    ("emit_key", (EmitKey.mk "fse" "a").toJson),
    ("metadata", (Metadata.empty.set "source" "fixture").toJson),
    ("on_parse_exception", ExceptionPolicy.emit.toJson)].map MemberText.written

theorem noted_sample_read :
    ofText (objectChars .none sampleMembers .none) = .ok (.sample "a") ∧
      ofText (objectChars .none (.written ("note", .array [.null]) :: sampleMembers.reverse)
        .none) = .ok (.sample "a") ∧
      ofText (arrayChars .none ((sampleMembers.take 3).map MemberText.value) .none) =
        .ok { WorkItem.sample "a" with metadata := ∅ } ∧
      ofText (objectChars .none sampleMembers.tail .none) = .error (.missingField "id") := by
  have hsample : ofText (objectChars .none sampleMembers .none) = .ok (.sample "a") := by
    rw [ofText_object]
    exact read_node (.sample "a")
  have hnote : Unknown fields (.written ("note", .array [.null])) :=
    ⟨"note", MemberText.named_written _, by simp [fields, Field.of]⟩
  have hreorder : Edit (objectChars .none sampleMembers .none)
      (objectChars .none sampleMembers.reverse .none) :=
    .reorder .none .none (List.reverse_perm _).symm
  have hinsert : Edit (objectChars .none sampleMembers.reverse .none)
      (objectChars .none (.written ("note", .array [.null]) :: sampleMembers.reverse) .none) :=
    .insert .none .none [] _ hnote
  have hpolicy : ofText (objectChars .none (sampleMembers.take 4 ++
      .written ("on_parse_exception", ExceptionPolicy.emit.toJson) :: []) .none) =
        .ok (.sample "a") := hsample
  have hfour := (byKnownFields_ofText.leftOut hpolicy).2.1 (MemberText.named_written _)
  have hmetadata : ofText (objectChars .none (sampleMembers.take 3 ++
      .written ("metadata", (Metadata.empty.set "source" "fixture").toJson) :: []) .none) =
        .ok (.sample "a") := hfour
  have hthree := (byKnownFields_ofText.leftOut hmetadata).1 (MemberText.named_written _)
  have hnames : List.Forall₂ (fun m f => MemberText.Named m f.name) (sampleMembers.take 3)
      (fields.take 3) :=
    .cons (MemberText.named_written _) (.cons (MemberText.named_written _)
      (.cons (MemberText.named_written _) .nil))
  have hlist : ofText (arrayChars .none ((sampleMembers.take 3).map MemberText.value) .none) =
      ofText (objectChars .none (sampleMembers.take 3) .none) :=
    byKnownFields_ofText.listed (by decide) (by decide) hnames .none .none .none .none
  have hid : ofText (objectChars .none ([] ++ .written ("id", .text "a") :: sampleMembers.tail)
      .none) = .ok (.sample "a") := hsample
  exact ⟨hsample, byKnownFields_ofText.edits hsample (.tail (.single hreorder) hinsert),
    hlist.trans hthree,
    (byKnownFields_ofText.leftOut hid).2.2 "id" (by simp) (MemberText.named_written _)⟩

end Texts

end WorkItem

end DocumentPipeline
