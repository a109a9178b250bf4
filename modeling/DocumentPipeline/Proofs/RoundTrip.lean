import DocumentPipeline.Json.Records
import DocumentPipeline.Proofs.KnownFields
import DocumentPipeline.Proofs.Trees

/-! # Round trip of the data model

Each reader of the data model takes the tree of a written value back to that value: a
record because its members fill the slots of its fields, metadata because its names are
met in order. Decoding the text that was written therefore gives the value back.
-/
namespace DocumentPipeline

namespace Json

section Scalars

@[simp] theorem readString_node (s : String) : readString (node (.text s)) = .ok s := by
  simp [node, readString]

theorem kind_numeral {n : Nat} (hn : n < 18446744073709551616) :
    (numeral n).kind = .word n.toUInt64 := by
  simp [Numeral.kind, numeral, Nat.ofDigitChars_ten_toDigits, hn]

@[simp] theorem readWord_node (w : UInt64) : readWord (node (.natural w.toNat)) = .ok w := by
  simp [node, readWord, kind_numeral w.toNat_lt]

theorem readVariant_node {α : Type} {variants : List (String × α)} {name : String} {a : α}
    (h : variants.lookup name = some a) : readVariant variants (node (.text name)) = .ok a := by
  simp [node, readVariant, readVariantName, h]

/-- A list of written values is read one by one. -/
theorem readList_node {α : Type} {read : Node → Result α} {toJson : α → Json}
    (hread : ∀ a, read (node (toJson a)) = .ok a) (as : List α) :
    readList read (node (.array (as.map toJson))) = .ok as := by
  have hitems : (itemNodes (as.map toJson)).mapM read = .ok as := by
    induction as with
    | nil => rfl
    | cons a as ih => simp [itemNodes, hread, ih]
  simp [node, readList, hitems, close]

end Scalars

section Records

variable {fields : List Field} {ms : List (String × Json)}

/-- The slots that the members of a written record fill, latest first. -/
def slots (ms : List (String × Json)) : Slots := (ms.map fun m => (m.1, node m.2)).reverse

/-- The members of a record that is written with its fields. -/
structure Record (fields : List Field) (ms : List (String × Json)) : Prop where
  nodup : (ms.map Prod.fst).Nodup
  takes : ∀ m ∈ ms, ∃ f, fields.find? (·.name = m.1) = some f ∧ f.check (node m.2) = .ok ()
  complete : ∀ f ∈ fields, f.presence = .required → f.name ∈ ms.map Prod.fst

theorem map_fst_slots (ms : List (String × Json)) :
    (slots ms).map Prod.fst = (ms.map Prod.fst).reverse := by
  simp [slots, Function.comp_def]

theorem lookup_slots_eq_none {k : String} (hk : k ∉ ms.map Prod.fst) :
    (slots ms).lookup k = none := by
  rwa [lookup_eq_none_iff, map_fst_slots, List.mem_reverse]

theorem memberNodes_eq (ms : List (String × Json)) :
    memberNodes ms = ms.map fun m => (.name (textOf m.1), node m.2) := by
  induction ms with
  | nil => rfl
  | cons m ms ih => rw [memberNodes, ih, List.map_cons]

namespace Record

variable (h : Record fields ms)

include h

theorem lookup_eq {k : String} {v : Json} (hm : (k, v) ∈ ms) :
    (slots ms).lookup k = some (node v) := by
  have hkeys : ((slots ms).map Prod.fst).Nodup := by
    rw [map_fst_slots, List.nodup_reverse]
    exact h.nodup
  rw [lookup_eq_some_iff hkeys, slots, List.mem_reverse]
  exact List.mem_map.mpr ⟨(k, v), hm, rfl⟩

theorem known_eq : (known fields (memberNodes ms)).reverse = slots ms := by
  have hgiven : (memberNodes ms).filterMap (given? fields) =
      ms.filterMap fun m => some (m.1, node m.2) := by
    rw [memberNodes_eq, List.filterMap_map]
    refine List.filterMap_congr fun m hm => ?_
    obtain ⟨f, hfind, -⟩ := h.takes m hm
    simp [given?, readLabel, hfind]
  rw [known, hgiven, List.filterMap_eq_map', slots]

theorem fits : Fits fields (memberNodes ms) where
  takes n hn := by
    rw [memberNodes_eq] at hn
    obtain ⟨m, hm, rfl⟩ := List.mem_map.mp hn
    obtain ⟨f, hfind, hcheck⟩ := h.takes m hm
    exact .known (value_textOf m.1) hfind hcheck
  nodup := by
    rw [← List.nodup_reverse, ← List.map_reverse, h.known_eq, map_fst_slots, List.nodup_reverse]
    exact h.nodup
  complete f hf hreq := by
    rw [← List.mem_reverse, ← List.map_reverse, h.known_eq, map_fst_slots, List.mem_reverse]
    exact h.complete f hf hreq

theorem readSlots_eq : readSlots fields (node (.object ms)) = .ok (slots ms) :=
  readSlots_eq_ok_iff.mpr ⟨h.fits, h.known_eq.symm⟩

variable {α : Type} (read : Node → Result α) {k : String} {v : Json}

theorem get_eq (hm : (k, v) ∈ ms) : (slots ms).get k read = read (node v) := by
  rw [Slots.get, h.lookup_eq hm]

theorem getD_eq (default : α) (hm : (k, v) ∈ ms) :
    (slots ms).getD k read default = read (node v) := by
  rw [Slots.getD, h.lookup_eq hm]

end Record

end Records

end Json

open Json

namespace Attribute

/-- A name after all others comes last. -/
theorem alter_of_before {k : String} (f : List String → List String) {es : List Attribute}
    (h : ∀ e ∈ es, NameBefore e.1 k) : alter k f es = es ++ [(k, f [])] := by
  induction es with
  | nil => rfl
  | cons e es ih =>
    have hlt : NameBefore e.1 k := h e List.mem_cons_self
    have hne : k ≠ e.1 := fun heq => NameBefore.irrefl e.1 (heq ▸ hlt)
    have hnlt : ¬ NameBefore k e.1 := fun hgt => NameBefore.irrefl e.1 (hlt.trans hgt)
    rw [alter, if_neg hne, if_neg hnlt, ih fun e he => h e (List.mem_cons_of_mem _ he),
      List.cons_append]

end Attribute

namespace Metadata

/-- The member that an attribute is written as. -/
def member (e : Attribute) : String × Json := (e.1, .array (e.2.map .text))

theorem readMember_node (m : Metadata) (e : Attribute) :
    readMember m (.name (textOf (member e).1), node (member e).2) = .ok (m.put e.1 e.2) := by
  simp [readMember, readLabel, member, readList_node readString_node]

/-- Attributes that come in the order of their names are put one after the other. -/
theorem foldlM_readMember (es done : List Attribute) (hdone : Attribute.Sorted done)
    (h : Attribute.Sorted (done ++ es)) :
    (memberNodes (es.map member)).foldlM readMember ⟨done, hdone⟩ = .ok ⟨done ++ es, h⟩ := by
  induction es generalizing done with
  | nil => simp [memberNodes]
  | cons e es ih =>
    have hbefore : ∀ a ∈ done, NameBefore a.1 e.1 := fun a ha =>
      (List.pairwise_append.1 h).2.2 a ha e List.mem_cons_self
    have hsplit : Attribute.Sorted (done ++ [e] ++ es) := by simpa using h
    have hnext : Attribute.Sorted (done ++ [e]) := (List.pairwise_append.1 hsplit).1
    have hput : put ⟨done, hdone⟩ e.1 e.2 = ⟨done ++ [e], hnext⟩ := by
      simp only [put, alter, Attribute.alter_of_before _ hbefore]
    rw [List.map_cons, memberNodes, List.foldlM_cons, readMember_node, hput, Result.ok_bind,
      ih _ hnext hsplit]
    simp

theorem read_node (m : Metadata) : read (node m.toJson) = .ok m := by
  have hmembers := foldlM_readMember m.toList [] .nil m.sorted
  change (memberNodes (m.toList.map member)).foldlM readMember empty = .ok m at hmembers
  change read (node (.object (m.toList.map member))) = .ok m
  simp [read, node, hmembers, close]

end Metadata

section Records

theorem FetchKey.read_node (k : FetchKey) : read (node k.toJson) = .ok k := by
  have hrecord : Record fields [("fetcher_name", .text k.fetcher), ("fetch_key", .text k.key)] :=
    ⟨by simp, by simp [fields, Field.of], by simp [fields, Field.of]⟩
  simp [read, toJson, hrecord.readSlots_eq, hrecord.get_eq]

theorem EmitKey.read_node (k : EmitKey) : read (node k.toJson) = .ok k := by
  have hrecord : Record fields [("emitter_name", .text k.emitter), ("emit_key", .text k.key)] :=
    ⟨by simp, by simp [fields, Field.of], by simp [fields, Field.of]⟩
  simp [read, toJson, hrecord.readSlots_eq, hrecord.get_eq]

theorem ExceptionPolicy.read_node (p : ExceptionPolicy) : read (node p.toJson) = .ok p :=
  readVariant_node (by cases p <;> rfl)

theorem WorkItem.read_node (w : WorkItem) : read (node w.toJson) = .ok w := by
  have hrecord : Record fields [("id", .text w.id), ("fetch_key", w.fetchKey.toJson),
      ("emit_key", w.emitKey.toJson), ("metadata", w.metadata.toJson),
      ("on_parse_exception", w.onException.toJson)] :=
    ⟨by simp, by simp [fields, Field.of, FetchKey.read_node, EmitKey.read_node,
      Metadata.read_node, ExceptionPolicy.read_node], by simp [fields, Field.of]⟩
  simp [read, toJson, hrecord.readSlots_eq, hrecord.get_eq, hrecord.getD_eq, FetchKey.read_node,
    EmitKey.read_node, Metadata.read_node, ExceptionPolicy.read_node]

theorem Payload.read_node (p : Payload) : read (node p.toJson) = .ok p := by
  have hlist := readList_node Metadata.read_node p.documents
  have hrecord : Record fields [("emit_key", p.emitKey.toJson),
      ("metadata_list", .array (p.documents.map (·.toJson)))] :=
    ⟨by simp, by simp [fields, Field.of, EmitKey.read_node, hlist], by simp [fields, Field.of]⟩
  simp [read, toJson, hrecord.readSlots_eq, hrecord.get_eq, EmitKey.read_node, hlist]

theorem Settings.read_node (s : Settings) : read (node s.toJson) = .ok s := by
  have hrecord : Record fields [("queue_size", .natural s.queueSize.toNat),
      ("num_clients", .natural s.numClients.toNat),
      ("num_emitters", .natural s.numEmitters.toNat),
      ("max_offer_wait_ms", .natural s.maxOfferWaitMs.toNat)] :=
    ⟨by simp, by simp [fields, Field.of], by simp [fields, Field.of]⟩
  simp [read, toJson, hrecord.readSlots_eq, hrecord.getD_eq]

theorem Config.read_node (c : Config) : read (node c.toJson) = .ok c := by
  have hrecord : Record fields [("processor", c.processor.toJson)] :=
    ⟨by simp, by simp [fields, Field.of, Settings.read_node], by simp [fields, Field.of]⟩
  simp [read, toJson, hrecord.readSlots_eq, hrecord.getD_eq, Settings.read_node]

end Records

/-- Decoding the text written for a value gives the value back. -/
def RoundTrips {α : Type} (read : Node → Result α) (toJson : α → Json) : Prop :=
  ∀ a, decode read (toJson a).render = .ok a

theorem RoundTrips.of_node {α : Type} {read : Node → Result α} {toJson : α → Json}
    (h : ∀ a, read (node (toJson a)) = .ok a) : RoundTrips read toJson := fun a =>
  (decode_render read (toJson a)).trans (h a)

/-- Every value of the data model is recovered from the text written for it, whatever its
strings, names, lists and words are. -/
theorem dataModel_roundTrips :
    RoundTrips WorkItem.read WorkItem.toJson ∧ RoundTrips Payload.read Payload.toJson ∧
      RoundTrips Metadata.read Metadata.toJson ∧ RoundTrips FetchKey.read FetchKey.toJson ∧
      RoundTrips EmitKey.read EmitKey.toJson ∧ RoundTrips Settings.read Settings.toJson ∧
      RoundTrips Config.read Config.toJson :=
  ⟨.of_node WorkItem.read_node, .of_node Payload.read_node, .of_node Metadata.read_node,
    .of_node FetchKey.read_node, .of_node EmitKey.read_node, .of_node Settings.read_node,
    .of_node Config.read_node⟩

end DocumentPipeline
