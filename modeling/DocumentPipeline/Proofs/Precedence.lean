import DocumentPipeline.Proofs.Variables
import Mathlib

/-! # Which source decides a setting

The environment lies over the file, and the file over the defaults, and this holds for each field
by itself: it does not matter which other fields a source gives, in which order it gives them, and
in which case the names of the variables are written.
-/
namespace DocumentPipeline

open Function (update)

namespace Settings

/-- Values for some of the fields. -/
abbrev Given := Setting → Option UInt64

/-- Each field that is given can be read, so the settings can, and each field that is not given has
its default. -/
theorem ofNamed?_given {α : Type} {read : α → Option UInt64} {entries : List (String × α)}
    {given : Given} (h : ∀ f : Setting, (entries.lookup f.key).map read = (given f).map some) :
    ∃ s, ofNamed? read entries = some s ∧ ∀ f : Setting, f.of s = (given f).getD (f.of {}) := by
  have hfield (f : Setting) : field read (f.of {}) (entries.lookup f.key) =
      some ((given f).getD (f.of {})) := by
    have := h f
    cases hl : entries.lookup f.key with
    | none =>
      cases hg : given f with
      | none => rfl
      | some n => simp [hl, hg] at this
    | some v =>
      cases hg : given f with
      | none => simp [hl, hg] at this
      | some n => simpa [hl, hg, field] using this
  have hq := hfield .queueSize
  have hc := hfield .numClients
  have he := hfield .numEmitters
  have hw := hfield .maxOfferWaitMs
  simp only [Setting.key, Setting.of] at hq hc he hw
  refine ⟨_, by simp only [ofNamed?, ofFields?, hq, hc, he, hw]; rfl, fun f => ?_⟩
  cases f <;> rfl

end Settings

open Settings (Given)

theorem wordOf?_toNat (n : UInt64) : wordOf? n.toNat = some n := by
  have hlt := n.toNat_lt
  have hword : 0 ≤ (n.toNat : Int) ∧ (n.toNat : Int) < 18446744073709551616 := by omega
  rw [wordOf?, if_pos hword]
  simp

/-- A document gives values to fields in its table `processor`, if it has one. Other keys and tables
do not matter. -/
def Toml.Gives (es : Toml.Entries) (given : Given) : Prop :=
  (es.lookup "processor" = none ∧ ∀ f, given f = none) ∨
    ∃ origin sub, es.lookup "processor" = some (.table origin sub) ∧
      ∀ f : Setting, sub.lookup f.key = (given f).map fun n => .scalar (.integer n.toNat)

namespace Layer

/-- A layer gives values to fields in its table `processor`, if it has one. -/
def Gives (es : Entries) (given : Given) : Prop :=
  (es.lookup "processor" = none ∧ ∀ f, given f = none) ∨
    ∃ sub, es.lookup "processor" = some (.table sub) ∧
      ∀ f : Setting, sub.lookup f.key = (given f).map fun n => .integer n.toNat

theorem lookup_ofEntries (es : Toml.Entries) (key : String) :
    (ofEntries es).lookup key = (es.lookup key).map ofDocument := by
  induction es with
  | nil => rfl
  | cons e es ih =>
    obtain ⟨k, v⟩ := e
    rw [ofEntries, List.lookup_cons, List.lookup_cons, ih]
    split <;> rfl

theorem gives_ofEntries {es : Toml.Entries} {given : Given} (h : Toml.Gives es given) :
    Gives (ofEntries es) given := by
  rcases h with ⟨hnone, hgiven⟩ | ⟨origin, sub, hsub, hgiven⟩
  · exact .inl ⟨by rw [lookup_ofEntries, hnone]; rfl, hgiven⟩
  · refine .inr ⟨ofEntries sub, by rw [lookup_ofEntries, hsub]; rfl, fun f => ?_⟩
    rw [lookup_ofEntries, hgiven, Option.map_map]
    rfl

/-- What a layer gives is read from it. -/
theorem Gives.ofLayer? {es : Entries} {given : Given} (h : Gives es given) :
    ∃ c, Config.ofLayer? es = some c ∧
      ∀ f : Setting, f.of c.processor = (given f).getD (f.of {}) := by
  rcases h with ⟨hnone, hgiven⟩ | ⟨sub, hsub, hgiven⟩
  · refine ⟨{}, by rw [Config.ofLayer?, hnone], fun f => ?_⟩
    rw [hgiven]
    rfl
  · have hread : ∀ f : Setting, (sub.lookup f.key).map Value.word? = (given f).map some := by
      intro f
      rw [hgiven, Option.map_map]
      refine congrArg (Option.map · _) (funext fun n => ?_)
      rw [Function.comp_apply, Value.word?, wordOf?_toNat]
    obtain ⟨s, hs, hof⟩ := Settings.ofNamed?_given hread
    refine ⟨⟨s⟩, ?_, hof⟩
    simp [Config.ofLayer?, hsub, Settings.ofLayer?, hs]

section Cover

variable {base top : Entries} {key k : String} {v : Value}

@[simp] theorem lookup_put :
    (Entries.put key v base).lookup k = if k = key then some v else base.lookup k := by
  induction base with
  | nil =>
    by_cases h : k = key
    · simp [Entries.put, h]
    · simp [Entries.put, List.lookup_cons, h, beq_false_of_ne h]
  | cons e es ih =>
    obtain ⟨n, w⟩ := e
    by_cases hn : n = key
    · subst hn
      by_cases h : k = n
      · simp [Entries.put, h]
      · simp [Entries.put, List.lookup_cons, h, beq_false_of_ne h]
    · by_cases h : k = n
      · subst h
        simp [Entries.put, hn]
      · simp [Entries.put, hn, List.lookup_cons, beq_false_of_ne h, ih]

theorem keys_put :
    (base.put key v).map Prod.fst =
      if key ∈ base.map Prod.fst then base.map Prod.fst else base.map Prod.fst ++ [key] := by
  induction base with
  | nil => rfl
  | cons e es ih =>
    obtain ⟨n, w⟩ := e
    by_cases hn : n = key
    · simp [Entries.put, hn]
    · rw [Entries.put, if_neg hn, List.map_cons, ih]
      split
      · next h => simp [h]
      · next h => simp [h, Ne.symm hn]

theorem nodup_put (h : (base.map Prod.fst).Nodup) : ((base.put key v).map Prod.fst).Nodup := by
  rw [keys_put]
  split
  · exact h
  · next hn =>
    rw [List.nodup_append]
    refine ⟨h, List.nodup_singleton _, ?_⟩
    intro k hk l hl he
    apply hn
    rw [← List.mem_singleton.mp hl, ← he]
    exact hk

/-- Of two tables, each key is seen by itself. -/
theorem lookup_cover (h : (top.map Prod.fst).Nodup) :
    (base.cover top).lookup k =
      match top.lookup k with
      | none => base.lookup k
      | some v => some (match base.lookup k with
        | some below => below.cover v
        | none => v) := by
  induction top generalizing base with
  | nil => rw [Entries.cover]; rfl
  | cons e es ih =>
    obtain ⟨n, v⟩ := e
    rw [List.map_cons, List.nodup_cons] at h
    rw [Entries.cover, ih h.2, List.lookup_cons]
    by_cases hk : k = n
    · subst hk
      have hnone : es.lookup k = none := by
        apply List.lookup_eq_none_iff.mpr
        intro x hx
        rw [bne_iff_ne]
        intro he
        apply h.1
        exact List.mem_map.mpr ⟨x, hx, he.symm⟩
      cases base.lookup k <;> simp [hnone]
    · simp [beq_false_of_ne hk, hk]

end Cover

section Environment

/-- The variables of an environment that count each give a number to a field, and these are the
numbers. -/
structure Overrides (environment : List (String × String)) (given : Given) : Prop where
  named : ∀ v ∈ environment, Counts v.1 → ∃ f : Setting, ∃ n, f.Names v.1 ∧ Writes v.2 n
  given : ∀ f n, given f = some n ↔ ∃ v ∈ environment, f.Names v.1 ∧ Writes v.2 n

/-- A layer that gives values to fields and holds nothing else. -/
inductive Overlay (given : Given) : Entries → Prop
  | empty (hgiven : ∀ f, given f = none) : Overlay given []
  | table {sub} (nodup : (sub.map Prod.fst).Nodup)
      (hgiven : ∀ f : Setting, sub.lookup f.key = (given f).map fun n => .integer n.toNat) :
      Overlay given [("processor", .table sub)]

variable {es base : Entries} {seen given below : Given} {f : Setting} {n : UInt64}
  {name value : String} {environment : List (String × String)}

/-- One more variable is laid over the ones before. -/
theorem Overlay.cover (h : Overlay seen es) :
    Overlay (update seen f (some n))
      (es.cover [("processor", .table [(f.key, .integer n.toNat)])]) := by
  -- the table of the variables before, in which the field is set
  have set (sub : Entries) (nodup : (sub.map Prod.fst).Nodup)
      (hgiven : ∀ g : Setting, sub.lookup g.key = (seen g).map fun n => .integer n.toNat) :
      Overlay (update seen f (some n))
        [("processor", .table (sub.put f.key (.integer n.toNat)))] := by
    refine .table (nodup_put nodup) fun g => ?_
    by_cases hg : g = f
    · subst hg
      simp
    · have hkey : g.key ≠ f.key := fun he => hg (Setting.key_injective he)
      simp [hg, hkey, hgiven]
  cases h with
  | empty hgiven => exact set [] List.nodup_nil fun g => by simp [hgiven]
  | @table sub nodup hgiven =>
    have hcover : Entries.cover [("processor", .table sub)]
        [("processor", .table [(f.key, .integer n.toNat)])] =
          [("processor", .table (Entries.put f.key (.integer n.toNat) sub))] := by
      simp only [Entries.cover, Value.cover, Entries.put, List.lookup_cons, beq_self_eq_true,
        if_true]
      cases List.lookup f.key sub <;> rfl
    exact hcover ▸ set sub nodup hgiven

/-- All variables are laid over one another. -/
theorem Overlay.foldl (h : Overlay seen es)
    (hgiven : ∀ f n, seen f = some n → given f = some n)
    (hvars : ∀ v ∈ environment, Counts v.1 →
      ∃ f : Setting, ∃ n, f.Names v.1 ∧ Writes v.2 n ∧ given f = some n) :
    ∃ all, Overlay all (environment.foldl (fun es v => es.cover (ofVariable v.1 v.2)) es) ∧
      (∀ f n, all f = some n → given f = some n) ∧ (∀ f, (seen f).isSome → (all f).isSome) ∧
      ∀ v ∈ environment, ∀ f : Setting, f.Names v.1 → (all f).isSome := by
  induction environment generalizing es seen with
  | nil => exact ⟨seen, h, hgiven, fun _ => id, by simp⟩
  | cons v environment ih =>
    obtain ⟨name, value⟩ := v
    have hrest := fun v hv => hvars v (List.mem_cons_of_mem _ hv)
    by_cases hc : Counts name
    · obtain ⟨f, n, hf, hw, hn⟩ := hvars _ List.mem_cons_self hc
      have hupdate : ∀ g m, update seen f (some n) g = some m → given g = some m := by
        intro g m hg
        by_cases he : g = f
        · subst he
          simpa [hn] using hg
        · exact hgiven g m (by simpa [he] using hg)
      obtain ⟨all, hall, hagrees, hkept, hnamed⟩ := ih (h.cover (f := f) (n := n)) hupdate hrest
      refine ⟨all, ?_, hagrees, fun g hg => hkept g ?_, fun v hv g hg => ?_⟩
      · rw [List.foldl_cons, ofVariable_of_names hf hw]
        exact hall
      · by_cases he : g = f <;> simp [he, hg]
      · rcases List.mem_cons.mp hv with rfl | hv
        · have hfg := (pathOf?_of_names hf).symm.trans (pathOf?_of_names hg)
          obtain rfl : f = g := Setting.key_injective (by simpa using hfg)
          exact hkept f (by simp)
        · exact hnamed v hv g hg
    · obtain ⟨all, hall, hagrees, hkept, hnamed⟩ := ih h hgiven hrest
      refine ⟨all, ?_, hagrees, hkept, fun v hv g hg => ?_⟩
      · rw [List.foldl_cons, ofVariable_of_not_counts hc, Entries.cover]
        exact hall
      · rcases List.mem_cons.mp hv with rfl | hv
        · exact absurd (counts_of_names hg) hc
        · exact hnamed v hv g hg

/-- The layer of an environment gives the numbers of its variables. -/
theorem Overrides.overlay (h : Overrides environment given) :
    Overlay given (ofEnvironment environment) := by
  have hvars : ∀ v ∈ environment, Counts v.1 →
      ∃ f : Setting, ∃ n, f.Names v.1 ∧ Writes v.2 n ∧ given f = some n := by
    intro v hv hc
    obtain ⟨f, n, hf, hw⟩ := h.named v hv hc
    exact ⟨f, n, hf, hw, (h.given f n).mpr ⟨v, hv, hf, hw⟩⟩
  have hempty : Overlay (fun _ => none) [] := .empty fun _ => rfl
  obtain ⟨all, hall, hagrees, -, hnamed⟩ := hempty.foldl (by simp) hvars
  have heq : all = given := by
    funext f
    cases hg : given f with
    | none =>
      refine Option.eq_none_iff_forall_ne_some.mpr fun n hn => ?_
      cases hg.symm.trans (hagrees f n hn)
    | some n =>
      obtain ⟨v, hv, hf, -⟩ := (h.given f n).mp hg
      obtain ⟨m, hm⟩ := Option.isSome_iff_exists.mp (hnamed v hv f hf)
      exact hm.trans ((hagrees f m hm).symm.trans hg)
  exact heq ▸ hall

/-- What a layer gives is seen over what the layer below gives, field by field. -/
theorem Gives.cover (hbase : Gives base below) (h : Overlay given es) :
    Gives (base.cover es) fun f => (given f).or (below f) := by
  cases h with
  | empty hgiven =>
    simpa [Entries.cover, hgiven] using hbase
  | @table sub nodup hgiven =>
    have hlookup := @lookup_cover base [("processor", .table sub)] "processor"
      (List.nodup_singleton _)
    simp only [List.lookup_cons, beq_self_eq_true] at hlookup
    rcases hbase with ⟨hnone, hbelow⟩ | ⟨bs, hbs, hbelow⟩
    · rw [hnone] at hlookup
      exact .inr ⟨sub, hlookup, fun f => by simp [hgiven, hbelow]⟩
    · rw [hbs] at hlookup
      refine .inr ⟨Entries.cover bs sub, hlookup, fun f => ?_⟩
      rw [lookup_cover nodup, hgiven]
      dsimp only
      cases given f with
      | none => simpa using hbelow f
      | some n => cases bs.lookup f.key <;> simp [Value.cover]

end Environment

end Layer

/-- A file that gives values to some of the fields, and an environment that overrides some of them,
load without an error. Each field has the value of the environment if there is one, or else that of
the file if there is one, or else its default. -/
theorem Config.load_precedence (path : String) {text : String} {content : ByteArray}
    {es : Toml.Entries} {environment : List (String × String)} {inFile overridden : Given}
    (htext : String.fromUTF8? content = some text) (hread : Toml.read? text = some es)
    (hfile : Toml.Gives es inFile) (henv : Layer.Overrides environment overridden) :
    ∃ c, Config.load path (.file content) environment = .ok c ∧
      ∀ f : Setting, f.of c.processor = (overridden f).getD ((inFile f).getD (f.of {})) := by
  have hgives := (Layer.gives_ofEntries hfile).cover henv.overlay
  obtain ⟨c, hc, hof⟩ := hgives.ofLayer?
  have hcontent : Layer.ofContent? content = some (Layer.ofEntries es) := by
    simp [Layer.ofContent?, htext, hread]
  refine ⟨c, ?_, fun f => ?_⟩
  · simp only [Config.load, Layer.ofSource, hcontent, bind, Except.bind, hc]
  · rw [hof]
    cases overridden f <;> rfl

/-- A document with two fields in no particular order, and keys that name none. -/
def mixedDocument : String :=
  "[other]\nqueue_size = 1\n[processor]\nnum_emitters = 3\ncolour = \"red\"\nqueue_size = 64\n"

/-- The tables of the document. -/
def mixedTables : Toml.Entries :=
  [("other", .table .opened [("queue_size", .scalar (.integer 1))]),
    ("processor", .table .opened [("num_emitters", .scalar (.integer 3)),
      ("colour", .scalar (.text "red")), ("queue_size", .scalar (.integer 64))])]

/-- The names of the variables are in mixed case, and one of them does not count. -/
def mixedEnvironment : List (String × String) :=
  [("docpipe_PROCESSOR__Num_Clients", "08"), ("PATH", "/bin"),
    ("DOCPIPE_processor__NUM_EMITTERS", "5")]

theorem read_mixedDocument : Toml.read? mixedDocument = some mixedTables := by
  cbv

theorem overrides_mixedEnvironment :
    Layer.Overrides mixedEnvironment
      fun | .numClients => some 8 | .numEmitters => some 5 | _ => none := by
  constructor
  · intro v hv hc
    simp only [mixedEnvironment, List.mem_cons, List.not_mem_nil, or_false] at hv
    rcases hv with rfl | rfl | rfl
    · exact ⟨.numClients, 8, by decide, by decide⟩
    · exact absurd hc (by decide)
    · exact ⟨.numEmitters, 5, by decide, by decide⟩
  intro f n
  constructor
  · intro hn
    cases f with
    | queueSize | maxOfferWaitMs => cases hn
    | numClients =>
      cases hn
      exact ⟨("docpipe_PROCESSOR__Num_Clients", "08"), by simp [mixedEnvironment], by decide⟩
    | numEmitters =>
      cases hn
      exact ⟨("DOCPIPE_processor__NUM_EMITTERS", "5"), by simp [mixedEnvironment], by decide⟩
  · rintro ⟨v, hv, hf, -, -, hn⟩
    simp only [mixedEnvironment, List.mem_cons, List.not_mem_nil, or_false] at hv
    rcases hv with rfl | rfl | rfl
    · cases f with
      | numClients => exact congrArg some (UInt64.toNat_inj.mp hn)
      | _ => exact absurd hf (by decide)
    · exact absurd hf (by cases f <;> decide)
    · cases f with
      | numEmitters => exact congrArg some (UInt64.toNat_inj.mp hn)
      | _ => exact absurd hf (by decide)

theorem mixedDocument_load :
    ∃ c, Config.load "settings.toml" (.file mixedDocument.toUTF8) mixedEnvironment = .ok c ∧
      c.processor = ⟨64, 8, 5, 120000⟩ := by
  have htext : String.fromUTF8? mixedDocument.toUTF8 = some mixedDocument := by
    rw [String.fromUTF8?, String.toUTF8_eq_toByteArray, dif_pos (String.isValidUTF8 _)]
    rfl
  have hfile : Toml.Gives mixedTables
      fun | .queueSize => some 64 | .numEmitters => some 3 | _ => none :=
    .inr ⟨_, _, rfl, fun f => by cases f <;> rfl⟩
  obtain ⟨c, hc, hof⟩ := Config.load_precedence "settings.toml" htext read_mixedDocument hfile
    overrides_mixedEnvironment
  have hq := hof .queueSize
  have hn := hof .numClients
  have he := hof .numEmitters
  have hw := hof .maxOfferWaitMs
  refine ⟨c, hc, ?_⟩
  obtain ⟨q, n, e, w⟩ := c
  simp_all [Setting.of]

end DocumentPipeline
