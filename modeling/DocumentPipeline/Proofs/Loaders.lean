import DocumentPipeline.Proofs.Precedence

/-! # What a document sets

A document is read on its own, or as the only layer of a configuration. In both ways the value of
`processor` decides: a table sets fields by name and a list by position, a field that is not set
has its default, and one that is set must be an integer of the document that is a word.
-/
namespace DocumentPipeline

/-- The place of a field in a list of values. -/
def Setting.index : Setting → Nat
  | queueSize => 0
  | numClients => 1
  | numEmitters => 2
  | maxOfferWaitMs => 3

theorem wordOf?_eq_some_iff {m : Int} {n : UInt64} : wordOf? m = some n ↔ m = n.toNat := by
  constructor
  · intro h
    unfold wordOf? at h
    split at h
    · next hword =>
      obtain rfl := Option.some.inj h
      rw [Nat.toUInt64, UInt64.toNat_ofNat']
      omega
    · cases h
  · rintro rfl
    exact wordOf?_toNat n

theorem Toml.Value.word?_eq_some_iff {v : Toml.Value} {n : UInt64} :
    v.word? = some n ↔ v = .scalar (.integer n.toNat) := by
  unfold word?
  split
  · rw [wordOf?_eq_some_iff]
    simp
  · next hne =>
    constructor
    · nofun
    · intro h
      exact absurd h (hne _)

namespace Settings

variable {α : Type} {s : Settings}

/-- Settings are read if each field is. -/
theorem ofFields?_eq_some_iff (read : α → Option UInt64) (given : Setting → Option α) :
    ofFields? read (given .queueSize) (given .numClients) (given .numEmitters)
      (given .maxOfferWaitMs) = some s ↔
        ∀ f : Setting, field read (f.of {}) (given f) = some (f.of s) := by
  simp only [ofFields?, Option.bind_eq_bind, Option.bind_eq_some_iff]
  constructor
  · rintro ⟨q, hq, c, hc, e, he, w, hw, hs⟩ f
    obtain rfl := Option.some.inj hs
    cases f
    · exact hq
    · exact hc
    · exact he
    · exact hw
  · intro h
    exact ⟨_, h .queueSize, _, h .numClients, _, h .numEmitters, _, h .maxOfferWaitMs, rfl⟩

/-- A field has the number that is given for it, or its default if nothing is given. -/
def Fills (given : Option Toml.Value) (default n : UInt64) : Prop :=
  given = none ∧ n = default ∨ given = some (.scalar (.integer n.toNat))

theorem field_eq_some_iff {given : Option Toml.Value} {default n : UInt64} :
    field Toml.Value.word? default given = some n ↔ Fills given default n := by
  cases given with
  | none => simp [field, Fills, eq_comm]
  | some v => simp [field, Fills, Toml.Value.word?_eq_some_iff]

end Settings

open Settings (Fills)

/-- What a value of a document sets. -/
inductive Toml.Value.Sets : Toml.Value → Settings → Prop
  | table {origin : Origin} {es : Entries} {s : Settings}
      (h : ∀ f : Setting, Fills (es.lookup f.key) (f.of {}) (f.of s)) : Sets (.table origin es) s
  | list {growing : Bool} {items : List Toml.Value} {s : Settings}
      (h : ∀ f : Setting, Fills items[f.index]? (f.of {}) (f.of s)) : Sets (.list growing items) s
  /-- A date or time sets no field. -/
  | moment {written : String} : Sets (.scalar (.moment written)) {}

theorem Settings.ofDocument?_eq_some_iff {v : Toml.Value} {s : Settings} :
    ofDocument? v = some s ↔ v.Sets s := by
  cases v with
  | scalar x =>
    cases x with
    | moment w =>
      constructor
      · intro h
        obtain rfl := Option.some.inj h
        exact .moment
      · rintro ⟨⟩
        rfl
    | _ => exact ⟨nofun, nofun⟩
  | list growing items =>
    have hread := @ofFields?_eq_some_iff _ s Toml.Value.word? fun f => items[f.index]?
    simp only [field_eq_some_iff] at hread
    constructor
    · intro h
      exact .list (hread.mp h)
    · rintro ⟨⟩
      exact hread.mpr ‹_›
  | table origin es =>
    have hread := @ofFields?_eq_some_iff _ s Toml.Value.word? fun f => es.lookup f.key
    simp only [field_eq_some_iff] at hread
    constructor
    · intro h
      exact .table (hread.mp h)
    · rintro ⟨⟩
      exact hread.mpr ‹_›

/-- What the root of a document sets: without `processor`, everything has its default. -/
def Toml.Configures (es : Toml.Entries) (c : Config) : Prop :=
  es.lookup "processor" = none ∧ c = {} ∨
    ∃ v, es.lookup "processor" = some v ∧ v.Sets c.processor

theorem Config.ofEntries?_eq_some_iff {es : Toml.Entries} {c : Config} :
    ofEntries? es = some c ↔ Toml.Configures es c := by
  unfold ofEntries? Toml.Configures
  cases es.lookup "processor" with
  | none => simp [eq_comm]
  | some v =>
    simp only [Option.map_eq_some_iff, Settings.ofDocument?_eq_some_iff]
    constructor
    · rintro ⟨s, hs, rfl⟩
      exact .inr ⟨v, rfl, hs⟩
    · rintro (⟨hnone, -⟩ | ⟨w, hw, hs⟩)
      · cases hnone
      · obtain rfl := Option.some.inj hw
        exact ⟨c.processor, hs, rfl⟩

namespace Layer

theorem word?_ofDocument (v : Toml.Value) : (ofDocument v).word? = v.word? := by
  cases v with
  | scalar x => cases x <;> rfl
  | list | table => rfl

theorem ofItems_eq_map (vs : List Toml.Value) : ofItems vs = vs.map ofDocument := by
  induction vs with
  | nil => rfl
  | cons v vs ih => rw [ofItems, ih, List.map_cons]

/-- A field is read from a layer as from the document. -/
theorem field_map (default : UInt64) (given : Option Toml.Value) :
    Settings.field Value.word? default (given.map ofDocument) =
      Settings.field Toml.Value.word? default given := by
  cases given with
  | none => rfl
  | some v => exact word?_ofDocument v

/-- Made a layer, a value of a document gives the same settings. -/
theorem settings_ofDocument (v : Toml.Value) :
    Settings.ofLayer? (ofDocument v) = Settings.ofDocument? v := by
  cases v with
  | scalar x => cases x <;> rfl
  | list growing items =>
    simp only [ofDocument, Settings.ofLayer?, Settings.ofDocument?, Settings.ofItems?,
      Settings.ofFields?, ofItems_eq_map, List.getElem?_map, field_map]
  | table origin es =>
    simp only [ofDocument, Settings.ofLayer?, Settings.ofDocument?, Settings.ofNamed?,
      Settings.ofFields?, lookup_ofEntries, field_map]

theorem config_ofEntries (es : Toml.Entries) :
    Config.ofLayer? (ofEntries es) = Config.ofEntries? es := by
  rw [Config.ofLayer?, Config.ofEntries?, lookup_ofEntries]
  cases es.lookup "processor" with
  | none => rfl
  | some v =>
    simp only [Option.map_some, settings_ofDocument]

/-- Variables that do not count leave no layer. -/
theorem ofEnvironment_of_not_counts {environment : List (String × String)}
    (h : ∀ v ∈ environment, ¬ Counts v.1) : ofEnvironment environment = [] := by
  rw [ofEnvironment]
  induction environment with
  | nil => rfl
  | cons v environment ih =>
    have hv : ofVariable v.1 v.2 = [] := ofVariable_of_not_counts (h v List.mem_cons_self)
    rw [List.foldl_cons]
    dsimp only
    rw [hv, Entries.cover]
    exact ih fun w hw => h w (List.mem_cons_of_mem _ hw)

end Layer

theorem fromUTF8?_toUTF8 (text : String) : String.fromUTF8? text.toUTF8 = some text := by
  rw [String.fromUTF8?, String.toUTF8_eq_toByteArray, dif_pos (String.isValidUTF8 _)]
  rfl

section Loading

variable {environment : List (String × String)}

/-- A file with nothing laid over it is loaded as its text is read. -/
theorem Config.load_text (path text : String) (h : ∀ v ∈ environment, ¬ Layer.Counts v.1) :
    Config.load path (.file text.toUTF8) environment = Config.ofToml text := by
  have hcontent : Layer.ofContent? text.toUTF8 = (Toml.read? text).map Layer.ofEntries := by
    rw [Layer.ofContent?, fromUTF8?_toUTF8]
    change (Toml.read? text).bind _ = _
    cases Toml.read? text <;> rfl
  rw [Config.load, Config.ofToml, Layer.ofSource, hcontent,
    Layer.ofEnvironment_of_not_counts h]
  cases Toml.read? text with
  | none => rfl
  | some es =>
    have hlayer : Config.ofLayer? ((Layer.ofEntries es).cover []) = Config.ofEntries? es :=
      Layer.config_ofEntries es
    cases hconfig : Config.ofEntries? es <;>
      simp [bind, Except.bind, hlayer, hconfig]

/-- A text is accepted if it is a document that configures something. -/
theorem Config.ofToml_eq_ok_iff {text : String} {c : Config} :
    Config.ofToml text = .ok c ↔
      ∃ es, Toml.read? text = some es ∧ Toml.Configures es c := by
  simp only [← ofEntries?_eq_some_iff, ofToml]
  cases Toml.read? text with
  | none => simp
  | some es =>
    dsimp only
    cases hes : ofEntries? es <;> simp [hes]

theorem Config.exists_parse_of_ofToml_error {text : String} {e : ConfigError}
    (h : Config.ofToml text = .error e) : ∃ reason, e = .parse reason := by
  unfold ofToml at h
  split at h
  · exact ⟨_, (Except.error.inj h).symm⟩
  · split at h
    · exact ⟨_, (Except.error.inj h).symm⟩
    · cases h

/-- A text by itself and a file with that text, loaded where no variable counts, are accepted
together. What they set is then the same and is what the document sets; a text that is no document
or sets nothing suitable is refused as such in both ways. -/
theorem Config.loaders_agree (path text : String)
    (h : ∀ v ∈ environment, ¬ Layer.Counts v.1) :
    (∃ es c, Toml.read? text = some es ∧ Toml.Configures es c ∧ Config.ofToml text = .ok c ∧
      Config.load path (.file text.toUTF8) environment = .ok c) ∨
    ((¬ ∃ es c, Toml.read? text = some es ∧ Toml.Configures es c) ∧
      ∃ r r', Config.ofToml text = .error (.parse r) ∧
        Config.load path (.file text.toUTF8) environment = .error (.parse r')) := by
  rw [Config.load_text path text h]
  cases hread : Config.ofToml text with
  | ok c =>
    obtain ⟨es, hes, hc⟩ := Config.ofToml_eq_ok_iff.mp hread
    exact .inl ⟨es, c, hes, hc, rfl, rfl⟩
  | error e =>
    obtain ⟨r, rfl⟩ := Config.exists_parse_of_ofToml_error hread
    refine .inr ⟨?_, r, r, rfl, rfl⟩
    rintro ⟨es, c, hes, hc⟩
    rw [Config.ofToml_eq_ok_iff.mpr ⟨es, hes, hc⟩] at hread
    cases hread

end Loading

/-- A document that sets two fields by position. -/
def listDocument : String := "processor = [5, 0x10] # the first two\n"

theorem read_listDocument : Toml.read? listDocument =
    some [("processor", .list false [.scalar (.integer 5), .scalar (.integer 16)])] := by
  cbv

/-- A document that gives a field a number below zero. -/
def negativeDocument : String := "processor = {num_clients = -1}"

theorem read_negativeDocument : Toml.read? negativeDocument =
    some [("processor", .table .braced [("num_clients", .scalar (.integer (-1)))])] := by
  cbv

theorem listDocument_agree :
    (∀ v ∈ [("PATH", "/bin")], ¬ Layer.Counts v.1) ∧
      Config.ofToml listDocument = .ok ⟨⟨5, 16, 1, 120000⟩⟩ ∧
      Config.load "settings.toml" (.file listDocument.toUTF8) [("PATH", "/bin")] =
        .ok ⟨⟨5, 16, 1, 120000⟩⟩ ∧
      ∃ r r', Config.ofToml negativeDocument = .error (.parse r) ∧
        Config.load "settings.toml" (.file negativeDocument.toUTF8) [("PATH", "/bin")] =
          .error (.parse r') := by
  have hpath : ∀ v ∈ [("PATH", "/bin")], ¬ Layer.Counts v.1 := by
    intro v hv
    obtain rfl := List.mem_singleton.mp hv
    decide
  have hlist : Config.ofToml listDocument = .ok ⟨⟨5, 16, 1, 120000⟩⟩ := by
    refine Config.ofToml_eq_ok_iff.mpr ⟨_, read_listDocument, .inr ⟨_, rfl, .list fun f => ?_⟩⟩
    cases f
    · exact .inr rfl
    · exact .inr rfl
    · exact .inl ⟨rfl, rfl⟩
    · exact .inl ⟨rfl, rfl⟩
  refine ⟨hpath, hlist, ?_, ?_⟩
  · rcases Config.loaders_agree "settings.toml" listDocument hpath with
      ⟨es, c, -, -, hc, hload⟩ | ⟨-, r, r', hr, -⟩
    · rw [hload, ← hc, hlist]
    · rw [hlist] at hr
      cases hr
  · rcases Config.loaders_agree "settings.toml" negativeDocument hpath with
      ⟨es, c, hread, hc, -⟩ | ⟨-, hrefused⟩
    · have hunsuitable : Config.ofToml negativeDocument = .error .unsuitable := by
        rw [Config.ofToml, read_negativeDocument]
        rfl
      rw [Config.ofToml_eq_ok_iff.mpr ⟨es, hread, hc⟩] at hunsuitable
      cases hunsuitable
    · exact hrefused

end DocumentPipeline
