import DocumentPipeline.Proofs.Frames
import DocumentPipeline.Proofs.Variables

/-! # What a pipeline is built from

The ceiling of the hand-offs is kept as a word of whole milliseconds. A span below 2^64 of them is
kept to the millisecond; a longer one is cut to what its milliseconds leave modulo 2^64. Settings
are valid if no field is 0. From valid settings an empty pipeline is built, unless their intake queue
is larger than any queue can be.
-/
namespace DocumentPipeline

namespace Span

theorem toNanos_injective {d e : Span} (h : d.toNanos = e.toNanos) : d = e := by
  obtain ⟨s, n, hn⟩ := d
  obtain ⟨t, m, hm⟩ := e
  simp only [toNanos] at h
  have hseconds : s = t := UInt64.toNat_inj.mp (by omega)
  subst hseconds
  have hnanos : n = m := by omega
  subst hnanos
  rfl

theorem millis_eq (d : Span) : d.millis = d.toNanos / 1000000 := by
  unfold millis toNanos
  omega

theorem millis_mono {d e : Span} (h : d.toNanos ≤ e.toNanos) : d.millis ≤ e.millis := by
  rw [millis_eq, millis_eq]
  exact Nat.div_le_div_right h

@[simp] theorem toNanos_ofMillis (ms : UInt64) : (ofMillis ms).toNanos = ms.toNat * 1000000 := by
  simp only [toNanos, ofMillis, UInt64.toNat_div, UInt64.toNat_mod, UInt64.reduceToNat]
  omega

/-- A span without the part of it that is below a millisecond. -/
def wholeMillis (d : Span) : Span :=
  ⟨d.seconds, d.nanos / 1000000 * 1000000, by have := d.nanos_lt; omega⟩

@[simp] theorem toNanos_wholeMillis (d : Span) : d.wholeMillis.toNanos = d.millis * 1000000 := by
  simp only [toNanos, wholeMillis, millis]
  omega

end Span

namespace Setting

/-- The fields in the order in which they are checked. -/
def all : List Setting := [queueSize, numClients, numEmitters, maxOfferWaitMs]

/-- What is wrong with settings that have 0 in a field. -/
def isZero (f : Setting) : ConfigError := .validation ("processor." ++ f.key ++ " cannot be 0")

theorem isZero_injective {f g : Setting} (h : f.isZero = g.isZero) : f = g := by
  cases f <;> cases g <;> first | rfl | exact absurd h (by decide)

end Setting

namespace Settings

/-- The first field that is 0. -/
def zero? (s : Settings) : Option Setting := Setting.all.find? fun f => f.of s = 0

variable {s : Settings}

/-- The first field that is 0 is to blame, and no other error is there. -/
theorem validate_eq (s : Settings) :
    s.validate = match s.zero? with
      | none => .ok ()
      | some f => .error f.isZero := by
  unfold validate zero? Setting.all
  by_cases hq : s.queueSize = 0
  · simp [Setting.of, hq, Setting.isZero, Setting.key]
  by_cases hc : s.numClients = 0
  · simp [Setting.of, hq, hc, Setting.isZero, Setting.key]
  by_cases he : s.numEmitters = 0
  · simp [Setting.of, hq, hc, he, Setting.isZero, Setting.key]
  by_cases hw : s.maxOfferWaitMs = 0
  · simp [Setting.of, hq, hc, he, hw, Setting.isZero, Setting.key]
  · simp [Setting.of, hq, hc, he, hw]

theorem validate_eq_error_iff {e : ConfigError} :
    s.validate = .error e ↔ ∃ f, s.zero? = some f ∧ e = f.isZero := by
  rw [validate_eq]
  cases hz : s.zero? with
  | none => simp
  | some f => simp [eq_comm]

theorem validate_eq_isZero_iff {f : Setting} : s.validate = .error f.isZero ↔ s.zero? = some f := by
  rw [validate_eq_error_iff]
  constructor
  · rintro ⟨g, hg, he⟩
    rw [hg, Setting.isZero_injective he]
  · intro hz
    exact ⟨f, hz, rfl⟩

theorem validate_eq_ok_iff_ne : s.validate = .ok () ↔ ∀ f : Setting, f.of s ≠ 0 := by
  rw [validate_eq_ok_iff]
  constructor
  · rintro ⟨hq, hc, he, hw⟩ f
    cases f
    · exact hq
    · exact hc
    · exact he
    · exact hw
  · intro h
    exact ⟨h .queueSize, h .numClients, h .numEmitters, h .maxOfferWaitMs⟩

variable {d : Span}

theorem toNat_withMaxOfferWait (s : Settings) (d : Span) :
    (s.withMaxOfferWait d).maxOfferWaitMs.toNat = d.millis % 2 ^ 64 := by
  simp [withMaxOfferWait, Nat.toUInt64]

theorem toNanos_withMaxOfferWait (s : Settings) (d : Span) :
    (s.withMaxOfferWait d).maxOfferWait.toNanos = d.millis % 2 ^ 64 * 1000000 := by
  rw [maxOfferWait, Span.toNanos_ofMillis, toNat_withMaxOfferWait]

theorem maxOfferWait_eq_wholeMillis_iff :
    (s.withMaxOfferWait d).maxOfferWait = d.wholeMillis ↔ d.millis < 2 ^ 64 := by
  constructor
  · intro h
    have hnanos := congrArg Span.toNanos h
    rw [toNanos_withMaxOfferWait, Span.toNanos_wholeMillis] at hnanos
    omega
  · intro h
    apply Span.toNanos_injective
    rw [toNanos_withMaxOfferWait, Span.toNanos_wholeMillis, Nat.mod_eq_of_lt h]

theorem toNanos_maxOfferWait_mono {c : Span} (hd : d.millis < 2 ^ 64)
    (hc : c.toNanos ≤ d.toNanos) :
    (s.withMaxOfferWait c).maxOfferWait.toNanos ≤ (s.withMaxOfferWait d).maxOfferWait.toNanos := by
  have hle := Span.millis_mono hc
  rw [toNanos_withMaxOfferWait, toNanos_withMaxOfferWait, Nat.mod_eq_of_lt hd,
    Nat.mod_eq_of_lt (Nat.lt_of_le_of_lt hle hd)]
  exact Nat.mul_le_mul_right _ hle

/-- The ceiling is to blame if it is 0 and no other field is. -/
theorem zero?_eq_maxOfferWaitMs_iff : s.zero? = some .maxOfferWaitMs ↔
    s.queueSize ≠ 0 ∧ s.numClients ≠ 0 ∧ s.numEmitters ≠ 0 ∧ s.maxOfferWaitMs = 0 := by
  unfold zero? Setting.all
  by_cases hq : s.queueSize = 0
  · simp [Setting.of, hq]
  by_cases hc : s.numClients = 0
  · simp [Setting.of, hq, hc]
  by_cases he : s.numEmitters = 0
  · simp [Setting.of, hq, hc, he]
  by_cases hw : s.maxOfferWaitMs = 0
  · simp [Setting.of, hq, hc, he, hw]
  · simp [Setting.of, hq, hc, he, hw]

/-- A ceiling is refused if the low 64 bits of its milliseconds are 0. -/
theorem validate_withMaxOfferWait_iff :
    (s.withMaxOfferWait d).validate = .error Setting.maxOfferWaitMs.isZero ↔
      (s.queueSize ≠ 0 ∧ s.numClients ≠ 0 ∧ s.numEmitters ≠ 0) ∧ d.millis % 2 ^ 64 = 0 := by
  have hzero : (s.withMaxOfferWait d).maxOfferWaitMs = 0 ↔ d.millis % 2 ^ 64 = 0 := by
    rw [← UInt64.toNat_inj, toNat_withMaxOfferWait]
    rfl
  rw [validate_eq_isZero_iff, zero?_eq_maxOfferWaitMs_iff, hzero, and_assoc, and_assoc]
  rfl

end Settings

section Ceilings

open Pipeline

variable {s : Settings} {d : Span}

/-- The hand-offs of a pipeline wait for as long as its settings say. -/
theorem ceiling_eq {origin : Instant} {p q : Pipeline} (hb : build s origin = .built p)
    (hr : p.Reaches q) : q.ceiling * 1000000 = s.maxOfferWait.toNanos := by
  obtain ⟨-, -, rfl⟩ := build_eq_built hb
  rw [Settings.maxOfferWait, Span.toNanos_ofMillis, ceiling, hr.settings]

/-- What becomes of a span that is asked for as the ceiling of the hand-offs. -/
structure Settings.Ceiling (s : Settings) (d : Span) : Prop where
  /-- Of its milliseconds the low 64 bits are left. -/
  cut : (s.withMaxOfferWait d).maxOfferWait.toNanos = d.millis % 2 ^ 64 * 1000000
  /-- The span is rounded down to milliseconds if they are a word, and only then. -/
  rounded : (s.withMaxOfferWait d).maxOfferWait = d.wholeMillis ↔ d.millis < 2 ^ 64
  /-- No shorter span gives a longer ceiling then. -/
  mono : d.millis < 2 ^ 64 → ∀ c : Span, c.toNanos ≤ d.toNanos →
    (s.withMaxOfferWait c).maxOfferWait.toNanos ≤ (s.withMaxOfferWait d).maxOfferWait.toNanos
  /-- The ceiling is refused if nothing is left of it. -/
  refused : (s.withMaxOfferWait d).validate = .error Setting.maxOfferWaitMs.isZero ↔
    (s.queueSize ≠ 0 ∧ s.numClients ≠ 0 ∧ s.numEmitters ≠ 0) ∧ d.millis % 2 ^ 64 = 0
  /-- If the milliseconds are a word, that is the case for a span below one millisecond. -/
  short : d.millis < 2 ^ 64 →
    ((s.withMaxOfferWait d).validate = .error Setting.maxOfferWaitMs.isZero ↔
      (s.queueSize ≠ 0 ∧ s.numClients ≠ 0 ∧ s.numEmitters ≠ 0) ∧ d.toNanos < 1000000)
  /-- All hand-offs of a pipeline with these settings wait that long. -/
  waits : ∀ (origin : Instant) (p q : Pipeline), build (s.withMaxOfferWait d) origin = .built p →
    p.Reaches q → q.ceiling * 1000000 = (s.withMaxOfferWait d).maxOfferWait.toNanos

/-- The ceiling of the hand-offs is the span that was asked for, without its part below a
millisecond, as long as its milliseconds are a word. A longer span leaves a shorter ceiling. -/
theorem Settings.ceiling_withMaxOfferWait (s : Settings) (d : Span) : s.Ceiling d where
  cut := toNanos_withMaxOfferWait s d
  rounded := maxOfferWait_eq_wholeMillis_iff
  mono hd c hc := toNanos_maxOfferWait_mono hd hc
  refused := validate_withMaxOfferWait_iff
  short hd := by
    have hshort : d.millis = 0 ↔ d.toNanos < 1000000 := by
      rw [Span.millis_eq]
      omega
    rw [validate_withMaxOfferWait_iff, Nat.mod_eq_of_lt hd, hshort]
  waits origin p q hb hr := ceiling_eq hb hr

/-- 2^64 milliseconds, the shortest span whose milliseconds are no word. -/
def Span.aeon : Span := { seconds := 18446744073709551, nanos := 616000000 }

/-- Nothing is left of so long a span, so it gives a shorter ceiling than a second, and it is
refused. -/
theorem aeon_cut :
    (({} : Settings).withMaxOfferWait .aeon).maxOfferWait ≠ Span.aeon.wholeMillis ∧
      (Span.ofMillis 1000).toNanos < Span.aeon.toNanos ∧
      (({} : Settings).withMaxOfferWait .aeon).maxOfferWait.toNanos <
        (({} : Settings).withMaxOfferWait (.ofMillis 1000)).maxOfferWait.toNanos ∧
      1000000 ≤ Span.aeon.toNanos ∧
      (({} : Settings).withMaxOfferWait .aeon).validate =
        .error Setting.maxOfferWaitMs.isZero := by
  decide

end Ceilings

namespace Pipeline

/-- A pipeline as it is built: nothing is on its queues, and nothing has happened to it. -/
structure Vacant (s : Settings) (p : Pipeline) : Prop where
  settings : p.settings = s
  remainingCapacity : p.remainingCapacity = s.queueSize.toNat
  emitQueueRemaining : p.emitQueueRemaining = emitQueueSize
  messages : p.intake.messages = [] ∧ p.outtake.messages = []
  workers : p.fetchers = [] ∧ p.emitters = []
  calls : p.calls = []
  events : p.events = []
  status : p.statusView =
    { phase := .notStarted
      startedAt := none
      queueSize := s.queueSize
      remainingCapacity := s.queueSize
      emitQueueRemaining := 100
      fetchPool := ⟨"fetch", s.numClients, 0⟩
      emitPool := ⟨"emit", s.numEmitters, 0⟩
      totalProcessed := 0 }

variable {s : Settings} {origin : Instant} {p : Pipeline}

theorem vacant_of_build (hb : build s origin = .built p) : Vacant s p := by
  obtain ⟨-, -, rfl⟩ := build_eq_built hb
  constructor
  · rfl
  · rfl
  · rfl
  · exact ⟨rfl, rfl⟩
  · exact ⟨rfl, rfl⟩
  · rfl
  · rfl
  · simp [statusView, remainingCapacity, emitQueueRemaining, Queue.free, emitQueueSize, Role.label]

theorem build_of_error {c : ConfigError} (h : s.validate = .error c) :
    build s origin = .rejected (.config c) := by
  simp [build, Settings.check, h, Except.mapError]

theorem build_of_ok (h : s.validate = .ok ()) : build s origin =
    if maxCapacity < s.queueSize.toNat then .panicked
    else .built
      { settings := s
        origin
        intake := { capacity := s.queueSize.toNat }
        outtake := { capacity := emitQueueSize } } := by
  simp [build, Settings.check, h, Except.mapError]

theorem build_eq_rejected_iff {e : PipelineError} :
    build s origin = .rejected e ↔ ∃ c, s.validate = .error c ∧ e = .config c := by
  constructor
  · intro h
    cases hv : s.validate with
    | error c =>
      rw [build_of_error hv] at h
      cases h
      exact ⟨c, rfl, rfl⟩
    | ok u =>
      rw [build_of_ok hv] at h
      split at h
      · cases h
      · cases h
  · rintro ⟨c, hv, rfl⟩
    exact build_of_error hv

theorem build_eq_panicked_iff :
    build s origin = .panicked ↔ s.validate = .ok () ∧ maxCapacity < s.queueSize.toNat := by
  constructor
  · intro h
    cases hv : s.validate with
    | error c =>
      rw [build_of_error hv] at h
      cases h
    | ok u =>
      rw [build_of_ok hv] at h
      split at h
      · next hlarge => exact ⟨rfl, hlarge⟩
      · cases h
  · rintro ⟨hv, hlarge⟩
    rw [build_of_ok hv, if_pos hlarge]

theorem exists_build_iff : (∃ p, build s origin = .built p ∧ Vacant s p) ↔
    s.validate = .ok () ∧ s.queueSize.toNat ≤ maxCapacity := by
  constructor
  · rintro ⟨p, hb, -⟩
    obtain ⟨hv, hle, -⟩ := build_eq_built hb
    exact ⟨hv, hle⟩
  · rintro ⟨hv, hle⟩
    have hb : build s origin = _ := build_of_ok hv
    rw [if_neg (Nat.not_lt.mpr hle)] at hb
    exact ⟨_, hb, vacant_of_build hb⟩

/-- From settings without a 0 an empty pipeline is built, unless the intake queue is larger than any
queue can be: then building it panics. All other settings are rejected, with the error that the
validation of the whole configuration gives. -/
theorem build_outcome (s : Settings) (origin : Instant) :
    (⟨s⟩ : Config).validate = s.validate ∧
      (s.validate = .ok () ↔ ∀ f : Setting, f.of s ≠ 0) ∧
      ((∃ p, build s origin = .built p ∧ Vacant s p) ↔
        s.validate = .ok () ∧ s.queueSize.toNat ≤ maxCapacity) ∧
      (build s origin = .panicked ↔ s.validate = .ok () ∧ maxCapacity < s.queueSize.toNat) ∧
      ∀ e, build s origin = .rejected e ↔ ∃ c, s.validate = .error c ∧ e = .config c :=
  ⟨rfl, Settings.validate_eq_ok_iff_ne, exists_build_iff, build_eq_panicked_iff,
    fun _ => build_eq_rejected_iff⟩

/-- Settings whose intake queue is larger than any queue can be, by one item. -/
def boundless : Settings := { queueSize := 2305843009213693952 }

theorem boundless_panics :
    boundless.validate = .ok () ∧ (⟨boundless⟩ : Config).validate = .ok () ∧
      build boundless default = .panicked :=
  ⟨rfl, rfl, rfl⟩

end Pipeline

end DocumentPipeline
