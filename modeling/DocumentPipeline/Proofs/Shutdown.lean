import DocumentPipeline.Proofs.Announcement
import DocumentPipeline.Proofs.Handshake

/-! # The shutdown of both pools

The announcement sends each fetch worker its stop signal and a check sends each emit worker
its own, once the fetch workers are through. However many callers announce and check, no
worker is sent a second signal, and none comes before the work that it must not overtake.
-/
namespace DocumentPipeline

namespace Pipeline

/-- What the stop signals have come to. -/
structure ShutDown (p : Pipeline) : Prop where
  fetchStops_le : p.history.fetchStops ≤ p.settings.numClients.toNat
  fetchStops_eq : p.history.announcement = .returned (.ok ()) →
    p.history.fetchStops = p.settings.numClients.toNat
  /-- A fetch worker receives items, then one signal at most and nothing behind it. -/
  received : ∀ i, ∃ items : List WorkItem,
    History.receiptsOf i p.history = items.map .data ∨
      History.receiptsOf i p.history = items.map .data ++ [.stop]
  /-- Before an emit worker is sent its signal, each fetch worker has finished and a poll has
  taken notice of it. -/
  cleared : ∀ x (past : History), x :: past <:+ p.history → x.event = .stopQueued .emit →
    p.settings.FetchersIn (past.log Event.exit) ∧
      p.settings.FetchersIn (past.log Event.collection)
  emitStops_le : p.history.emitStops ≤ p.settings.numEmitters.toNat
  /-- An injection that has begun and not stalled has sent all signals, or the check that
  runs it is still waiting with the ones that are left. -/
  emitStops_eq : (∃ x ∈ p.history, ∃ t, x.event = .handoffBegan t .emitStop) →
    (∀ x ∈ p.history, ∀ t, x.event ≠ .handoffStalled t .emitStop) →
      p.history.emitStops = p.settings.numEmitters.toNat ∨
        ∃ n i, (n, .checkInjecting i) ∈ p.calls ∧
          p.history.emitStops + i.remaining = p.settings.numEmitters.toNat
  behind : p.history.PayloadsFirst

variable {settings : Settings} {origin : Instant} {p q : Pipeline}

theorem Announced.fetchStops_le {a : Announcement} (h : Announced p a) :
    p.history.fetchStops ≤ p.settings.numClients.toNat := by
  cases h with
  | unmade hc hs => exact hs ▸ Nat.zero_le _
  | pending hc hm hs => exact hs.le
  | returned hc hs => exact hs
  | abandoned hc hs => exact hs

theorem Announced.fetchStops_eq (h : Announced p (.returned (.ok ()))) :
    p.history.fetchStops = p.settings.numClients.toNat := by
  cases h with
  | returned hc hs hr => exact hr rfl

namespace Tally

/-- The injection has not begun, goes on with what is left, or is over. -/
theorem progress (h : Tally p) (ho : ∀ n item wait i, (n, .offerInjecting item wait i) ∉ p.calls) :
    (p.history.emitStops = 0 ∧ ∀ x ∈ p.history, ∀ t, x.event ≠ .handoffBegan t .emitStop) ∨
      (∃ n i, (n, .checkInjecting i) ∈ p.calls ∧
        p.history.emitStops + i.remaining = p.settings.numEmitters.toNat) ∨
      p.history.emitStops = p.settings.numEmitters.toNat ∨
      p.history.emitStops ≤ p.settings.numEmitters.toNat ∧
        ∃ x ∈ p.history, ∃ t, x.event = .handoffStalled t .emitStop := by
  by_cases hu : Uninjected p
  · cases hs : p.tracker.emitStopSent with
    | false => exact .inl (h.idle hs hu)
    | true => exact .inr (.inr (h.sent hs))
  · simp only [Uninjected, not_forall, Bool.not_eq_false] at hu
    obtain ⟨n, s, hm, hs⟩ := hu
    cases s with
    | offerInjecting item wait i => exact absurd hm (ho n item wait i)
    | checkInjecting i => exact .inr (.inl ⟨n, i, hm, h.pending n i hm⟩)
    | _ => cases hs

end Tally

/-- In every run whose callers wait for their announcements and checks, each worker is sent
one stop signal at most and nothing overtakes it. -/
theorem Reaches.shutDown (h : p.Reaches q) (hb : build settings origin = .built p)
    (hp : q.history.Patient) : ShutDown q := by
  have ha := h.announced hb
  have hs := h.handshake hb
  have hprogress := (hs.tally hp).progress hs.offer
  constructor
  · exact ha.fetchStops_le
  · intro hr
    exact Announced.fetchStops_eq (hr ▸ ha)
  · intro i
    obtain ⟨stops, busy, unreported, hl, hstops⟩ := h.ledger hb i
    refine ⟨History.callsOf i q.history, ?_⟩
    rw [hl.receipts]
    rcases hstops with rfl | rfl
    · exact .inl (List.append_nil _)
    · exact .inr rfl
  · intro x past hx he
    have := hs.cleared.of_suffix hx
    rwa [he] at this
  · rcases hprogress with ⟨hz, -⟩ | ⟨n, i, -, hi⟩ | hq | ⟨hle, -⟩
    · omega
    · omega
    · omega
    · exact hle
  · rintro ⟨x, hx, t, hbegan⟩ hstall
    rcases hprogress with ⟨-, hnone⟩ | hpending | hq | ⟨-, y, hy, u, hstalled⟩
    · exact absurd hbegan (hnone x hx t)
    · exact .inr hpending
    · exact .inl hq
    · exact absurd hstalled (hstall y hy u)
  · exact hs.behind

/-- Two workers in each pool. -/
def paired : Settings := { queueSize := 2, numClients := 2, numEmitters := 2 }

/-- Two callers announce the end of the work at the same time. When the fetch workers are
through, two callers check at the same time, and the first of them injects. -/
def contestedShutdown : List Action :=
  .invoke 0 .start :: List.replicate 6 (.proceed (.call 0)) ++
    [.invoke 1 .finish, .invoke 2 .finish, .proceed (.call 1), .proceed (.call 1),
      .proceed (.call 1),
      .proceed (.fetcher 0), .clientReturns 0 (.value ()), .proceed (.fetcher 0),
      .proceed (.fetcher 0), .proceed (.fetcher 1), .clientReturns 1 (.value ()),
      .proceed (.fetcher 1), .proceed (.fetcher 1),
      .invoke 3 .checkActive, .invoke 4 .checkActive, .proceed (.call 3), .proceed (.call 3),
      .proceed (.call 3), .proceed (.call 4)]

theorem contestedShutdown_shutDown :
    ∃ p q, build paired default = .built p ∧ p.run contestedShutdown = some q ∧
      q.history.fetchStops = 2 ∧ q.history.emitStops = 2 ∧ ShutDown q := by
  refine ⟨_, _, rfl, rfl, rfl, rfl, ?_⟩
  exact Reaches.shutDown ⟨contestedShutdown, rfl⟩ (show build paired default = _ from rfl)
    (by decide)

end Pipeline

end DocumentPipeline
