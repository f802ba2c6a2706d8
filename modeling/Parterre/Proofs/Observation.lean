import Parterre.Proofs.Calls

/-! # Observation does not interfere

Whoever watches a derivation sees it go the way that it goes unwatched.  What calls return and the
engine that they leave are the same for all sinks, and a sink for some kinds of events only misses
the others. -/
namespace Parterre
open Chance EventSink

inductive Reply where
  | step (progressed : Bool)
  | run (summary : RunSummary)
  | withRules

namespace Engine
variable {σ : Type} [WordSource σ]

section Replies
variable {τ : Type} [EventSink τ]

def reply (e : Engine σ) (sink : τ) : Call σ → Reply
  | .step => .step (e.step sink).progressed
  | .run budget => .run (e.run budget sink).summary
  | .withRules _ => .withRules

def replies (e : Engine σ) (sink : τ) : List (Call σ) → List Reply
  | [] => []
  | c :: calls =>
    let done := e.perform sink c
    e.reply sink c :: replies done.engine done.sink calls

theorem reply_eq (e : Engine σ) (sink : τ) (c : Call σ) : e.reply sink c = e.reply () c := by
  cases c with
  | step => exact congrArg Reply.step (step_is e sink).progressed
  | run budget =>
    exact congrArg Reply.run ((run_summary e budget sink).trans (run_summary e budget ()).symm)
  | withRules rules => rfl

theorem replies_eq (e : Engine σ) (sink : τ) (calls : List (Call σ)) :
    e.replies sink calls = e.replies () calls := by
  induction calls generalizing e sink with
  | nil => rfl
  | cons c calls ih =>
    simp only [replies, reply_eq e sink c, perform_engine e sink c]
    exact congrArg (e.reply () c :: ·) (ih _ _)

end Replies

theorem events_performAll (e : Engine σ) (only : Option (List EventKind)) (calls : List (Call σ)) :
    (e.performAll ({ only } : Collector) calls).sink.events =
      (e.eventsAll calls).filter fun event => ({ only } : Collector).wants event.kind := by
  rw [performAll_sink, reportAll_collects]
  exact List.nil_append _

/-- Observation does not interfere.  Whatever the rules are, the sink changes neither the engine
that calls leave, nor what they return; and a collector of some kinds gets, in their order, those
events of these kinds that a collector of all kinds gets. -/
theorem observation_is_neutral (e : Engine σ) (calls : List (Call σ)) :
    (∀ (τ : Type) [EventSink τ] (sink : τ),
      (e.performAll sink calls).engine = (e.performAll () calls).engine ∧
      e.replies sink calls = e.replies () calls) ∧
    ∀ kinds : List EventKind,
      (e.performAll ({ only := some kinds } : Collector) calls).sink.events =
        (e.performAll ({} : Collector) calls).sink.events.filter fun event =>
          kinds.contains event.kind := by
  refine ⟨fun τ _ sink => ⟨performAll_engine e sink calls, replies_eq e sink calls⟩,
    fun kinds => ?_⟩
  have hall : (e.performAll ({} : Collector) calls).sink.events = e.eventsAll calls :=
    (events_performAll e none calls).trans (List.filter_eq_self.2 fun _ _ => rfl)
  rw [hall]
  exact events_performAll e (some kinds) calls

end Engine
end Parterre
