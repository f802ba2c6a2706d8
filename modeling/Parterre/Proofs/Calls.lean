import Parterre.Proofs.StepReports

/-! # Calls of an engine

The owner of an engine makes steps and runs with it, and may exchange its rules.  A run is a chain
of steps between two groups of events of its own, so what every step preserves, every sequence of
calls does. -/
namespace Parterre
open Chance EventSink

inductive Call (σ : Type) where
  | step
  | run (budget : Nat)
  | withRules (rules : RuleSet σ)

/-- Whether a call leaves the rules alone, or exchanges them for allowed ones. -/
def Call.Within {σ : Type} (Allowed : RuleSet σ → Prop) : Call σ → Prop
  | .step | .run _ => True
  | .withRules rules => Allowed rules

theorem Call.Within.mono {σ : Type} {Allowed Allowed' : RuleSet σ → Prop} {c : Call σ}
    (hc : c.Within Allowed) (h : ∀ rules, Allowed rules → Allowed' rules) : c.Within Allowed' := by
  cases c with
  | step => trivial
  | run => trivial
  | withRules rules => exact h rules hc

/-- Whether a call is a step or a run. -/
abbrev Call.KeepsRules {σ : Type} (c : Call σ) : Prop := c.Within fun _ => False

/-- Whether an event tells of a run as a whole. -/
def Event.isFrame : Event → Bool
  | .runStarted .. | .budgetExhausted .. | .runFinished .. => true
  | _ => false

namespace Engine
variable {σ : Type} [WordSource σ]

section Sinks
variable {τ : Type} [EventSink τ]

def perform (e : Engine σ) (sink : τ) : Call σ → Observed σ τ
  | .step => (e.step sink).toObserved
  | .run budget => (e.run budget sink).toObserved
  | .withRules rules => ⟨e.withRules rules, sink, []⟩

def performAll (e : Engine σ) (sink : τ) : List (Call σ) → Observed σ τ
  | [] => ⟨e, sink, []⟩
  | c :: calls =>
    let done := e.perform sink c
    let rest := performAll done.engine done.sink calls
    { rest with notes := done.notes ++ rest.notes }

end Sinks

/-- The engines from which a walk makes its steps; from the last one it may make no progress. -/
def trail : Nat → Engine σ → List (Engine σ)
  | 0, _ => []
  | budget + 1, e =>
    e :: if (e.step ()).progressed then trail budget (e.step ()).engine else []

def callTrail (e : Engine σ) : Call σ → List (Engine σ)
  | .step => [e]
  | .run budget => trail budget e
  | .withRules _ => []

def trailAll (e : Engine σ) : List (Call σ) → List (Engine σ)
  | [] => []
  | c :: calls => e.callTrail c ++ trailAll (e.perform () c).engine calls

/-- What a run reports after its steps. -/
def closing (e : Engine σ) (budget : Nat) : List Event :=
  let walked := walk budget e ()
  (if !walked.engine.isComplete && walked.steps = budget then
    [.budgetExhausted walked.steps walked.engine.pending] else []) ++
    [.runFinished ⟨walked.steps, walked.engine.isComplete, walked.engine.graph.nodeCount⟩]

def callEvents (e : Engine σ) : Call σ → List Event
  | .step => e.stepEvents
  | .run budget =>
    .runStarted budget e.graph.nodeCount :: (trail budget e).flatMap stepEvents ++ e.closing budget
  | .withRules _ => []

def eventsAll (e : Engine σ) : List (Call σ) → List Event
  | [] => []
  | c :: calls => e.callEvents c ++ eventsAll (e.perform () c).engine calls

/-! ### Walks -/

section Walks
variable {e : Engine σ}

theorem walk_of_progress (h : (e.step ()).progressed = true) (budget : Nat) :
    (walk (budget + 1) e ()).engine = (walk budget (e.step ()).engine ()).engine ∧
      (walk (budget + 1) e ()).steps = (walk budget (e.step ()).engine ()).steps + 1 := by
  simp only [walk, h, ↓reduceIte, and_self]

theorem walk_of_idle (h : (e.step ()).progressed = false) (budget : Nat) :
    (walk (budget + 1) e ()).engine = (e.step ()).engine ∧ (walk (budget + 1) e ()).steps = 0 := by
  simp only [walk, h, Bool.false_eq_true, ↓reduceIte, and_self]

end Walks

/-! ### Sinks -/

section Sinks
variable {τ : Type} [EventSink τ]

theorem walk_engine (budget : Nat) (e : Engine σ) (sink : τ) :
    (walk budget e sink).engine = (walk budget e ()).engine ∧
      (walk budget e sink).steps = (walk budget e ()).steps := by
  induction budget generalizing e sink with
  | zero => exact ⟨rfl, rfl⟩
  | succ budget ih =>
    have h := step_is e sink
    unfold walk
    simp only [h.progressed]
    split
    · simp only [h.engine]
      obtain ⟨hengine, hsteps⟩ := ih (e.step ()).engine (e.step sink).sink
      exact ⟨hengine, congrArg (· + 1) hsteps⟩
    · exact ⟨h.engine, rfl⟩

private theorem walk_sink (budget : Nat) (e : Engine σ) (sink : τ) :
    (walk budget e sink).sink = reportAll sink ((trail budget e).flatMap stepEvents) := by
  induction budget generalizing e sink with
  | zero => rfl
  | succ budget ih =>
    have h := step_is e sink
    unfold walk trail
    simp only [h.progressed, List.flatMap_cons, reportAll_append, ← h.sink]
    split
    · simp only [ih, h.engine]
    · rfl

@[simp] theorem run_engine (e : Engine σ) (budget : Nat) (sink : τ) :
    (e.run budget sink).engine = (walk budget e ()).engine :=
  (walk_engine budget e _).1

@[simp] theorem run_summary (e : Engine σ) (budget : Nat) (sink : τ) :
    (e.run budget sink).summary = ⟨(walk budget e ()).steps,
      (walk budget e ()).engine.isComplete, (walk budget e ()).engine.graph.nodeCount⟩ := by
  simp only [run, walk_engine]

@[simp] theorem run_sink (e : Engine σ) (budget : Nat) (sink : τ) :
    (e.run budget sink).sink = reportAll sink (e.callEvents (.run budget)) := by
  simp only [run, callEvents, closing, walk_engine, walk_sink, List.cons_append,
    reportAll_cons, reportAll_append]
  split <;> rfl

/-- What a call leads to does not depend on the sink, which is told of its events. -/
theorem perform_engine (e : Engine σ) (sink : τ) (c : Call σ) :
    (e.perform sink c).engine = (e.perform () c).engine := by
  cases c with
  | step => exact (step_is e sink).engine
  | run budget => exact (run_engine e budget sink).trans (run_engine e budget ()).symm
  | withRules rules => rfl

theorem perform_sink (e : Engine σ) (sink : τ) (c : Call σ) :
    (e.perform sink c).sink = reportAll sink (e.callEvents c) := by
  cases c with
  | step => exact (step_is e sink).sink
  | run budget => exact run_sink e budget sink
  | withRules rules => rfl

theorem performAll_engine (e : Engine σ) (sink : τ) (calls : List (Call σ)) :
    (e.performAll sink calls).engine = (e.performAll () calls).engine := by
  induction calls generalizing e sink with
  | nil => rfl
  | cons c calls ih =>
    simp only [performAll, perform_engine e sink c]
    exact ih _ _

theorem performAll_sink (e : Engine σ) (sink : τ) (calls : List (Call σ)) :
    (e.performAll sink calls).sink = reportAll sink (e.eventsAll calls) := by
  induction calls generalizing e sink with
  | nil => rfl
  | cons c calls ih =>
    simp only [performAll, eventsAll, perform_engine e sink c, ih, perform_sink, reportAll_append]

end Sinks

/-! ### What calls lead to -/

/-- The engines that calls lead to from a given one.  Each call may report to a sink of its own. -/
inductive Leads (Allowed : RuleSet σ → Prop) (e : Engine σ) : Engine σ → Prop where
  | refl : Leads Allowed e e
  | call {e' : Engine σ} {τ : Type} [EventSink τ] (sink : τ) (c : Call σ) (hc : c.Within Allowed)
      (h : Leads Allowed e e') : Leads Allowed e (e'.perform sink c).engine

section Leads
variable {Allowed : RuleSet σ → Prop} {e e' : Engine σ}

theorem Leads.trans {e'' : Engine σ} (h : Leads Allowed e e') (h' : Leads Allowed e' e'') :
    Leads Allowed e e'' := by
  induction h' with
  | refl => exact h
  | call sink c hc _ ih => exact .call sink c hc ih

theorem Leads.step (e : Engine σ) : Leads Allowed e (e.step ()).engine :=
  .call () .step trivial .refl

theorem walk_preserves {P : Engine σ → Prop} (hstep : ∀ e, P e → P (e.step ()).engine)
    (budget : Nat) (h : P e) : P (walk budget e ()).engine := by
  induction budget generalizing e with
  | zero => exact h
  | succ budget ih =>
    unfold walk
    simp only
    split
    · exact ih (hstep e h)
    · exact hstep e h

theorem Leads.preserves {P : Engine σ → Prop} (hl : Leads Allowed e e') (h : P e)
    (hstep : ∀ e, P e → P (e.step ()).engine)
    (hrules : ∀ e rules, Allowed rules → P e → P (e.withRules rules)) : P e' := by
  induction hl with
  | refl => exact h
  | call sink c hc _ ih =>
    rw [perform_engine]
    cases c with
    | step => exact hstep _ ih
    | run budget =>
      change P (run _ budget ()).engine
      rw [run_engine]
      exact walk_preserves hstep budget ih
    | withRules rules => exact hrules _ rules hc ih

theorem Leads.rules_allowed (hl : Leads Allowed e e') (h : Allowed e.rules) : Allowed e'.rules :=
  hl.preserves (P := fun e => Allowed e.rules) h (fun e he => (step_keeps e).1 ▸ he)
    fun _ _ hrules _ => hrules

theorem Leads.mono {Allowed' : RuleSet σ → Prop} (hl : Leads Allowed e e')
    (h : ∀ rules, Allowed rules → Allowed' rules) : Leads Allowed' e e' := by
  induction hl with
  | refl => exact .refl
  | call sink c hc _ ih => exact .call sink c (hc.mono h) ih

theorem leads_of_mem_trail {budget : Nat} (h : e' ∈ trail budget e) : Leads Allowed e e' := by
  induction budget generalizing e with
  | zero => cases h
  | succ budget ih =>
    rcases List.mem_cons.1 h with rfl | h
    · exact .refl
    · split at h
      · exact (Leads.step e).trans (ih h)
      · cases h

theorem leads_performAll {τ : Type} [EventSink τ] (sink : τ) {calls : List (Call σ)}
    (hcalls : ∀ c ∈ calls, c.Within Allowed) :
    Leads Allowed e (e.performAll sink calls).engine := by
  induction calls generalizing e sink with
  | nil => exact .refl
  | cons c calls ih =>
    have hc := hcalls c List.mem_cons_self
    exact (Leads.call sink c hc .refl).trans
      (ih _ fun c hc => hcalls c (List.mem_cons_of_mem _ hc))

end Leads

/-! ### The course of steps -/

/-- `Course e trail events e'`: steps from the engines of the trail lead from `e` to `e'`, and the
events are those of the steps and of the runs that they belong to. -/
inductive Course (e : Engine σ) : List (Engine σ) → List Event → Engine σ → Prop where
  | start : Course e [] [] e
  | step {trail : List (Engine σ)} {events : List Event} {e' : Engine σ}
    (h : Course e trail events e') :
    Course e (trail ++ [e']) (events ++ e'.stepEvents) (e'.step ()).engine
  | frame {trail : List (Engine σ)} {events : List Event} {e' : Engine σ} (event : Event)
    (hframe : event.isFrame = true) (h : Course e trail events e') :
    Course e trail (events ++ [event]) e'

section Course
variable {e e' e'' : Engine σ} {trail₁ trail₂ : List (Engine σ)} {events₁ events₂ : List Event}

theorem Course.trans (h₁ : Course e trail₁ events₁ e') (h₂ : Course e' trail₂ events₂ e'') :
    Course e (trail₁ ++ trail₂) (events₁ ++ events₂) e'' := by
  induction h₂ with
  | start => simpa using h₁
  | step _ ih => simpa only [List.append_assoc] using ih.step
  | frame event hframe _ ih => simpa only [List.append_assoc] using ih.frame event hframe

theorem Course.one (e : Engine σ) : Course e [e] e.stepEvents (e.step ()).engine :=
  Course.start.step

private theorem course_frames (e : Engine σ) {events : List Event}
    (h : ∀ event ∈ events, event.isFrame = true) : Course e [] events e := by
  induction events with
  | nil => exact .start
  | cons event events ih =>
    have hfirst : Course e [] [event] e := Course.start.frame event (h event List.mem_cons_self)
    exact hfirst.trans (ih fun event hmem => h event (List.mem_cons_of_mem _ hmem))

private theorem course_walk (budget : Nat) (e : Engine σ) :
    Course e (trail budget e) ((trail budget e).flatMap stepEvents) (walk budget e ()).engine := by
  induction budget generalizing e with
  | zero => exact .start
  | succ budget ih =>
    unfold trail walk
    simp only
    split
    · exact (Course.one e).trans (ih (e.step ()).engine)
    · simpa using Course.one e

private theorem isFrame_of_mem_closing {budget : Nat} {event : Event}
    (h : event ∈ e.closing budget) : event.isFrame = true := by
  simp only [closing, List.mem_append, List.mem_singleton] at h
  rcases h with h | rfl
  · split at h
    · rw [List.mem_singleton.1 h]
      rfl
    · cases h
  · rfl

theorem course_perform (e : Engine σ) {c : Call σ} (hc : c.KeepsRules) :
    Course e (e.callTrail c) (e.callEvents c) (e.perform () c).engine := by
  cases c with
  | step => exact .one e
  | withRules rules => exact hc.elim
  | run budget =>
    have hopening : Course e [] [.runStarted budget e.graph.nodeCount] e :=
      Course.start.frame _ rfl
    have hclosing : Course (walk budget e ()).engine [] (e.closing budget)
        (walk budget e ()).engine :=
      course_frames _ fun event => isFrame_of_mem_closing
    have hcourse := (hopening.trans (course_walk budget e)).trans hclosing
    rw [List.append_nil] at hcourse
    rw [show (e.perform () (.run budget)).engine = (walk budget e ()).engine from
      run_engine e budget ()]
    exact hcourse

/-- Calls that keep the rules take a course of steps. -/
theorem course_eventsAll {calls : List (Call σ)} (hcalls : ∀ c ∈ calls, c.KeepsRules) :
    Course e (e.trailAll calls) (e.eventsAll calls) (e.performAll () calls).engine := by
  induction calls generalizing e with
  | nil => exact .start
  | cons c calls ih =>
    exact (course_perform e (hcalls c List.mem_cons_self)).trans
      (ih fun c hc => hcalls c (List.mem_cons_of_mem _ hc))

theorem course_performAll (events : List Event) {calls : List (Call σ)}
    (hcalls : ∀ c ∈ calls, c.KeepsRules) :
    ∃ more, (e.performAll ({ events } : Collector) calls).sink = { events := events ++ more } ∧
      Course e (e.trailAll calls) more (e.performAll ({ events } : Collector) calls).engine := by
  refine ⟨e.eventsAll calls, ?_, ?_⟩
  · rw [performAll_sink, reportAll_collector]
  · rw [performAll_engine]
    exact course_eventsAll hcalls

theorem Leads.exists_course (h : Leads (fun _ => False) e e') :
    ∃ trail events, Course e trail events e' := by
  induction h with
  | refl => exact ⟨[], [], .start⟩
  | call sink c hc _ ih =>
    obtain ⟨trail, events, hcourse⟩ := ih
    rw [perform_engine]
    exact ⟨_, _, hcourse.trans (course_perform _ hc)⟩

/-- An event tells of a run as a whole, or is reported by a step of the trail. -/
theorem Course.mem_events {trail : List (Engine σ)} {events : List Event}
    (h : Course e trail events e') {event : Event} (hmem : event ∈ events) :
    event.isFrame = true ∨ ∃ x ∈ trail, event ∈ x.stepEvents := by
  induction h with
  | start => cases hmem
  | @step trail _ x _ ih =>
    rcases List.mem_append.1 hmem with hmem | hmem
    · rcases ih hmem with hframe | ⟨y, hy, hevent⟩
      · exact .inl hframe
      · exact .inr ⟨y, List.mem_append_left _ hy, hevent⟩
    · exact .inr ⟨x, List.mem_append_right _ (List.mem_singleton_self x), hmem⟩
  | frame event' hframe _ ih =>
    rcases List.mem_append.1 hmem with hmem | hmem
    · exact ih hmem
    · exact .inl (List.mem_singleton.1 hmem ▸ hframe)

end Course

end Engine
end Parterre
