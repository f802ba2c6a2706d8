import Parterre.Derivation.Engine

/-! # What a step does and reports

A step goes one of four ways: nothing is drawn, the node drawn is missing, no production accepts it,
or a production is applied.  For each of them the engine that it leaves, whether it made progress
and the events that it reports are stated without the sink; a sink is told of the events and has no
other part in the step. -/
namespace Parterre
open Chance

namespace EventSink
variable {τ : Type} [EventSink τ]

def reportAll (sink : τ) (events : List Event) : τ := events.foldl report sink

@[simp] theorem reportAll_nil (sink : τ) : reportAll sink [] = sink := rfl

@[simp] theorem reportAll_cons (sink : τ) (e : Event) (events : List Event) :
    reportAll sink (e :: events) = reportAll (report sink e) events := rfl

@[simp] theorem reportAll_append (sink : τ) (xs ys : List Event) :
    reportAll sink (xs ++ ys) = reportAll (reportAll sink xs) ys :=
  List.foldl_append

theorem report_collects (c : Collector) (x : Event) :
    report c x = if c.wants x.kind then { c with events := c.events ++ [x] } else c := by
  change (if c.wants x.kind then c.send x else c) = _
  split
  · next hwants => exact if_pos hwants
  · rfl

/-- A collector keeps the events of the kinds that it wants, in their order. -/
theorem reportAll_collects (c : Collector) (xs : List Event) :
    reportAll c xs = { c with events := c.events ++ xs.filter fun x => c.wants x.kind } := by
  induction xs generalizing c with
  | nil => simp
  | cons x xs ih =>
    rw [reportAll_cons, report_collects, List.filter_cons]
    split
    · simp only [ih, List.append_assoc, List.singleton_append]
      rfl
    · exact ih c

@[simp] theorem reportAll_collector (xs ys : List Event) :
    reportAll ({ events := xs } : Collector) ys = { events := xs ++ ys } := by
  have hall : ys.filter (fun y => ({ events := xs } : Collector).wants y.kind) = ys :=
    List.filter_eq_self.2 fun _ _ => rfl
  rw [reportAll_collects, hall]

end EventSink

open EventSink

/-- What is to be known of a step that began with some sink. -/
structure Stepped.Is {σ τ : Type} [EventSink τ] (x : Stepped σ τ) (sink : τ) (progressed : Bool)
    (engine : Engine σ) (events : List Event) : Prop where
  progressed : x.progressed = progressed
  engine : x.engine = engine
  sink : x.sink = reportAll sink events

namespace Engine
variable {σ : Type} [WordSource σ] {τ : Type} [EventSink τ]

/-- The draw that a step begins with. -/
def upcoming (e : Engine σ) : Drawn σ (Tier × NodeId) :=
  e.absorb.agenda.next e.absorb.graph e.absorb.source

def taken (e : Engine σ) : Engine σ :=
  { e.absorb with agenda := e.upcoming.agenda, source := e.upcoming.source }

def prepared (e : Engine σ) (tier : Tier) : Engine σ :=
  if tier = .pathSystem then { e with graph := e.graph.rebuildAdjacency pathThickness } else e

/-- What is reported before a node of a given tier is expanded. -/
def preparation (e : Engine σ) (tier : Tier) : List Event :=
  if tier = .pathSystem then [.adjacencyRebuilt (e.graph.contacts pathThickness).length] else []

def applied (e : Engine σ) (p : Production σ) (n : Node) : Event :=
  .ruleApplied (e.expandBy p n ()).engine.steps n.id n.symbol p.name (e.applyRule p n).1.result

def stepEvents (e : Engine σ) : List Event := (e.step ({} : Collector)).sink.events

section Preparation
omit [WordSource σ]

@[simp] theorem prepare_engine (e : Engine σ) (tier : Tier) (sink : τ) :
    (e.prepare tier sink).engine = e.prepared tier := by
  unfold prepare prepared
  split <;> rfl

@[simp] theorem prepare_sink (e : Engine σ) (tier : Tier) (sink : τ) :
    (e.prepare tier sink).sink = reportAll sink (e.preparation tier) := by
  unfold prepare preparation
  split <;> rfl

@[simp] theorem prepared_rules (e : Engine σ) (tier : Tier) :
    (e.prepared tier).rules = e.rules := by
  unfold prepared
  split <;> rfl

@[simp] theorem prepared_source (e : Engine σ) (tier : Tier) :
    (e.prepared tier).source = e.source := by
  unfold prepared
  split <;> rfl

@[simp] theorem prepared_agenda (e : Engine σ) (tier : Tier) :
    (e.prepared tier).agenda = e.agenda := by
  unfold prepared
  split <;> rfl

@[simp] theorem prepared_params (e : Engine σ) (tier : Tier) :
    (e.prepared tier).params = e.params := by
  unfold prepared
  split <;> rfl

@[simp] theorem prepared_steps (e : Engine σ) (tier : Tier) :
    (e.prepared tier).steps = e.steps := by
  unfold prepared
  split <;> rfl

end Preparation

section Expansion
omit [WordSource σ]
variable (e : Engine σ) (p : Production σ) (n : Node)

@[simp] theorem expandBy_graph : (e.expandBy p n ()).engine.graph =
    (p.apply e.params n.id e.graph e.source).graph.forgetChanges := by
  unfold expandBy
  simp only
  split <;> rfl

theorem expandBy_steps (h : (p.apply e.params n.id e.graph e.source).result ≠ .skipped) :
    (e.expandBy p n ()).engine.steps = e.steps + 1 := by
  have hresult : (e.applyRule p n).1.result ≠ .skipped := h
  simp only [expandBy, hresult, ne_eq, not_false_eq_true, decide_true, ↓reduceIte]
  rfl

theorem applied_eq (h : (p.apply e.params n.id e.graph e.source).result ≠ .skipped) :
    e.applied p n = .ruleApplied (e.steps + 1) n.id n.symbol p.name
      (p.apply e.params n.id e.graph e.source).result := by
  rw [applied, expandBy_steps e p n h]
  rfl

theorem expandBy_steps_of_skipped
    (h : (p.apply e.params n.id e.graph e.source).result = .skipped) :
    (e.expandBy p n ()).engine.steps = e.steps := by
  have hresult : (e.applyRule p n).1.result = .skipped := h
  simp only [expandBy, hresult, ne_eq, not_true_eq_false, decide_false, ↓reduceIte]
  rfl

theorem applied_of_skipped (h : (p.apply e.params n.id e.graph e.source).result = .skipped) :
    e.applied p n = .ruleApplied e.steps n.id n.symbol p.name .skipped := by
  rw [applied, expandBy_steps_of_skipped e p n h]
  exact congrArg (Event.ruleApplied e.steps n.id n.symbol p.name) h

end Expansion

/-! ### The four ways -/

section Ways
variable {e : Engine σ} {tier : Tier} {id : NodeId} {n : Node} (sink : τ)

theorem step_of_none (h : e.upcoming.found = none) : (e.step sink).Is sink false e.taken [] := by
  have heq : e.step sink = e.taken.idle sink := by
    unfold step
    simp only
    rw [show (e.absorb.agenda.next e.absorb.graph e.absorb.source).found = none from h]
    rfl
  rw [heq]
  exact ⟨rfl, rfl, rfl⟩

/-- A step that draws a node does what the expansion of that node does, after the preparation. -/
theorem step_of_some (h : e.upcoming.found = some (tier, id)) {progressed : Bool}
    {engine : Engine σ} {events : List Event}
    (hx : ∀ sink' : τ, (((e.taken.prepared tier).expand id sink').Is sink' progressed engine
      events)) :
    (e.step sink).Is sink progressed engine (e.taken.preparation tier ++ events) := by
  have hprepare : (e.taken.prepare tier sink).engine.expand id (e.taken.prepare tier sink).sink =
      (e.taken.prepared tier).expand id (reportAll sink (e.taken.preparation tier)) := by
    rw [prepare_engine, prepare_sink]
  have heq : (e.step sink).progressed = ((e.taken.prepared tier).expand id
        (reportAll sink (e.taken.preparation tier))).progressed ∧
      (e.step sink).engine = ((e.taken.prepared tier).expand id
        (reportAll sink (e.taken.preparation tier))).engine ∧
      (e.step sink).sink = ((e.taken.prepared tier).expand id
        (reportAll sink (e.taken.preparation tier))).sink := by
    rw [← hprepare]
    unfold step
    simp only
    rw [show (e.absorb.agenda.next e.absorb.graph e.absorb.source).found = some (tier, id) from h]
    exact ⟨rfl, rfl, rfl⟩
  have hx := hx (reportAll sink (e.taken.preparation tier))
  refine ⟨heq.1.trans hx.progressed, heq.2.1.trans hx.engine, heq.2.2.trans ?_⟩
  rw [hx.sink, reportAll_append]

theorem step_of_missing (h : e.upcoming.found = some (tier, id))
    (hn : (e.taken.prepared tier).graph.node? id = none) :
    (e.step sink).Is sink false (e.taken.prepared tier) (e.taken.preparation tier) := by
  have hx (sink' : τ) : ((e.taken.prepared tier).expand id sink').Is sink' false
      (e.taken.prepared tier) [] := by
    unfold expand
    rw [hn]
    exact ⟨rfl, rfl, rfl⟩
  simpa using step_of_some sink h hx

theorem step_of_unaccepted (h : e.upcoming.found = some (tier, id))
    (hn : (e.taken.prepared tier).graph.node? id = some n) {source : σ}
    (hp : pickRule e.rules n e.taken.source = (none, source)) :
    (e.step sink).Is sink false
      { e.taken.prepared tier with
        source
        agenda := e.taken.agenda.schedule n.id n.symbol }
      (e.taken.preparation tier ++ [.noProduction n]) := by
  refine step_of_some sink h fun sink' => ?_
  have hpick : pickRule (e.taken.prepared tier).rules n (e.taken.prepared tier).source =
      (none, source) := by
    rw [prepared_rules, prepared_source]
    exact hp
  unfold expand
  simp only [hn, hpick]
  exact ⟨rfl, by simp only [giveUp, prepared_agenda], rfl⟩

theorem step_of_rule (h : e.upcoming.found = some (tier, id))
    (hn : (e.taken.prepared tier).graph.node? id = some n) {source : σ} {p : Production σ}
    (hp : pickRule e.rules n e.taken.source = (some p, source)) :
    (e.step sink).Is sink
      (({ e.taken.prepared tier with source }.applyRule p n).1.result ≠ .skipped)
      ({ e.taken.prepared tier with source }.expandBy p n ()).engine
      (e.taken.preparation tier ++ [{ e.taken.prepared tier with source }.applied p n]) := by
  refine step_of_some sink h fun sink' => ?_
  have hpick : pickRule (e.taken.prepared tier).rules n (e.taken.prepared tier).source =
      (some p, source) := by
    rw [prepared_rules, prepared_source]
    exact hp
  unfold expand
  simp only [hn, hpick]
  exact ⟨rfl, rfl, rfl⟩

end Ways

/-! ### The part of the sink -/

theorem exists_step_is (e : Engine σ) : ∃ progressed engine events,
    ∀ {τ : Type} [EventSink τ] (sink : τ), (e.step sink).Is sink progressed engine events := by
  rcases h : e.upcoming.found with _ | ⟨tier, id⟩
  · exact ⟨_, _, _, fun sink => step_of_none sink h⟩
  · rcases hn : (e.taken.prepared tier).graph.node? id with _ | n
    · exact ⟨_, _, _, fun sink => step_of_missing sink h hn⟩
    · rcases hp : pickRule e.rules n e.taken.source with ⟨_ | p, source⟩
      · exact ⟨_, _, _, fun sink => step_of_unaccepted sink h hn hp⟩
      · exact ⟨_, _, _, fun sink => step_of_rule sink h hn hp⟩

/-- The sink is told of the events of a step and has no other part in it. -/
theorem step_is (e : Engine σ) (sink : τ) :
    (e.step sink).Is sink (e.step ()).progressed (e.step ()).engine e.stepEvents := by
  obtain ⟨progressed, engine, events, h⟩ := exists_step_is e
  have hevents : e.stepEvents = events := by
    unfold stepEvents
    rw [(h ({} : Collector)).sink, reportAll_collector]
    rfl
  rw [(h ()).progressed, (h ()).engine, hevents]
  exact h sink

theorem step_keeps (e : Engine σ) :
    (e.step ()).engine.rules = e.rules ∧ (e.step ()).engine.params = e.params := by
  have hprepared (tier : Tier) : (e.taken.prepared tier).rules = e.rules ∧
      (e.taken.prepared tier).params = e.params :=
    ⟨prepared_rules e.taken tier, prepared_params e.taken tier⟩
  rcases h : e.upcoming.found with _ | ⟨tier, id⟩
  · rw [(step_of_none () h).engine]
    exact ⟨rfl, rfl⟩
  · rcases hn : (e.taken.prepared tier).graph.node? id with _ | n
    · rw [(step_of_missing () h hn).engine]
      exact hprepared tier
    · rcases hp : pickRule e.rules n e.taken.source with ⟨_ | p, source⟩
      · rw [(step_of_unaccepted () h hn hp).engine]
        exact hprepared tier
      · rw [(step_of_rule () h hn hp).engine]
        unfold expandBy
        simp only
        split <;> exact hprepared tier

theorem stepEvents_of_is {e : Engine σ} {progressed : Bool} {engine : Engine σ}
    {events : List Event} (h : (e.step ({} : Collector)).Is {} progressed engine events) :
    e.stepEvents = events := by
  unfold stepEvents
  rw [h.sink, reportAll_collector]
  rfl

end Engine
end Parterre
