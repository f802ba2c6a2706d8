import Parterre.Proofs.Expansions
import Parterre.Proofs.PendingWork

/-! # Steps by the garden grammar

With the standard rules a step either finds the garden complete, or expands a live node of the
highest tier that has one.  So a derivation never stalls: there is always a production that accepts
the node drawn, and it never passes the node over. -/
namespace Parterre
open Chance EventSink

/-- Whether an event tells that a node could not be expanded. -/
def Event.isSetback : Event → Bool
  | .warning .. => true
  | .ruleApplied _ _ _ _ outcome => outcome = .skipped
  | _ => false

namespace Graph

/-- The plan of a garden: its one node. -/
def Planned (g : Graph) (working : Rect) : Prop :=
  ∃ id, ∀ i, g.element? i = if i = id then some (.garden working) else none

variable {g g' : Graph} {working : Rect} {id : NodeId} {e : Element} {x : Expansion}

theorem Planned.of_eq (h : g.Planned working) (he : ∀ i, g'.element? i = g.element? i) :
    g'.Planned working := by
  obtain ⟨id, hid⟩ := h
  exact ⟨id, fun i => (he i).trans (hid i)⟩

theorem Planned.eq_garden (h : g.Planned working) (he : g.element? id = some e) :
    e = .garden working ∧ ∀ i, i ≠ id → g.element? i = none := by
  obtain ⟨id', hplanned⟩ := h
  have hn := hplanned id
  rw [he] at hn
  split at hn
  · next hid =>
    refine ⟨Option.some.inj hn, fun i hi => ?_⟩
    rw [hplanned, if_neg (hid ▸ hi)]
  · cases hn

/-- Once the garden is expanded, all nodes are new. -/
theorem Planned.element?_expanded_cases (h : g.Planned working) (hg : g.Fresh)
    (he : g.element? id = some e) (hstays : x.stays = none) {i : NodeId} {y : Element}
    (hy : (g.expanded id x).element? i = some y) :
    ∃ k, i = g.nextId + k ∧ x.added[k]? = some y := by
  rcases Graph.element?_expanded_cases hg he hy with ⟨hi, hold⟩ | ⟨-, hself⟩ | hadded
  · rw [(h.eq_garden he).2 i hi] at hold
    cases hold
  · rw [hstays] at hself
    cases hself
  · exact hadded

end Graph

namespace Engine
variable {σ : Type} [WordSource σ]

theorem planned_start (working : Rect) (params : Params) (source : σ) :
    (start working params source).graph.Planned working := by
  refine ⟨1, fun i => ?_⟩
  change (Graph.empty.trackChanges.add (.garden working)).element? i = _
  rw [Graph.element?_add]
  simp only [Graph.empty, Graph.trackChanges, Graph.element?, Table.get?_empty, eq_comm]

/-- An engine as it is built for a working rectangle, given as such or left over by a plot. -/
inductive Begun (working : Rect) (params : Params) (e : Engine σ) : Prop where
  | create (source : σ) (h : create working params source = .ok e)
  | forPlot (plot : Plot) (source : σ) (hworking : plot.workingRect = working)
      (h : forPlot plot params source = .ok e)

theorem create_eq_ok_iff {working : Rect} {params : Params} {source : σ} {e : Engine σ} :
    create working params source = .ok e ↔
      params.validate = .ok () ∧ working.validateWorking = .ok () ∧
        e = start working params source := by
  unfold create
  cases hparams : params.validate with
  | error r => simp [bind, Except.bind]
  | ok _ =>
    cases hworking : working.validateWorking with
    | error r => simp [bind, Except.bind]
    | ok _ => simp [bind, Except.bind, pure, Except.pure, eq_comm]

theorem forPlot_eq_ok_iff {plot : Plot} {params : Params} {source : σ} {e : Engine σ} :
    forPlot plot params source = .ok e ↔
      plot.validate = .ok () ∧ params.validate = .ok () ∧
        e = start plot.workingRect params source := by
  unfold forPlot
  cases hplot : plot.validate with
  | error r => simp [bind, Except.bind]
  | ok _ =>
    have hworking : plot.workingRect.validateWorking = .ok () := hplot
    change create plot.workingRect params source = .ok e ↔ _
    rw [create_eq_ok_iff, hworking]
    simp only [true_and]

/-- However an engine is built, its inputs were accepted. -/
theorem Begun.eq_start {working : Rect} {params : Params} {e : Engine σ}
    (h : Begun working params e) : params.validate = .ok () ∧ working.validateWorking = .ok () ∧
      ∃ source, e = start working params source := by
  cases h with
  | create source h =>
    obtain ⟨hparams, hworking, he⟩ := create_eq_ok_iff.1 h
    exact ⟨hparams, hworking, source, he⟩
  | forPlot plot source hworking h =>
    obtain ⟨hplot, hparams, he⟩ := forPlot_eq_ok_iff.1 h
    rw [← hworking]
    exact ⟨hparams, hplot, source, he⟩

/-- A middling garden, for examples, whose words come round again. -/
def middling : Engine WordCycle :=
  start ⟨10.0, 10.0, 580.0, 480.0⟩ {} (WordCycle.ofList [7, 3000000000])

theorem begun_middling : Begun ⟨10.0, 10.0, 580.0, 480.0⟩ {} middling :=
  .create _ (create_eq_ok_iff.2 ⟨rfl, rfl, rfl⟩)

theorem leads_middling {calls : List (Call WordCycle)} (h : ∀ c ∈ calls, c.KeepsRules) :
    Leads (fun _ => False) middling (middling.performAll () calls).engine :=
  leads_performAll () h

/-- The state of an engine that works by the garden grammar, between two calls. -/
structure Gardening (e : Engine σ) : Prop where
  attended : e.Attended
  rules : e.rules = .standard
  fresh : e.graph.Fresh

/-- What a step does that expands the node `n` of the tier `t` by the production called `name`. -/
structure Advances (e : Engine σ) (t : Tier) (n : Node) (name : String) (outcome : Outcome) :
    Prop where
  node : e.graph.element? n.id = some n.element
  tier : Tier.of? n.symbol = some t
  higher : ∀ u ∈ Tier.all.takeWhile (· ≠ t), ∀ i, Agenda.isLive e.graph u i = false
  progressed : (e.step ()).progressed = true
  steps : (e.step ()).engine.steps = e.steps + 1
  events : e.stepEvents =
    e.preparation t ++ [.ruleApplied (e.steps + 1) n.id n.symbol name outcome]
  graph : outcome = .applied ∧ (∃ x, Expands σ e.params (e.prepared t).graph n.element name x ∧
      (e.step ()).engine.graph = ((e.prepared t).graph.expanded n.id x).forgetChanges) ∨
    outcome = .rejected ∧ name = "area_split" ∧ n.symbol = .area ∧
      (e.step ()).engine.graph = e.graph

/-- Of the events of a step only the last one tells of a production. -/
theorem Advances.ruleApplied_eq {e : Engine σ} {t : Tier} {n : Node} {name name' : String}
    {outcome outcome' : Outcome} (h : e.Advances t n name outcome) {step : Nat} {id : NodeId}
    {symbol : Symbol} (hmem : .ruleApplied step id symbol name' outcome' ∈ e.stepEvents) :
    Event.ruleApplied step id symbol name' outcome' =
      .ruleApplied (e.steps + 1) n.id n.symbol name outcome := by
  rw [h.events, List.mem_append, List.mem_singleton] at hmem
  refine hmem.resolve_left fun hpreparation => ?_
  unfold preparation at hpreparation
  split at hpreparation
  · cases List.mem_singleton.1 hpreparation
  · cases hpreparation

omit [WordSource σ] in
theorem Attended.absorb_eq {e : Engine σ} (h : e.Attended) : e.absorb = e := by
  have hgraph : e.graph.forgetChanges = e.graph := by
    have hc := h.changes
    unfold Graph.forgetChanges
    rw [hc, Option.map_some, ← hc]
  have hagenda : e.agenda.absorb e.graph = e.agenda := by
    simp only [Agenda.absorb, Graph.recordedChanges, h.changes, Option.getD_some, List.foldl_nil]
  unfold Engine.absorb
  rw [hgraph, hagenda]

omit [WordSource σ] in
theorem Attended.absorb_graph {e : Engine σ} (h : e.Attended) : e.absorb.graph = e.graph :=
  congrArg Engine.graph h.absorb_eq

omit [WordSource σ] in
@[simp] theorem Gardening.prepared_element? (e : Engine σ) (t : Tier) (id : NodeId) :
    (e.prepared t).graph.element? id = e.graph.element? id := by
  unfold prepared
  split
  · exact Graph.element?_rebuildAdjacency _ _ _
  · rfl

namespace Attended
variable {e : Engine σ}

theorem taken_prepared (h : e.Attended) (t : Tier) :
    (e.taken.prepared t).graph = (e.prepared t).graph := by
  unfold prepared taken
  rw [h.absorb_eq]
  split <;> rfl

/-- The node that a step draws is still there once the graph is prepared for it. -/
theorem draws (h : e.Attended) {t : Tier} {id : NodeId}
    (hfound : e.upcoming.found = some (t, id)) :
    ∃ n, n.id = id ∧ e.graph.node? n.id = some n ∧ Tier.of? n.symbol = some t ∧
      (e.taken.prepared t).graph.node? n.id = some n := by
  obtain ⟨n, hn, ht, -⟩ := h.upcoming_eq_some hfound
  obtain ⟨hx, rfl⟩ := Graph.node?_eq_some_iff.1 hn
  refine ⟨n, rfl, hn, ht, ?_⟩
  rw [h.taken_prepared, Graph.node?_eq_some_iff, Gardening.prepared_element?]
  exact ⟨hx, rfl⟩

end Attended

theorem exists_pickRule_standard {n : Node} (hs : n.symbol.isNonterminal = true) (source : σ) :
    ∃ p source', pickRule .standard n source = (some p, source') := by
  obtain ⟨p, hp⟩ := RuleSet.exists_mem_applicable (σ := σ) hs
  exact exists_pickRule (List.ne_nil_of_mem hp) source

namespace Gardening
variable {e : Engine σ}

theorem start (working : Rect) (params : Params) (source : σ) :
    (start working params source).Gardening := by
  refine ⟨attended_start working params source, rfl, ?_⟩
  exact (Graph.fresh_empty.add (.garden working)).of_eq (fun _ => rfl) rfl

private theorem taken_preparation (h : e.Gardening) (t : Tier) :
    e.taken.preparation t = e.preparation t := by
  unfold preparation
  rw [show e.taken.graph = e.graph from h.attended.absorb_graph]

theorem fresh_prepared (h : e.Gardening) (t : Tier) : (e.prepared t).graph.Fresh := by
  unfold prepared
  split
  · exact h.fresh.of_eq (Graph.element?_rebuildAdjacency _ _) (Graph.nextId_rebuildAdjacency _ _)
  · exact h.fresh

/-- The node that is drawn is there, some production of the grammar is picked for it, and what that
does is an expansion, or the rejection of a cut. -/
theorem draws (h : e.Gardening) {tier : Tier} {id : NodeId}
    (hfound : e.upcoming.found = some (tier, id)) :
    ∃ n p source, n.id = id ∧ e.graph.element? n.id = some n.element ∧
      Tier.of? n.symbol = some tier ∧ (e.taken.prepared tier).graph.node? id = some n ∧
      pickRule e.rules n e.taken.source = (some p, source) ∧
      (p.apply e.params id (e.taken.prepared tier).graph source).Expands e.params
        (e.prepared tier).graph id n.element p.name := by
  obtain ⟨n, rfl, hnode, ht, hn⟩ := h.attended.draws hfound
  obtain ⟨p, source, hp⟩ := exists_pickRule_standard (Tier.exists_of?_iff.1 ⟨tier, ht⟩)
    e.taken.source
  refine ⟨n, p, source, rfl, (Graph.node?_eq_some_iff.1 hnode).1, ht, hn,
    by rw [h.rules]; exact hp, ?_⟩
  rw [h.attended.taken_prepared] at hn ⊢
  exact Production.apply_expands (mem_of_pickRule hp) (h.fresh_prepared tier)
    (Graph.node?_eq_some_iff.1 hn).1 e.params source

private theorem advances (h : e.Gardening) {t : Tier} {id : NodeId}
    (hfound : e.upcoming.found = some (t, id)) :
    ∃ n name outcome, e.Advances t n name outcome := by
  obtain ⟨n, p, source, rfl, hx, ht, hn, hp, hwork⟩ := h.draws hfound
  obtain ⟨-, -, -, hhigher⟩ := h.attended.upcoming_eq_some hfound
  -- the production is applied to what the draw and the preparation left
  let ready : Engine σ := { e.taken.prepared t with source }
  let work := p.apply e.params n.id (e.taken.prepared t).graph source
  have happly : p.apply ready.params n.id ready.graph ready.source = work :=
    congrArg (fun params => p.apply params n.id (e.taken.prepared t).graph source)
      (prepared_params e.taken t)
  have hresult : (p.apply ready.params n.id ready.graph ready.source).result ≠ .skipped := by
    rw [happly]
    exact hwork.result_ne_skipped
  have hsteps : ready.steps = e.steps := prepared_steps e.taken t
  have hgraph : (ready.expandBy p n ()).engine.graph = work.graph.forgetChanges := by
    rw [expandBy_graph ready p n, happly]
  have hrule := step_of_rule () hfound hn hp
  have hevents := stepEvents_of_is (step_of_rule _ hfound hn hp)
  refine ⟨n, p.name, work.result, hx, ht, hhigher, ?_, ?_, ?_, ?_⟩
  · rw [hrule.progressed]
    exact decide_eq_true hresult
  · rw [hrule.engine, ← hsteps]
    exact expandBy_steps ready p n hresult
  · rw [hevents, h.taken_preparation]
    refine congrArg (e.preparation t ++ [·]) ?_
    rw [← hsteps, ← happly]
    exact applied_eq ready p n hresult
  · rw [hrule.engine]
    rcases hwork with ⟨happlied, x, hexpands, hg⟩ | ⟨hrejected, hname, hsymbol, hg⟩
    · exact .inl ⟨happlied, x, hexpands, by rw [hgraph, hg]⟩
    · -- areas need no preparation
      obtain rfl : t = .area := by
        have hn : n.symbol = .area := hsymbol
        rw [hn] at ht
        exact (Option.some.inj ht).symm
      refine .inr ⟨hrejected, hname, hsymbol, ?_⟩
      rw [hgraph, hg]
      exact h.attended.absorb_graph

theorem step_cases (h : e.Gardening) :
    (e.graph.hasNonterminals = false ∧ (e.step ()).progressed = false ∧
      (e.step ()).engine.graph = e.graph ∧ (e.step ()).engine.steps = e.steps ∧
      e.stepEvents = []) ∨
    ∃ t n name outcome, e.Advances t n name outcome := by
  rcases hfound : e.upcoming.found with _ | ⟨t, id⟩
  · left
    have hidle := step_of_none () hfound
    refine ⟨h.attended.upcoming_eq_none_iff.1 hfound, hidle.progressed, ?_, ?_,
      stepEvents_of_is (step_of_none _ hfound)⟩
    · rw [hidle.engine]
      exact h.attended.absorb_graph
    · rw [hidle.engine]
      rfl
  · exact .inr ⟨t, h.advances hfound⟩

theorem step (h : e.Gardening) : (e.step ()).engine.Gardening := by
  obtain ⟨hrules, -⟩ := step_keeps e
  refine ⟨h.attended.step (by rw [h.rules]; exact RuleSet.byEdits_standard),
    hrules.trans h.rules, ?_⟩
  rcases h.step_cases with ⟨-, -, hgraph, -⟩ | ⟨t, n, name, outcome, hadv⟩
  · rw [hgraph]
    exact h.fresh
  · rcases hadv.graph with ⟨-, x, -, hgraph⟩ | ⟨-, -, -, hgraph⟩
    · rw [hgraph]
      exact ((h.fresh_prepared t).expanded n.id x).of_eq (fun _ => rfl) rfl
    · rw [hgraph]
      exact h.fresh

theorem not_setback_of_mem_stepEvents (h : e.Gardening) {event : Event}
    (hmem : event ∈ e.stepEvents) : event.isSetback = false := by
  rcases h.step_cases with ⟨-, -, -, -, hnone⟩ | ⟨t, n, name, outcome, hadv⟩
  · simp [hnone] at hmem
  · rw [hadv.events, List.mem_append, List.mem_singleton] at hmem
    rcases hmem with hmem | rfl
    · unfold preparation at hmem
      split at hmem
      · rw [List.mem_singleton.1 hmem]
        rfl
      · cases hmem
    · rcases hadv.graph with ⟨rfl, -⟩ | ⟨rfl, -⟩ <;> rfl

end Gardening

theorem Advances.prepared_node {e : Engine σ} {t : Tier} {n : Node} {name : String}
    {outcome : Outcome} (h : e.Advances t n name outcome) :
    (e.prepared t).graph.element? n.id = some n.element :=
  (Gardening.prepared_element? e t n.id).trans h.node

variable {working : Rect} {params : Params} {e₀ e : Engine σ}

theorem Begun.gardening (h : Begun working params e₀) (hl : Leads (fun _ => False) e₀ e) :
    e.Gardening ∧ e.params = params := by
  obtain ⟨-, -, source, rfl⟩ := h.eq_start
  refine hl.preserves (P := fun e => e.Gardening ∧ e.params = params)
    ⟨.start working params source, rfl⟩ ?_ fun _ _ hno => hno.elim
  rintro e ⟨hg, hparams⟩
  exact ⟨hg.step, (step_keeps e).2.trans hparams⟩

private theorem Gardening.not_setback_of_mem_callEvents (h : e.Gardening) {c : Call σ}
    (hc : c.KeepsRules) {event : Event} (hmem : event ∈ e.callEvents c) :
    event.isSetback = false := by
  cases c with
  | step => exact h.not_setback_of_mem_stepEvents hmem
  | withRules rules => exact hc.elim
  | run budget =>
    simp only [callEvents, closing, List.mem_append, List.mem_cons, List.mem_flatMap] at hmem
    rcases hmem with (rfl | ⟨e', he', hmem⟩) | hmem | hmem
    · rfl
    · have hl : Leads (fun _ => False) e e' := leads_of_mem_trail he'
      have hg : e'.Gardening :=
        hl.preserves h (fun _ hg => hg.step) fun _ _ hno => hno.elim
      exact hg.not_setback_of_mem_stepEvents hmem
    · split at hmem
      · rw [List.mem_singleton.1 hmem]
        rfl
      · cases hmem
    · rcases hmem with rfl | hmem
      · rfl
      · cases hmem

/-- A derivation from an accepted input never stalls.  A step fails to make progress only if the
garden is complete; the node that it draws is there, some production accepts it, and that one does
not pass it over.  So no call reports a warning or a skipped node. -/
theorem derivation_never_stalls (hbegun : Begun working params e₀)
    (hleads : Leads (fun _ => False) e₀ e) :
    (∀ (τ : Type) [EventSink τ] (sink : τ),
      (e.step sink).progressed = false ↔ e.isComplete = true) ∧
    (∀ tier id, e.upcoming.found = some (tier, id) → ∃ n p source,
      (e.taken.prepared tier).graph.node? id = some n ∧
      pickRule e.rules n e.taken.source = (some p, source) ∧
      (p.apply e.params id (e.taken.prepared tier).graph source).result ≠ .skipped) ∧
    (∀ c : Call σ, c.KeepsRules → ∀ event ∈ (e.perform ({} : Collector) c).sink.events,
      event.isSetback = false) := by
  obtain ⟨hg, -⟩ := hbegun.gardening hleads
  refine ⟨fun τ _ sink => ?_, fun tier id hfound => ?_, fun c hc event hmem => ?_⟩
  · rw [(step_is e sink).progressed]
    rcases hg.step_cases with ⟨hno, hidle, -⟩ | ⟨t, n, name, outcome, hadv⟩
    · simp [hidle, isComplete, hno]
    · have hyes : e.graph.hasNonterminals = true :=
        Graph.hasNonterminals_iff.2 ⟨_, _, hadv.node, Tier.exists_of?_iff.1 ⟨t, hadv.tier⟩⟩
      simp [hadv.progressed, isComplete, hyes]
  · obtain ⟨n, p, source, -, -, -, hn, hp, hwork⟩ := hg.draws hfound
    exact ⟨n, p, source, hn, hp, hwork.result_ne_skipped⟩
  · rw [perform_sink, reportAll_collector] at hmem
    exact hg.not_setback_of_mem_callEvents hc (by simpa using hmem)

/-- Some steps into the middling garden. -/
theorem derivation_never_stalls_midway :
    let e := (middling.performAll () [.step, .run 2]).engine
    Begun ⟨10.0, 10.0, 580.0, 480.0⟩ {} middling ∧ Leads (fun _ => False) middling e ∧
      (∀ (τ : Type) [EventSink τ] (sink : τ),
        (e.step sink).progressed = false ↔ e.isComplete = true) ∧
      (∀ tier id, e.upcoming.found = some (tier, id) → ∃ n p source,
        (e.taken.prepared tier).graph.node? id = some n ∧
        pickRule e.rules n e.taken.source = (some p, source) ∧
        (p.apply e.params id (e.taken.prepared tier).graph source).result ≠ .skipped) ∧
      (∀ c : Call WordCycle, c.KeepsRules →
        ∀ event ∈ (e.perform ({} : Collector) c).sink.events, event.isSetback = false) := by
  intro e
  have hleads : Leads (fun _ => False) middling e := leads_middling (by simp [Call.Within])
  exact ⟨begun_middling, hleads, derivation_never_stalls begun_middling hleads⟩

end Engine
end Parterre
