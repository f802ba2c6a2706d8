import Parterre.Proofs.GardenSteps
import Parterre.Rule.Scripted

/-! # The stream of events of a run

Whatever the rules are, a run reports in one shape: that it starts, what each of its steps reports,
that its budget is used up, if nodes are still pending then, and its summary.  A step that draws a
node ends its report with what became of that node, and all steps but the last one made progress. -/
namespace Parterre
open Chance EventSink

namespace EventSink
variable {τ : Type} [EventSink τ]

/-- Whether a sink wants events of all kinds, whatever it was sent before. -/
def WantsAll (sink : τ) : Prop := ∀ sent kind, wants (sendAll sink sent) kind = true

private theorem WantsAll.reportAll_eq {sink : τ} (h : WantsAll sink) (events : List Event) :
    reportAll sink events = sendAll sink events := by
  induction events generalizing sink with
  | nil => rfl
  | cons event events ih =>
    have hreport : report sink event = send sink event := if_pos (h [] event.kind)
    rw [reportAll_cons, hreport]
    exact ih fun sent => h (event :: sent)

private theorem wantsAll_collector (events : List Event) : WantsAll ({ events } : Collector) := by
  intro sent
  induction sent generalizing events with
  | nil => exact fun _ => rfl
  | cons event sent ih => exact ih (events ++ [event])

end EventSink

namespace Engine
variable {σ : Type} [WordSource σ]

def after (e : Engine σ) : Nat → Engine σ
  | 0 => e
  | n + 1 => (e.step ()).engine.after n

/-- Whether a step draws a node and reports one event of it, after the news that edges were found
anew if the node was drawn as a path system, and nothing else. -/
def ReportsOn (e : Engine σ) (Tells : Node → Event → Prop) : Prop :=
  ∃ t n last, e.upcoming.found = some (t, n.id) ∧ e.graph.node? n.id = some n ∧ Tells n last ∧
    e.stepEvents = (if t = .pathSystem then
      [.adjacencyRebuilt (e.graph.contacts pathThickness).length] else []) ++ [last]

/-- Whether a step reports that a production that accepts the node was applied to it, or rejected
its draw, as the step of this number. -/
def ReportsProgress (e : Engine σ) (step : Nat) : Prop :=
  e.ReportsOn fun n last => ∃ p ∈ e.rules.applicable n, ∃ outcome, outcome ≠ .skipped ∧
    last = .ruleApplied step n.id n.symbol p.name outcome

/-- Whether a step reports why it made no progress after so many steps that did: no production
accepts the node, or one that does passed it over.  A step that draws no node reports nothing. -/
def ReportsSetback (e : Engine σ) (steps : Nat) : Prop :=
  e.upcoming.found = none ∧ e.stepEvents = [] ∨
    e.ReportsOn fun n last => e.rules.applicable n = [] ∧ last = .noProduction n ∨
      ∃ p ∈ e.rules.applicable n, last = .ruleApplied steps n.id n.symbol p.name .skipped

/-! ### Steps -/

section Steps
variable {e : Engine σ} {t : Tier} {n : Node}

/-- The node drawn is there, whatever is on the agenda. -/
theorem exists_node_of_upcoming {id : NodeId} (h : e.upcoming.found = some (t, id)) :
    ∃ n, n.id = id ∧ e.graph.node? id = some n ∧
      (e.taken.prepared t).graph.node? id = some n := by
  have draws := Agenda.drawsAmong_nextAmong e.absorb.graph Tier.all (by decide) e.absorb.agenda
    e.absorb.source
  obtain ⟨x, hx, -⟩ := Agenda.isLive_iff.1 (draws.live_of_some t id h).1
  have hprepared : (e.taken.prepared t).graph.element? id = some x :=
    (Gardening.prepared_element? e.taken t id).trans hx
  exact ⟨⟨id, x⟩, rfl, Graph.node?_eq_some_iff.2 ⟨hx, rfl⟩,
    Graph.node?_eq_some_iff.2 ⟨hprepared, rfl⟩⟩

private theorem reportsOn_of_events {Tells : Node → Event → Prop} {last : Event}
    (hfound : e.upcoming.found = some (t, n.id)) (hn : e.graph.node? n.id = some n)
    (hevents : e.stepEvents = e.taken.preparation t ++ [last]) (htells : Tells n last) :
    e.ReportsOn Tells :=
  ⟨t, n, last, hfound, hn, htells, hevents⟩

theorem step_reports (e : Engine σ) :
    ((e.step ()).progressed = true ∧ (e.step ()).engine.steps = e.steps + 1 ∧
      e.ReportsProgress (e.steps + 1)) ∨
    ((e.step ()).progressed = false ∧ (e.step ()).engine.steps = e.steps ∧
      e.ReportsSetback e.steps) := by
  rcases hfound : e.upcoming.found with _ | ⟨t, id⟩
  · have hidle := step_of_none () hfound
    refine .inr ⟨hidle.progressed, ?_, .inl ⟨hfound, stepEvents_of_is (step_of_none _ hfound)⟩⟩
    rw [hidle.engine]
    rfl
  · obtain ⟨n, rfl, hn, hprepared⟩ := exists_node_of_upcoming hfound
    have hsteps : (e.taken.prepared t).steps = e.steps := prepared_steps e.taken t
    rcases hp : pickRule e.rules n e.taken.source with ⟨_ | p, source⟩
    · have hstep := step_of_unaccepted () hfound hprepared hp
      have hevents := stepEvents_of_is (step_of_unaccepted _ hfound hprepared hp)
      have hnone : e.rules.applicable n = [] := Classical.byContradiction fun hsome => by
        obtain ⟨p, source', hp'⟩ := exists_pickRule hsome e.taken.source
        rw [hp] at hp'
        cases hp'
      refine .inr ⟨hstep.progressed, ?_,
        .inr (reportsOn_of_events hfound hn hevents (.inl ⟨hnone, rfl⟩))⟩
      rw [hstep.engine]
      exact hsteps
    · have hstep := step_of_rule () hfound hprepared hp
      have hevents := stepEvents_of_is (step_of_rule _ hfound hprepared hp)
      have haccepted := mem_of_pickRule hp
      rw [← hsteps]
      by_cases hskipped : (p.apply (e.taken.prepared t).params n.id (e.taken.prepared t).graph
          source).result = .skipped
      · rw [applied_of_skipped _ p n hskipped] at hevents
        refine .inr ⟨?_, ?_,
          .inr (reportsOn_of_events hfound hn hevents (.inr ⟨p, haccepted, rfl⟩))⟩
        · rw [hstep.progressed]
          exact decide_eq_false (not_not_intro hskipped)
        · rw [hstep.engine]
          exact expandBy_steps_of_skipped _ p n hskipped
      · rw [applied_eq _ p n hskipped] at hevents
        refine .inl ⟨?_, ?_,
          reportsOn_of_events hfound hn hevents ⟨p, haccepted, _, hskipped, rfl⟩⟩
        · rw [hstep.progressed]
          exact decide_eq_true hskipped
        · rw [hstep.engine]
          exact expandBy_steps _ p n hskipped

theorem step_of_progress (h : (e.step ()).progressed = true) :
    (e.step ()).engine.steps = e.steps + 1 ∧ e.ReportsProgress (e.steps + 1) := by
  rcases e.step_reports with ⟨-, hreports⟩ | ⟨hidle, -⟩
  · exact hreports
  · rw [h] at hidle
    cases hidle

theorem step_of_setback (h : (e.step ()).progressed = false) :
    (e.step ()).engine.steps = e.steps ∧ e.ReportsSetback e.steps := by
  rcases e.step_reports with ⟨hprogress, -⟩ | ⟨-, hreports⟩
  · rw [h] at hprogress
    cases hprogress
  · exact hreports

end Steps

/-! ### Walks -/

section Walks
variable {e : Engine σ}

@[simp] theorem after_succ (n : Nat) (e : Engine σ) :
    e.after (n + 1) = ((e.after n).step ()).engine := by
  induction n generalizing e with
  | zero => rfl
  | succ n ih => exact ih (e.step ()).engine

/-- What a walk does that makes progress `k` times: one more step fails, if the budget allows it. -/
structure Strides (e : Engine σ) (budget k : Nat) : Prop where
  le : k ≤ budget
  steps : (walk budget e ()).steps = k
  engine : (walk budget e ()).engine = e.after (min (k + 1) budget)
  trail : trail budget e = (List.range (min (k + 1) budget)).map e.after
  progress : ∀ i < k, ((e.after i).step ()).progressed = true
  stop : k < budget → ((e.after k).step ()).progressed = false

private theorem exists_strides (budget : Nat) (e : Engine σ) : ∃ k, e.Strides budget k := by
  induction budget generalizing e with
  | zero => exact ⟨0, Nat.le_refl 0, rfl, rfl, rfl, nofun, nofun⟩
  | succ budget ih =>
    cases hprogress : (e.step ()).progressed with
    | true =>
      obtain ⟨k, h⟩ := ih (e.step ()).engine
      obtain ⟨hengine, hsteps⟩ := walk_of_progress hprogress budget
      have hmin : min (k + 1 + 1) (budget + 1) = min (k + 1) budget + 1 := by omega
      refine ⟨k + 1, Nat.succ_le_succ h.le, ?_, ?_, ?_, ?_, ?_⟩
      · rw [hsteps, h.steps]
      · rw [hengine, hmin, h.engine]
        rfl
      · rw [hmin, List.range_succ_eq_map, List.map_cons, List.map_map, trail, if_pos hprogress,
          h.trail]
        rfl
      · rintro (_ | i) hi
        · exact hprogress
        · exact h.progress i (Nat.lt_of_succ_lt_succ hi)
      · exact fun hk => h.stop (Nat.lt_of_succ_lt_succ hk)
    | false =>
      obtain ⟨hengine, hsteps⟩ := walk_of_idle hprogress budget
      have hmin : min (0 + 1) (budget + 1) = 1 := by omega
      refine ⟨0, Nat.zero_le _, hsteps, ?_, ?_, nofun, fun _ => hprogress⟩
      · rw [hmin, hengine]
        rfl
      · rw [hmin, trail, if_neg (by simp [hprogress])]
        rfl

theorem strides (e : Engine σ) (budget : Nat) : e.Strides budget (walk budget e ()).steps := by
  obtain ⟨k, h⟩ := exists_strides budget e
  rwa [h.steps]

private theorem after_steps {k : Nat} (h : ∀ i < k, ((e.after i).step ()).progressed = true) :
    (e.after k).steps = e.steps + k := by
  induction k with
  | zero => rfl
  | succ k ih =>
    have hk := ih fun i hi => h i (Nat.lt_succ_of_lt hi)
    rw [after_succ, (step_of_progress (h k (Nat.lt_succ_self k))).1, hk]
    rfl

namespace Strides
variable {budget k i : Nat}

theorem steps_eq (h : e.Strides budget k) (hi : i ≤ k) : (e.after i).steps = e.steps + i :=
  after_steps fun j hj => h.progress j (Nat.lt_of_lt_of_le hj hi)

private theorem reportsProgress (h : e.Strides budget k) (hi : i < k) :
    (e.after i).ReportsProgress (e.steps + i + 1) := by
  rw [← h.steps_eq (Nat.le_of_lt hi)]
  exact (step_of_progress (h.progress i hi)).2

private theorem reportsSetback (h : e.Strides budget k) (hk : k < budget) :
    (e.after k).ReportsSetback (e.steps + k) := by
  rw [← h.steps_eq (Nat.le_refl k)]
  exact (step_of_setback (h.stop hk)).2

theorem engine_steps (h : e.Strides budget k) :
    (walk budget e ()).engine.steps = e.steps + k := by
  rw [h.engine]
  rcases Nat.lt_or_eq_of_le h.le with hshort | rfl
  · rw [Nat.min_eq_left hshort, after_succ, (step_of_setback (h.stop hshort)).1]
    exact h.steps_eq (Nat.le_refl k)
  · rw [Nat.min_eq_right (Nat.le_succ k)]
    exact h.steps_eq (Nat.le_refl k)

end Strides

end Walks

/-! ### Runs -/

omit [WordSource σ] in
theorem isComplete_eq (e : Engine σ) : e.isComplete = decide (e.pending = 0) := by
  rw [Bool.eq_iff_iff]
  simp [isComplete, pending, Graph.hasNonterminals, Graph.nonterminals]

private theorem closing_eq (e : Engine σ) (budget : Nat) :
    let walked := walk budget e ()
    e.closing budget = (if walked.steps = budget ∧ 0 < walked.engine.pending then
      [.budgetExhausted walked.steps walked.engine.pending] else []) ++
      [.runFinished ⟨walked.steps, walked.engine.isComplete, walked.engine.graph.nodeCount⟩] := by
  have hshort (e : Engine σ) (steps : Nat) :
      (!e.isComplete && decide (steps = budget)) = true ↔ steps = budget ∧ 0 < e.pending := by
    simp [isComplete_eq, Nat.pos_iff_ne_zero, and_comm]
  unfold closing
  simp only [hshort]

/-- What a run reports, whatever the rules are, to a sink that wants everything: that it starts; one
block for each of its steps, of which the first `k` tell of progress, with the numbers that follow
that of the steps so far, and at most one more tells of a setback, if the budget was not used up;
that the budget is used up, if it is and nodes are pending; and at last the summary. -/
theorem run_reports (e : Engine σ) (budget : Nat) {τ : Type} [EventSink τ] {sink : τ}
    (hsink : WantsAll sink) :
    let ran := e.run budget sink
    let k := ran.summary.steps
    ran.sink = sendAll sink (
      .runStarted budget e.graph.nodeCount ::
        (List.range (min (k + 1) budget)).flatMap (fun i => (e.after i).stepEvents) ++
      (if k = budget ∧ 0 < ran.engine.pending then
        [.budgetExhausted k ran.engine.pending] else []) ++
      [.runFinished ran.summary]) ∧
    k ≤ budget ∧
    (∀ i < k, (e.after i).ReportsProgress (e.steps + i + 1)) ∧
    (k < budget → (e.after k).ReportsSetback (e.steps + k)) ∧
    ran.summary = ⟨k, ran.engine.pending = 0, ran.engine.graph.nodeCount⟩ ∧
    ran.engine = e.after (min (k + 1) budget) ∧
    ran.engine.steps = e.steps + k := by
  intro ran k
  have hsink_eq : ran.sink = reportAll sink (e.callEvents (.run budget)) := run_sink e budget sink
  have hsummary : ran.summary = _ := run_summary e budget sink
  have hengine : ran.engine = (walk budget e ()).engine := run_engine e budget sink
  have hk : k = (walk budget e ()).steps := congrArg RunSummary.steps hsummary
  have h : e.Strides budget k := hk ▸ strides e budget
  refine ⟨?_, h.le, fun i => h.reportsProgress, h.reportsSetback, ?_,
    hengine.trans h.engine, ?_⟩
  · rw [hsink_eq, hsink.reportAll_eq, hengine, hk]
    refine congrArg (sendAll sink) ?_
    rw [callEvents, closing_eq, h.trail, List.flatMap_map, hsummary, ← hk, List.append_assoc]
  · rw [hsummary, hengine, isComplete_eq, ← hk]
  · rw [hengine]
    exact h.engine_steps

/-- A small garden, for examples, whose area is turfed at once and whose paths are passed over. -/
def turfed : Engine WordCycle :=
  let turf : Script :=
    { name := "turf", symbol := .area, outcome := .applied
      replacement := some (.grassRect ⟨0.0, 0.0, 60.0, 60.0⟩) }
  let noPaths : Script := { name := "no_paths", symbol := .pathSystem, outcome := .skipped }
  (start ⟨0.0, 0.0, 60.0, 60.0⟩ {} (WordCycle.ofList [7])).withRules
    ⟨[.gardenSplit, turf.toProduction, noPaths.toProduction]⟩

/-- Two steps make progress, and the third one, which finds the edges anew, does not. -/
theorem run_reports_turfed :
    WantsAll ({} : Collector) ∧
    (turfed.run 9 ({} : Collector)).sink.events =
      [.runStarted 9 1, .ruleApplied 1 1 .garden "garden_split" .applied,
        .ruleApplied 2 2 .area "turf" .applied, .adjacencyRebuilt 0,
        .ruleApplied 2 3 .pathSystem "no_paths" .skipped, .runFinished ⟨2, false, 2⟩] ∧
    (let ran := turfed.run 9 ({} : Collector)
    let k := ran.summary.steps
    ran.sink = sendAll {} (
      .runStarted 9 turfed.graph.nodeCount ::
        (List.range (min (k + 1) 9)).flatMap (fun i => (turfed.after i).stepEvents) ++
      (if k = 9 ∧ 0 < ran.engine.pending then
        [.budgetExhausted k ran.engine.pending] else []) ++
      [.runFinished ran.summary]) ∧
    k ≤ 9 ∧
    (∀ i < k, (turfed.after i).ReportsProgress (turfed.steps + i + 1)) ∧
    (k < 9 → (turfed.after k).ReportsSetback (turfed.steps + k)) ∧
    ran.summary = ⟨k, ran.engine.pending = 0, ran.engine.graph.nodeCount⟩ ∧
    ran.engine = turfed.after (min (k + 1) 9) ∧
    ran.engine.steps = turfed.steps + k) :=
  ⟨wantsAll_collector [], by decide +kernel, run_reports turfed 9 (wantsAll_collector [])⟩

end Engine
end Parterre
