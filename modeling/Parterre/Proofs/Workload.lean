import Parterre.Proofs.EventStream
import Parterre.Proofs.NodeLists

/-! # The work that is left

Neither the number of nodes nor that of steps bounds a derivation: cuts add nodes, laying a terrain
may leave a flower area to be planted, and a cut that leaves a sliver counts as a step and changes
nothing.  What bounds it is the load of a graph, the most productions that may still be applied to
its nodes and to what comes of them.  Each production that is applied lowers it. -/
namespace Parterre
open Chance EventSink

/-- The most productions that may be applied to an element and to what comes of it.  An area that
may be cut `d` times has up to `2 ^ d` parts: these take one cut less than there are parts, and each
of them becomes a terrain and then, perhaps, a bed of flowers. -/
def Element.load (divisions : Nat) : Element → Nat
  | .garden _ => 3 * 2 ^ divisions + 1
  | .area _ depth => 3 * 2 ^ depth - 1
  | .pathSystem _ _ | .flowerArea _ => 1
  | _ => 0

def Graph.load (divisions : Nat) (g : Graph) : Nat := g.total (Element.load divisions)

private theorem Element.load_pos {e : Element} (divisions : Nat)
    (h : e.symbol.isNonterminal = true) : 0 < e.load divisions := by
  cases e with
  | garden rect => exact Nat.succ_pos _
  | area rect depth =>
    have hpos : 0 < 2 ^ depth := Nat.two_pow_pos depth
    simp only [load]
    omega
  | pathSystem rect intensity => exact Nat.one_pos
  | flowerArea rect => exact Nat.one_pos
  | _ => simp [symbol, Symbol.isNonterminal] at h

private theorem Element.load_eq_zero {e : Element} (divisions : Nat)
    (h : e.symbol.isPlanting = true ∨ e.symbol = .pathRect) : e.load divisions = 0 := by
  cases e <;> first | rfl | simp [symbol, Symbol.isPlanting] at h

private theorem Element.sum_load_eq_zero {es : List Element} (divisions : Nat)
    (h : ∀ e ∈ es, e.symbol.isPlanting = true ∨ e.symbol = .pathRect) :
    (es.map (load divisions)).sum = 0 := by
  rw [List.sum_eq_zero_iff_forall_eq_nat]
  intro n hn
  obtain ⟨e, he, rfl⟩ := List.mem_map.1 hn
  exact load_eq_zero divisions (h e he)

section Expansions
variable {σ : Type} [WordSource σ] {params : Params} {g : Graph} {e : Element} {name : String}
  {x : Expansion}

theorem Expands.load_lt (h : Expands σ params g e name x) :
    (x.stays.toList.map (Element.load params.divisions)).sum +
        (x.added.map (Element.load params.divisions)).sum <
      e.load params.divisions := by
  have hplanted : ∀ y, x.stays = some y →
      (x.added.map (Element.load params.divisions)).sum = 0 := fun y hy =>
    Element.sum_load_eq_zero _ fun z hz => .inl (h.isPlanting_of_mem hy hz)
  cases h with
  | gardenSplit rect =>
    have hpos : 0 < 2 ^ params.divisions := Nat.two_pow_pos _
    simp only [Option.toList_none, List.map_nil, List.sum_nil, List.map_cons, List.sum_cons,
      Element.load]
    omega
  | areaSplit rect depth cut thickness hcut hfits hthickness =>
    have hpos : 0 < 2 ^ depth := Nat.two_pow_pos _
    simp only [Option.toList_none, List.map_nil, List.sum_nil, List.map_cons, List.sum_cons,
      Element.load, Nat.pow_succ]
    omega
  | areaTerminal rect depth terrain source huncut =>
    have hpos : 0 < 2 ^ depth := Nat.two_pow_pos _
    have hground : (terrain.ground rect).load params.divisions ≤ 1 := by
      cases terrain <;> simp [Terrain.ground, Element.load]
    have harea : (Element.area rect depth).load params.divisions = 3 * 2 ^ depth - 1 := rfl
    rw [hplanted _ rfl, harea]
    simp only [Option.toList_some, List.map_nil, List.sum_nil, List.map_cons, List.sum_cons]
    omega
  | roseBeds rect beds hbeds =>
    rw [hplanted _ rfl]
    exact Nat.one_pos
  | fountainCourt rect =>
    rw [hplanted _ rfl]
    exact Nat.one_pos
  | pathNetwork rect intensity =>
    have hpaths : ∀ y ∈ (g.pathSegments rect).map Element.pathRect,
        y.symbol.isPlanting = true ∨ y.symbol = .pathRect := by
      intro y hy
      obtain ⟨segment, -, rfl⟩ := List.mem_map.1 hy
      exact .inr rfl
    rw [Element.sum_load_eq_zero _ hpaths]
    exact Nat.one_pos

private theorem Expands.load_expanded_lt {g' : Graph} (h : Expands σ params g e name x)
    (hg : g'.Fresh) {id : NodeId} (he : g'.element? id = some e) :
    (g'.expanded id x).load params.divisions < g'.load params.divisions := by
  have htotal := Graph.total_expanded (x := x) (Element.load params.divisions) hg he
  have hlt := h.load_lt
  unfold Graph.load
  omega

end Expansions

/-! ### Counting steps -/

def Event.hasOutcome (o : Outcome) : Event → Bool
  | .ruleApplied _ _ _ _ outcome => outcome = o
  | _ => false

def tally (o : Outcome) (events : List Event) : Nat := events.countP (Event.hasOutcome o)

@[simp] theorem tally_append (o : Outcome) (xs ys : List Event) :
    tally o (xs ++ ys) = tally o xs + tally o ys :=
  List.countP_append

private theorem tally_frame (o : Outcome) {event : Event} (h : event.isFrame = true) :
    tally o [event] = 0 := by
  cases event <;> first | rfl | cases h

/-- Whether every production that events tell of was applied, or was a rejected cut. -/
def OnlyCutsRejected (events : List Event) : Prop :=
  ∀ step id symbol name outcome, .ruleApplied step id symbol name outcome ∈ events →
    outcome = .applied ∨ outcome = .rejected ∧ name = "area_split"

namespace Engine
variable {σ : Type} [WordSource σ] {e e₀ : Engine σ} {t : Tier} {n : Node} {name : String}
  {outcome : Outcome} {working : Rect} {params : Params}

omit [WordSource σ] in
private theorem load_pos (h : e.isComplete = false) (divisions : Nat) :
    0 < e.graph.load divisions := by
  have hyes : e.graph.hasNonterminals = true := by simpa [isComplete] using h
  obtain ⟨id, x, hx, hs⟩ := Graph.hasNonterminals_iff.1 hyes
  exact Nat.lt_of_lt_of_le (Element.load_pos divisions hs) (Graph.le_total hx)

private theorem load_start (working : Rect) (params : Params) (source : σ) :
    (start working params source).graph.load params.divisions = 3 * 2 ^ params.divisions + 1 := by
  have hnone : Graph.empty.trackChanges.total (Element.load params.divisions) = 0 := rfl
  have htotal := Graph.total_addAll (Element.load params.divisions) Graph.fresh_empty
    [.garden working]
  rw [hnone, Nat.zero_add] at htotal
  exact htotal

/-- What the events of a derivation account for: the productions that were applied and the load that
is left keep within the load at the beginning, and each step is one that was applied, or a rejected
cut. -/
structure Charged (divisions : Nat) (events : List Event) (e : Engine σ) : Prop where
  load : tally .applied events + e.graph.load divisions ≤ 3 * 2 ^ divisions + 1
  steps : e.steps = tally .applied events + tally .rejected events
  rejected : OnlyCutsRejected events

omit [WordSource σ] in
@[simp] theorem tally_preparation (o : Outcome) (e : Engine σ) (t : Tier) :
    tally o (e.preparation t) = 0 := by
  unfold preparation
  split <;> rfl

private theorem Advances.tally_stepEvents (hadv : e.Advances t n name outcome) (o : Outcome) :
    tally o e.stepEvents = if outcome = o then 1 else 0 := by
  rw [hadv.events, tally_append, tally_preparation, Nat.zero_add]
  cases outcome <;> cases o <;> rfl

theorem Advances.load_lt (hadv : e.Advances t n name .applied) (hg : e.Gardening) :
    (e.step ()).engine.graph.load e.params.divisions < e.graph.load e.params.divisions := by
  rcases hadv.graph with ⟨-, x, hx, hgraph⟩ | ⟨hrejected, -⟩
  · have hlt := hx.load_expanded_lt (hg.fresh_prepared t) hadv.prepared_node
    have hbefore : (e.prepared t).graph.load e.params.divisions =
        e.graph.load e.params.divisions := Graph.total_congr _ (Gardening.prepared_element? e t)
    rw [hbefore] at hlt
    rw [hgraph]
    exact hlt
  · cases hrejected

/-- A step that is applied is charged to the load; one that is rejected leaves the load alone. -/
theorem Charged.step {events : List Event} (h : e.Charged e.params.divisions events)
    (hg : e.Gardening) :
    (e.step ()).engine.Charged e.params.divisions (events ++ e.stepEvents) := by
  rcases hg.step_cases with ⟨-, -, hgraph, hsteps, hnone⟩ | ⟨t, n, name, outcome, hadv⟩
  · rw [hnone, List.append_nil]
    exact ⟨hgraph ▸ h.load, hsteps.trans h.steps, h.rejected⟩
  · have hload := h.load
    have hsteps := h.steps
    have htally (o : Outcome) : tally o (events ++ e.stepEvents) =
        tally o events + if outcome = o then 1 else 0 := by
      rw [tally_append, hadv.tally_stepEvents]
    have honly : outcome = .applied ∨ outcome = .rejected ∧ name = "area_split" :=
      hadv.graph.imp And.left fun hrejected => ⟨hrejected.1, hrejected.2.1⟩
    refine ⟨?_, ?_, fun step id symbol name' outcome' hmem => ?_⟩
    · rcases hadv.graph with ⟨rfl, -⟩ | ⟨rfl, -, -, hgraph⟩
      · have hlt := hadv.load_lt hg
        rw [htally, if_pos rfl]
        omega
      · rw [htally, if_neg (by simp), hgraph]
        exact hload
    · rw [htally, htally, hadv.steps, hsteps]
      rcases honly with rfl | ⟨rfl, -⟩ <;> simp <;> omega
    · rcases List.mem_append.1 hmem with hmem | hmem
      · exact h.rejected step id symbol name' outcome' hmem
      · cases hadv.ruleApplied_eq hmem
        exact honly

omit [WordSource σ] in
private theorem Charged.frame {divisions : Nat} {events : List Event}
    (h : e.Charged divisions events)
    {event : Event} (hframe : event.isFrame = true) : e.Charged divisions (events ++ [event]) := by
  have htally (o : Outcome) : tally o (events ++ [event]) = tally o events := by
    rw [tally_append, tally_frame o hframe, Nat.add_zero]
  refine ⟨by rw [htally]; exact h.load, by rw [htally, htally]; exact h.steps, ?_⟩
  intro step id symbol name outcome hmem
  rcases List.mem_append.1 hmem with hmem | hmem
  · exact h.rejected step id symbol name outcome hmem
  · rw [← List.mem_singleton.1 hmem] at hframe
    cases hframe

theorem Course.charged {trail : List (Engine σ)} {events : List Event}
    (hbegun : Begun working params e₀) (h : Course e₀ trail events e) :
    e.Gardening ∧ e.params = params ∧ e.Charged params.divisions events := by
  obtain ⟨-, -, source, rfl⟩ := hbegun.eq_start
  induction h with
  | start =>
    refine ⟨.start working params source, rfl, ?_, rfl, fun _ _ _ _ _ hmem => by cases hmem⟩
    rw [load_start]
    exact Nat.le_of_eq (Nat.zero_add _)
  | step _ ih =>
    obtain ⟨hg, rfl, hcharged⟩ := ih
    exact ⟨hg.step, (step_keeps _).2, hcharged.step hg⟩
  | frame event hframe _ ih =>
    obtain ⟨hg, hparams, hcharged⟩ := ih
    exact ⟨hg, hparams, hcharged.frame hframe⟩

theorem Gardening.walk_ends (hg : e.Gardening) (budget : Nat) :
    (walk budget e ()).engine.isComplete = true ∨ (walk budget e ()).steps = budget := by
  induction budget generalizing e with
  | zero => exact .inr rfl
  | succ budget ih =>
    rcases hg.step_cases with ⟨hno, hidle, hgraph, -⟩ | ⟨t, n, name, outcome, hadv⟩
    · left
      rw [(walk_of_idle hidle budget).1]
      simp [isComplete, hgraph, hno]
    · obtain ⟨hengine, hsteps⟩ := walk_of_progress hadv.progressed budget
      rw [hengine, hsteps]
      exact (ih hg.step).imp id (congrArg (· + 1))

/-- At most `3 * 2 ^ divisions + 1` productions are ever applied in a derivation, and every other
step is a rejected cut.  So a first run that leaves the garden incomplete has used up its budget,
all but at most `3 * 2 ^ divisions` steps of it on rejected cuts, and a budget that has room for
these and one step more suffices. -/
theorem derivation_is_bounded (hbegun : Begun working params e₀) :
    (∀ calls : List (Call σ), (∀ c ∈ calls, c.KeepsRules) →
      let done := e₀.performAll ({} : Collector) calls
      let events := done.sink.events
      tally .applied events ≤ 3 * 2 ^ params.divisions + 1 ∧
      done.engine.steps = tally .applied events + tally .rejected events ∧
      OnlyCutsRejected events) ∧
    ∀ budget, let ran := e₀.run budget ({} : Collector)
      let rejected := tally .rejected ran.sink.events
      (ran.summary.complete = false → ran.summary.steps = budget ∧
        rejected ≤ ran.summary.steps ∧
        ran.summary.steps - rejected ≤ 3 * 2 ^ params.divisions) ∧
      (3 * 2 ^ params.divisions + 1 + rejected ≤ budget → ran.summary.complete = true) := by
  obtain ⟨-, -, source, hstart⟩ := hbegun.eq_start
  refine ⟨fun calls hcalls => ?_, fun budget => ?_⟩
  · obtain ⟨events, hevents, hcourse⟩ := course_performAll [] hcalls
    obtain ⟨-, -, hcharged⟩ := hcourse.charged hbegun
    have hload := hcharged.load
    simp only [hevents, List.nil_append]
    exact ⟨by omega, hcharged.steps, hcharged.rejected⟩
  · have hcourse := course_perform e₀ (c := .run budget) trivial
    obtain ⟨-, -, hcharged⟩ := hcourse.charged hbegun
    have hevents : (e₀.run budget ({} : Collector)).sink.events =
        e₀.callEvents (.run budget) := by
      rw [run_sink, reportAll_collector]
      rfl
    have hengine : (e₀.perform () (.run budget)).engine = (walk budget e₀ ()).engine :=
      run_engine e₀ budget ()
    rw [hengine] at hcharged
    simp only [run_summary, hevents]
    have hg : e₀.Gardening := hstart ▸ .start working params source
    have hzero : e₀.steps = 0 := hstart ▸ rfl
    have hwalked := (strides e₀ budget).engine_steps
    have hsteps := hcharged.steps
    have hload := hcharged.load
    -- an incomplete garden has load left, so one production less was applied
    have hroom : (walk budget e₀ ()).engine.isComplete = false →
        (walk budget e₀ ()).steps = budget ∧
        tally .applied (e₀.callEvents (.run budget)) ≤ 3 * 2 ^ params.divisions := by
      intro hno
      have hpos := load_pos hno params.divisions
      exact ⟨(hg.walk_ends budget).resolve_left (by simp [hno]), by omega⟩
    refine ⟨fun hno => ?_, fun hbudget => ?_⟩
    · obtain ⟨hfull, hmost⟩ := hroom hno
      exact ⟨hfull, by omega, by omega⟩
    · cases hdone : (walk budget e₀ ()).engine.isComplete with
      | true => rfl
      | false =>
        obtain ⟨hfull, hmost⟩ := hroom hdone
        omega

/-- A strip, for examples, that may be cut once.  Its first two cuts are rejected, and flowers grow
on both parts of the third. -/
def narrow : Engine WordCycle :=
  start ⟨0.0, 0.0, 70.0, 40.0⟩ { divisions := 1 }
    (WordCycle.ofList ([3000000000, 4000000000, 7] ++ List.replicate 9 2000000000))

/-- The strip takes as many productions as are possible, and two rejected cuts. -/
theorem derivation_is_bounded_narrow :
    Begun ⟨0.0, 0.0, 70.0, 40.0⟩ { divisions := 1 } narrow ∧
    tally .applied (narrow.run 9 ({} : Collector)).sink.events = 3 * 2 ^ 1 + 1 ∧
    tally .rejected (narrow.run 9 ({} : Collector)).sink.events = 2 ∧
    (∀ calls : List (Call WordCycle), (∀ c ∈ calls, c.KeepsRules) →
      let done := narrow.performAll ({} : Collector) calls
      let events := done.sink.events
      tally .applied events ≤ 3 * 2 ^ 1 + 1 ∧
      done.engine.steps = tally .applied events + tally .rejected events ∧
      OnlyCutsRejected events) ∧
    ∀ budget, let ran := narrow.run budget ({} : Collector)
      let rejected := tally .rejected ran.sink.events
      (ran.summary.complete = false → ran.summary.steps = budget ∧
        rejected ≤ ran.summary.steps ∧ ran.summary.steps - rejected ≤ 3 * 2 ^ 1) ∧
      (3 * 2 ^ 1 + 1 + rejected ≤ budget → ran.summary.complete = true) := by
  have hbegun : Begun ⟨0.0, 0.0, 70.0, 40.0⟩ { divisions := 1 } narrow :=
    .create _ (create_eq_ok_iff.2 ⟨rfl, rfl, rfl⟩)
  exact ⟨hbegun, by decide +kernel, by decide +kernel, derivation_is_bounded hbegun⟩

end Engine
end Parterre
