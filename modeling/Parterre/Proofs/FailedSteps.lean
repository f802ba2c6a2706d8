import Parterre.Proofs.Attempts
import Parterre.Proofs.GardenSteps
import Parterre.Proofs.Rebuilding

/-! # Steps that fail

Where rules of the garden grammar are missing, a step may draw a node that no rule accepts.  Such a
step loses nothing: the node goes back to the agenda, and of the graph at most the edges are found
anew.  As a rule that accepts a node never passes it over, no step fails in another way while work
is left, and with the whole grammar the derivation goes on. -/
namespace Parterre
open Chance

@[simp] theorem Tier.of?_eq_pathSystem_iff {s : Symbol} :
    Tier.of? s = some .pathSystem ↔ s = .pathSystem := by
  cases s <;> decide

section Rules
variable {σ : Type} [WordSource σ]

/-- Whether all productions are those of the garden grammar, each any number of times and in any
order. -/
def RuleSet.FromGrammar (r : RuleSet σ) : Prop := ∀ p ∈ r.rules, p ∈ Production.standard

theorem RuleSet.fromGrammar_standard : (RuleSet.standard (σ := σ)).FromGrammar := fun _ hp => hp

theorem RuleSet.FromGrammar.byEdits {r : RuleSet σ} (h : r.FromGrammar) : r.ByEdits :=
  fun p hp => RuleSet.byEdits_standard p (h p hp)

theorem RuleSet.FromGrammar.result_ne_skipped {r : RuleSet σ} (h : r.FromGrammar)
    {p : Production σ} {n : Node} (hp : p ∈ r.applicable n) {g : Graph}
    (hn : g.element? n.id = some n.element) (params : Params) (source : σ) :
    (p.apply params n.id g source).result ≠ .skipped := by
  obtain ⟨hmem, haccepts⟩ := List.mem_filter.1 hp
  obtain ⟨hrule, hsymbol⟩ := List.mem_filter.1 hmem
  rw [Ne, (Production.attempt (h p hrule) params g n.id source).skipped_iff]
  refine Production.not_passesOver hn (of_decide_eq_true hsymbol).symm ?_
  rintro rfl rect hrect
  simp [Production.areaSplit, Production.mayBeCut, hrect] at haccepts

end Rules

namespace Engine
variable {σ : Type} [WordSource σ] {e : Engine σ}

omit [WordSource σ] in
private theorem prepared_graph (e : Engine σ) {t : Tier} {s : Symbol} (ht : Tier.of? s = some t) :
    (e.prepared t).graph =
      if s = .pathSystem then e.graph.rebuildAdjacency pathThickness else e.graph := by
  by_cases hs : s = .pathSystem
  · obtain rfl : t = .pathSystem := by
      rw [Tier.of?_eq_pathSystem_iff.2 hs] at ht
      exact (Option.some.inj ht).symm
    rw [if_pos hs]
    rfl
  · have hne : t ≠ .pathSystem := fun h => hs (Tier.of?_eq_pathSystem_iff.1 (h ▸ ht))
    rw [if_neg hs, prepared, if_neg hne]

namespace Attended

omit [WordSource σ] in
private theorem is_queued (h : e.Attended) {n : Node} (hn : n ∈ e.graph.nodes)
    (hs : n.symbol.isNonterminal = true) : ∃ t, Tier.of? n.symbol = some t ∧
      e.agenda.queued.get? n.id = some t ∧ n.id ∈ e.agenda.bucket t := by
  obtain ⟨t, ht⟩ := Tier.exists_of?_iff.2 hs
  have hlive := Agenda.isLive_iff.2 ⟨n.element, Graph.mem_nodes_iff.1 hn, ht⟩
  have hq := (h.covers n.id t hlive).resolve_right (by simp)
  exact ⟨t, ht, hq, h.sound n.id t hq⟩

theorem progressed_of_pickRule {t : Tier} {n : Node} {p : Production σ} {source : σ}
    (hr : e.rules.FromGrammar) (hfound : e.upcoming.found = some (t, n.id))
    (hn : (e.taken.prepared t).graph.node? n.id = some n)
    (hp : pickRule e.rules n e.taken.source = (some p, source)) :
    (e.step ()).progressed = true := by
  rw [(step_of_rule () hfound hn hp).progressed]
  have hresult := hr.result_ne_skipped (mem_of_pickRule hp) (Graph.node?_eq_some_iff.1 hn).1
    (e.taken.prepared t).params source
  exact decide_eq_true hresult

/-- A step by rules of the grammar fails only if nothing is left to be drawn, or if no rule accepts
the node that is drawn, which then goes back to the agenda. -/
theorem step_fails (h : e.Attended) (hr : e.rules.FromGrammar)
    (hfailed : (e.step ()).progressed = false) :
    (e.upcoming.found = none ∧ (e.step ()).engine = e.taken) ∨
    ∃ t n source, e.upcoming.found = some (t, n.id) ∧ e.graph.node? n.id = some n ∧
      Tier.of? n.symbol = some t ∧ e.rules.applicable n = [] ∧
      (e.step ()).engine = { e.taken.prepared t with
        source
        agenda := e.taken.agenda.schedule n.id n.symbol } := by
  rcases hfound : e.upcoming.found with _ | ⟨t, id⟩
  · exact .inl ⟨rfl, (step_of_none () hfound).engine⟩
  · obtain ⟨n, rfl, hnode, ht, hn⟩ := h.draws hfound
    rcases hp : pickRule e.rules n e.taken.source with ⟨_ | p, source⟩
    · have hnone : e.rules.applicable n = [] := by
        by_contra hsome
        obtain ⟨p, source', hp'⟩ := exists_pickRule hsome e.taken.source
        cases hp.symm.trans hp'
      exact .inr ⟨t, n, source, rfl, hnode, ht, hnone, (step_of_unaccepted () hfound hn hp).engine⟩
    · rw [progressed_of_pickRule hr hfound hn hp] at hfailed
      cases hfailed

theorem step_progressed (h : e.Attended) (hr : e.rules = .standard) :
    (e.step ()).progressed = e.graph.hasNonterminals := by
  rcases hfound : e.upcoming.found with _ | ⟨t, id⟩
  · rw [(step_of_none () hfound).progressed, h.upcoming_eq_none_iff.1 hfound]
  · obtain ⟨n, rfl, -, ht, hn⟩ := h.draws hfound
    have hwork : e.graph.hasNonterminals = true := by
      rw [← Bool.not_eq_false, ← h.upcoming_eq_none_iff, hfound]
      simp
    have hs : n.symbol.isNonterminal = true := Tier.exists_of?_iff.1 ⟨t, ht⟩
    obtain ⟨p, source, hp⟩ := exists_pickRule_standard hs e.taken.source
    rw [hwork]
    exact progressed_of_pickRule (hr ▸ RuleSet.fromGrammar_standard) hfound hn (hr ▸ hp)

end Attended

variable {working : Rect} {params : Params} {source : σ}

private theorem Leads.attended_fromGrammar
    (h : Leads RuleSet.FromGrammar (start working params source) e) :
    e.Attended ∧ e.rules.FromGrammar :=
  ⟨(h.mono fun _ hr => hr.byEdits).attended.1, h.rules_allowed RuleSet.fromGrammar_standard⟩

/-- A step that fails loses nothing.  Nodes, parameters and the count of steps stay as they are, and
every nonterminal is queued under its tier.  The edges stay too, unless the node that was drawn is
the path system: then they are those found anew.  With the whole grammar the next step makes
progress if any nonterminal is left. -/
theorem failed_steps_lose_nothing
    (h : Leads RuleSet.FromGrammar (start working params source) e)
    (hfailed : (e.step ()).progressed = false) :
    let e' := (e.step ()).engine
    e'.graph.nodes = e.graph.nodes ∧ e'.params = e.params ∧ e'.steps = e.steps ∧
    (∀ n ∈ e'.graph.nodes, n.symbol.isNonterminal = true →
      ∃ t, Tier.of? n.symbol = some t ∧ e'.agenda.queued.get? n.id = some t ∧
        n.id ∈ e'.agenda.bucket t) ∧
    ((e.upcoming.found = none ∧ e'.graph = e.graph) ∨
      ∃ t n, e.upcoming.found = some (t, n.id) ∧ e.graph.node? n.id = some n ∧
        e.rules.applicable n = [] ∧
        e'.graph = if n.symbol = .pathSystem then e.graph.rebuildAdjacency 10.0 else e.graph) ∧
    ((e'.withRules .standard).step ()).progressed = e'.graph.hasNonterminals := by
  intro e'
  obtain ⟨ha, hr⟩ := h.attended_fromGrammar
  have ha' : e'.Attended := ha.step hr.byEdits
  have hrecovers : ((e'.withRules .standard).step ()).progressed = e'.graph.hasNonterminals :=
    Attended.step_progressed (e := e'.withRules .standard) ⟨ha'.changes, ha'.sound, ha'.covers⟩ rfl
  have hqueued (n : Node) (hn : n ∈ e'.graph.nodes) (hs : n.symbol.isNonterminal = true) :=
    ha'.is_queued hn hs
  have hparams : e'.params = e.params := (step_keeps e).2
  rcases ha.step_fails hr hfailed with ⟨hfound, heq⟩ | ⟨t, n, source', hfound, hn, ht, hnone, heq⟩
  · have hgraph : e'.graph = e.graph := (congrArg graph heq).trans ha.absorb_graph
    have hsteps : e'.steps = e.taken.steps := congrArg steps heq
    exact ⟨by rw [hgraph], hparams, hsteps, hqueued, .inl ⟨hfound, hgraph⟩, hrecovers⟩
  · have hgraph : e'.graph =
        if n.symbol = .pathSystem then e.graph.rebuildAdjacency 10.0 else e.graph :=
      (congrArg graph heq).trans ((ha.taken_prepared t).trans (prepared_graph e ht))
    have hnodes : e'.graph.nodes = e.graph.nodes := by
      rw [hgraph]
      split
      · exact Graph.nodes_rebuildAdjacency e.graph 10.0
      · rfl
    have hsteps : e'.steps = e.steps := (congrArg steps heq).trans (prepared_steps e.taken t)
    exact ⟨hnodes, hparams, hsteps, hqueued, .inr ⟨t, n, hfound, hn, hnone, hgraph⟩, hrecovers⟩

/-- The productions for areas, with the cut in it twice. -/
def areasOnly : RuleSet WordCycle :=
  ⟨[.areaSplit, .areaTerminal, .areaSplit]⟩

/-- A strip that was cut at a wide border, with grass on both parts and no rule for the paths. -/
def unpaved : Engine WordCycle :=
  let begun := start ⟨0.0, 0.0, 80.0, 40.0⟩ { divisions := 1 } (WordCycle.ofList [7, 7, 4000000000])
  (begun.performAll () [.step, .withRules areasOnly, .run 3]).engine

/-- The step that fails for want of a rule narrows the border.  With the whole grammar the paths
follow. -/
theorem failed_steps_lose_nothing_unpaved :
    let e' := (unpaved.step ()).engine
    (unpaved.step ()).progressed = false ∧
    unpaved.graph.edges = [⟨⟨4, 5, by decide⟩, some ⟨30.0, 0.0, 20.0, 40.0⟩⟩] ∧
    e'.graph.edges = [⟨⟨4, 5, by decide⟩, some ⟨40.0, 0.0, 10.0, 40.0⟩⟩] ∧
    e'.graph.nodes = unpaved.graph.nodes ∧ e'.steps = 4 ∧
    ((e'.withRules .standard).step ()).progressed = true := by
  intro e'
  have hleads : Leads RuleSet.FromGrammar
      (start ⟨0.0, 0.0, 80.0, 40.0⟩ { divisions := 1 } (WordCycle.ofList [7, 7, 4000000000]))
      unpaved := by
    refine leads_performAll () fun c hc => ?_
    simp only [List.mem_cons, List.not_mem_nil, or_false] at hc
    rcases hc with rfl | rfl | rfl
    · trivial
    · intro p hp
      simp only [areasOnly, List.mem_cons, List.not_mem_nil, or_false] at hp
      rcases hp with rfl | rfl | rfl <;> simp [Production.standard]
    · trivial
  have hfailed : (unpaved.step ()).progressed = false := by decide +kernel
  obtain ⟨hnodes, -, hsteps, -, -, hrecovers⟩ := failed_steps_lose_nothing hleads hfailed
  have hwork : e'.graph.hasNonterminals = true := by decide +kernel
  exact ⟨hfailed, by decide +kernel, by decide +kernel, hnodes, hsteps.trans (by decide +kernel),
    hrecovers.trans hwork⟩

end Engine
end Parterre
