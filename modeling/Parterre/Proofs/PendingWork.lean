import Parterre.Proofs.AgendaDraws
import Parterre.Proofs.Calls
import Parterre.Rule.Scripted

/-! # Pending work

Whatever the rules do to the graph, every nonterminal waits in the agenda under the tier of its
symbol whenever a call ends.  The changes that the graph records are what the agenda has not seen
yet; a step takes them over, and queues again the node that it worked on. -/
namespace Parterre
open Chance

section Rules
variable {σ : Type}

/-- Whether a production changes graphs by edits only.  Which ones may depend on everything that it
is given, and they may concern any node. -/
def Production.ByEdits (p : Production σ) : Prop :=
  ∀ params id g source, ∃ edits, (p.apply params id g source).graph = g.editAll edits

def RuleSet.ByEdits (r : RuleSet σ) : Prop := ∀ p ∈ r.rules, p.ByEdits

private theorem Script.byEdits_toProduction (s : Script) : (s.toProduction (σ := σ)).ByEdits := by
  intro params id g source
  refine ⟨(s.replacement.map fun e => .replace id e).toList ++
    (if s.removes then [.remove id] else []) ++ s.spawns.map .add, ?_⟩
  simp only [toProduction, perform, Graph.editAll_append, ← Graph.addAll_eq_editAll]
  cases s.replacement <;> cases s.removes <;> rfl

variable [WordSource σ]
open Production

private theorem Production.exists_edits_layTerrain (g : Graph) (id : NodeId) (rect : Rect)
    (terrain : Terrain) (source : σ) :
    ∃ edits, (layTerrain g id rect terrain source).graph = g.editAll edits := by
  cases terrain with
  | grass => exact ⟨[.replace id (.grassRect rect)], rfl⟩
  | flowers => exact ⟨[.replace id (.flowerArea rect)], rfl⟩
  | trees => exact ⟨_, (g.editAll_cons_add (.replace id (.grassRect rect)) _).symm⟩
  | water => exact ⟨_, (g.editAll_cons_add (.replace id (.grassRect rect)) _).symm⟩

private theorem Production.cutArea_eq_editAll (g : Graph) (id : NodeId) (rect : Rect) (depth : Nat)
    (cut : Cut) (thickness : Float32) : cutArea g id rect depth cut thickness =
      g.editAll [.remove id, .add (.area (rect.firstPart cut) depth),
        .add (.area (rect.secondPart cut) depth),
        .connect g.nextId (g.nextId + 1)
          (cutBorder (rect.firstPart cut) (rect.secondPart cut) thickness)] :=
  rfl

theorem RuleSet.byEdits_standard : (RuleSet.standard (σ := σ)).ByEdits := by
  intro p (hp : p ∈ Production.standard) params id g source
  simp only [Production.standard, List.mem_cons, List.not_mem_nil, or_false] at hp
  rcases hp with rfl | rfl | rfl | rfl | rfl | rfl
  · simp only [gardenSplit]
    split
    · exact ⟨_, (g.editAll_cons_add (.remove id) _).symm⟩
    · exact ⟨[], rfl⟩
  · simp only [areaSplit]
    split
    · split
      · exact ⟨_, cutArea_eq_editAll g id _ _ _ _⟩
      · exact ⟨[], rfl⟩
    · exact ⟨[], rfl⟩
  · simp only [areaTerminal]
    split
    · exact exists_edits_layTerrain _ _ _ _ _
    · exact ⟨[], rfl⟩
  · simp only [roseBeds]
    split
    · exact ⟨_, (g.editAll_cons_add (.replace id (.grassRect _)) _).symm⟩
    · exact ⟨[], rfl⟩
  · simp only [fountainCourt]
    split
    · exact ⟨_, (g.editAll_cons_add (.replace id (.grassRect _)) _).symm⟩
    · exact ⟨[], rfl⟩
  · simp only [pathNetwork]
    split
    · next rect _ _ =>
      refine ⟨((g.pathSegments rect).map Element.pathRect).map .add ++ [.remove id], ?_⟩
      rw [Graph.editAll_append, ← Graph.addAll_eq_editAll]
      rfl
    · exact ⟨[], rfl⟩

end Rules

namespace Engine
variable {σ : Type} [WordSource σ]

/-- The state of an engine between two calls: the agenda has seen every change, holds what is queued
and covers all live nodes. -/
structure Attended (e : Engine σ) : Prop where
  changes : e.graph.changes = some []
  sound : e.agenda.Sound
  covers : e.agenda.Covers e.graph []

theorem mem_of_pickRule {rules : RuleSet σ} {n : Node} {source source' : σ} {p : Production σ}
    (h : pickRule rules n source = (some p, source')) : p ∈ rules.applicable n := by
  unfold pickRule at h
  split at h
  · simp at h
  · next hp =>
    simp only [Prod.mk.injEq, Option.some.injEq] at h
    simp [hp, h.1]
  · simp only [Prod.mk.injEq] at h
    exact List.mem_of_getElem? h.1

private theorem mem_rules_of_pickRule {rules : RuleSet σ} {n : Node} {source source' : σ}
    {p : Production σ} (h : pickRule rules n source = (some p, source')) : p ∈ rules.rules :=
  (List.mem_filter.1 (List.mem_filter.1 (mem_of_pickRule h)).1).1

theorem exists_pickRule {rules : RuleSet σ} {n : Node} (h : rules.applicable n ≠ []) (source : σ) :
    ∃ p source', pickRule rules n source = (some p, source') := by
  unfold pickRule
  split
  · next hnil => exact absurd hnil h
  · exact ⟨_, _, rfl⟩
  · have hlt := indexOf_lt (List.length_pos_iff.2 h) (WordSource.next source).1
    exact ⟨_, _, Prod.ext (List.getElem?_eq_getElem hlt) rfl⟩

omit [WordSource σ] in
theorem absorb_attends {e : Engine σ} {log rest : List NodeId} (hlog : e.graph.changes = some log)
    (hs : e.agenda.Sound) (hc : e.agenda.Covers e.graph (log ++ rest)) :
    e.absorb.graph.changes = some [] ∧ e.absorb.agenda.Sound ∧
      e.absorb.agenda.Covers e.absorb.graph rest := by
  have habsorb : e.absorb.agenda = log.foldl (Agenda.scheduleLive e.graph) e.agenda := by
    simp only [absorb, Agenda.absorb, Graph.recordedChanges, hlog, Option.getD_some]
  refine ⟨by simp [absorb, Graph.forgetChanges, hlog], ?_, ?_⟩
  · rw [habsorb]
    exact hs.scheduleAll e.graph log
  · rw [habsorb]
    exact hc.scheduleAll

theorem attended_start (working : Rect) (params : Params) (source : σ) :
    (start working params source).Attended := by
  have hs : ({} : Agenda).Sound := fun id t h => by simp at h
  have hc : ({} : Agenda).Covers Graph.empty.trackChanges [] := by
    intro id t h
    obtain ⟨e, he, -⟩ := Agenda.isLive_iff.1 h
    simp [Graph.element?, Graph.trackChanges, Graph.empty] at he
  have hcovers := hc.follows (Graph.follows_add Graph.empty.trackChanges (.garden working))
  let planned : Engine σ :=
    { graph := Graph.empty.trackChanges.add (.garden working), params, rules := .standard,
      source, agenda := {}, steps := 0 }
  have hlog : planned.graph.changes = some [1] := rfl
  have hplanned : planned.agenda.Covers planned.graph ([1] ++ []) := hcovers
  obtain ⟨hchanges, hsound, hcov⟩ := absorb_attends hlog hs hplanned
  exact ⟨hchanges, hsound, hcov⟩

namespace Attended
variable {e : Engine σ}

omit [WordSource σ] in
theorem absorb (h : e.Attended) : e.absorb.Attended := by
  have hcovers : e.agenda.Covers e.graph ([] ++ []) := h.covers
  obtain ⟨hchanges, hs, hc⟩ := absorb_attends h.changes h.sound hcovers
  exact ⟨hchanges, hs, hc⟩

theorem upcoming_eq_none_iff (h : e.Attended) :
    e.upcoming.found = none ↔ e.graph.hasNonterminals = false := by
  have ha := h.absorb
  constructor
  · intro hnone
    rw [← Bool.not_eq_true, Graph.hasNonterminals_iff]
    rintro ⟨id, x, hx, hn⟩
    obtain ⟨t, ht⟩ := Tier.exists_of?_iff.2 hn
    have hlive := Agenda.isLive_iff.2 ⟨x, hx, ht⟩
    have hdead := Agenda.not_live_of_next_eq_none ha.sound ha.covers hnone id t
    exact absurd hlive (by rw [show Agenda.isLive e.graph t id = false from hdead]; simp)
  · intro hno
    rcases hfound : e.upcoming.found with _ | ⟨t, id⟩
    · rfl
    · obtain ⟨x, hx, ht⟩ := Agenda.isLive_iff.1 (Agenda.next_eq_some ha.sound ha.covers hfound).1
      have hyes : e.graph.hasNonterminals = true :=
        Graph.hasNonterminals_iff.2 ⟨id, x, hx, Tier.exists_of?_iff.1 ⟨t, ht⟩⟩
      exact absurd hyes (by simp [hno])

/-- The node drawn is there, in the tier that it was drawn from, and no higher tier has a node. -/
theorem upcoming_eq_some (h : e.Attended) {t : Tier} {id : NodeId}
    (hfound : e.upcoming.found = some (t, id)) :
    ∃ n, e.graph.node? id = some n ∧ Tier.of? n.symbol = some t ∧
      ∀ u ∈ Tier.all.takeWhile (· ≠ t), ∀ i, Agenda.isLive e.graph u i = false := by
  have ha := h.absorb
  obtain ⟨hlive, -, hhigher⟩ := Agenda.next_eq_some ha.sound ha.covers hfound
  obtain ⟨x, hx, ht⟩ := Agenda.isLive_iff.1 hlive
  exact ⟨⟨id, x⟩, Graph.node?_eq_some_iff.2 ⟨hx, rfl⟩, ht, hhigher⟩

omit [WordSource σ] in
/-- Once a production was applied to the only node that the agenda does not cover, it covers all. -/
theorem applyRule {n : Node} {p : Production σ} (hp : p.ByEdits)
    (hchanges : e.graph.changes = some []) (hs : e.agenda.Sound)
    (hc : e.agenda.Covers e.graph [n.id]) : (e.applyRule p n).2.Attended := by
  obtain ⟨edits, hedits⟩ := hp e.params n.id e.graph e.source
  obtain ⟨more, hmore⟩ := Graph.follows_editAll e.graph edits
  let worked : Engine σ :=
    { e with
      graph := (p.apply e.params n.id e.graph e.source).graph
      source := (p.apply e.params n.id e.graph e.source).source }
  have hlog : worked.graph.changes = some more := by
    change (p.apply e.params n.id e.graph e.source).graph.changes = some more
    rw [hedits, hmore.changes, hchanges]
    rfl
  have hcov : worked.agenda.Covers worked.graph (more ++ [n.id]) := by
    change e.agenda.Covers (p.apply e.params n.id e.graph e.source).graph _
    rw [hedits]
    exact (hc.follows hmore).mono fun i hi => by simpa [or_comm] using hi
  obtain ⟨hchanges', hs', hc'⟩ := absorb_attends hlog hs hcov
  exact ⟨hchanges', hs'.scheduleLive _ n.id, hc'.scheduleLive⟩

omit [WordSource σ] in
private theorem of_steps (h : e.Attended) (steps : Nat) : ({ e with steps } : Engine σ).Attended :=
  ⟨h.changes, h.sound, h.covers⟩

omit [WordSource σ] in
private theorem expandBy {n : Node} {p : Production σ} (hp : p.ByEdits)
    (hchanges : e.graph.changes = some []) (hs : e.agenda.Sound)
    (hc : e.agenda.Covers e.graph [n.id]) : (e.expandBy p n ()).engine.Attended := by
  have h := applyRule hp hchanges hs hc
  unfold Engine.expandBy
  simp only
  split
  · exact h.of_steps _
  · exact h

theorem step (h : e.Attended) (hr : e.rules.ByEdits) : (e.step ()).engine.Attended := by
  have ha := h.absorb
  have hsound : e.taken.agenda.Sound := ha.sound.next _ _
  rcases hfound : e.upcoming.found with _ | ⟨tier, id⟩
  · rw [(step_of_none () hfound).engine]
    refine ⟨ha.changes, hsound, fun i t hlive => ?_⟩
    have hdead := Agenda.not_live_of_next_eq_none ha.sound ha.covers hfound i t
    exact absurd hlive (by rw [show Agenda.isLive e.taken.graph t i = false from hdead]; simp)
  · obtain ⟨hlive, hcovers, -⟩ := Agenda.next_eq_some ha.sound ha.covers hfound
    -- the preparation rebuilds edges only
    have hgraph : (e.taken.prepared tier).graph.changes = some [] ∧
        ∀ i, (e.taken.prepared tier).graph.element? i = e.taken.graph.element? i := by
      unfold prepared
      split
      · exact ⟨(Graph.changes_rebuildAdjacency _ _).trans ha.changes,
          Graph.element?_rebuildAdjacency _ _⟩
      · exact ⟨ha.changes, fun _ => rfl⟩
    have hs : (e.taken.prepared tier).agenda.Sound := by rwa [prepared_agenda]
    have hc : (e.taken.prepared tier).agenda.Covers (e.taken.prepared tier).graph [id] := by
      rw [prepared_agenda]
      have hcovers : e.taken.agenda.Covers e.taken.graph [id] := hcovers
      exact hcovers.follows (.of_eq (hgraph.1.trans ha.changes.symm) hgraph.2)
    obtain ⟨x, hx, ht⟩ := Agenda.isLive_iff.1 hlive
    have hn : (e.taken.prepared tier).graph.node? id = some ⟨id, x⟩ :=
      Graph.node?_eq_some_iff.2 ⟨(hgraph.2 id).trans hx, rfl⟩
    rcases hp : pickRule e.rules ⟨id, x⟩ e.taken.source with ⟨_ | p, source⟩
    · rw [(step_of_unaccepted () hfound hn hp).engine]
      have hsched : e.taken.agenda.schedule id x.symbol =
          Agenda.scheduleLive (e.taken.prepared tier).graph (e.taken.prepared tier).agenda id := by
        rw [Agenda.scheduleLive, hn, prepared_agenda]
        rfl
      refine ⟨hgraph.1, hsound.schedule id x.symbol, ?_⟩
      change (e.taken.agenda.schedule id x.symbol).Covers _ []
      rw [hsched]
      exact hc.scheduleLive
    · rw [(step_of_rule () hfound hn hp).engine]
      exact expandBy (hr p (mem_rules_of_pickRule hp)) hgraph.1 hs hc

end Attended

variable {working : Rect} {params : Params} {source : σ} {e : Engine σ}

theorem Leads.attended (h : Leads RuleSet.ByEdits (start working params source) e) :
    e.Attended ∧ e.rules.ByEdits := by
  refine h.preserves (P := fun e => e.Attended ∧ e.rules.ByEdits)
    ⟨attended_start working params source, RuleSet.byEdits_standard⟩ ?_ ?_
  · rintro e ⟨ha, hr⟩
    exact ⟨ha.step hr, (step_keeps e).1 ▸ hr⟩
  · rintro e rules hr ⟨ha, -⟩
    exact ⟨⟨ha.changes, ha.sound, ha.covers⟩, hr⟩

/-- No work is lost: between calls every nonterminal is queued under the tier of its symbol and has
an entry there, so a draw comes back empty-handed only when no nonterminal is left. -/
theorem nonterminals_are_queued (h : Leads RuleSet.ByEdits (start working params source) e) :
    (∀ n ∈ e.graph.nodes, n.symbol.isNonterminal = true →
      ∃ t, Tier.of? n.symbol = some t ∧ e.agenda.queued.get? n.id = some t ∧
        n.id ∈ e.agenda.bucket t) ∧
    ((e.absorb.agenda.next e.absorb.graph e.absorb.source).found = none ↔
      e.graph.hasNonterminals = false) := by
  have ha := h.attended.1
  refine ⟨fun n hn hs => ?_, ha.upcoming_eq_none_iff⟩
  obtain ⟨t, ht⟩ := Tier.exists_of?_iff.2 hs
  have hlive := Agenda.isLive_iff.2 ⟨n.element, Graph.mem_nodes_iff.1 hn, ht⟩
  have hq := (ha.covers n.id t hlive).resolve_right (by simp)
  exact ⟨t, ht, hq, ha.sound n.id t hq⟩

/-- A script that moves the garden to another tier, beside two more nonterminals. -/
theorem nonterminals_are_queued_relabelled :
    let begun := start ⟨0.0, 0.0, 90.0, 70.0⟩ {} (WordCycle.ofList [7, 5])
    let relabel : Script :=
      { name := "relabel", symbol := .garden, outcome := .rejected
        replacement := some (.flowerArea ⟨0.0, 0.0, 90.0, 70.0⟩)
        spawns := [.area ⟨0.0, 0.0, 40.0, 70.0⟩ 1, .pathSystem ⟨0.0, 0.0, 90.0, 70.0⟩ 3] }
    let e := (begun.performAll () [.withRules ⟨[relabel.toProduction]⟩, .step, .run 4]).engine
    Leads RuleSet.ByEdits begun e ∧ e.graph.count .flowerArea = 1 ∧
      (∀ n ∈ e.graph.nodes, n.symbol.isNonterminal = true →
        ∃ t, Tier.of? n.symbol = some t ∧ e.agenda.queued.get? n.id = some t ∧
          n.id ∈ e.agenda.bucket t) ∧
      ((e.absorb.agenda.next e.absorb.graph e.absorb.source).found = none ↔
        e.graph.hasNonterminals = false) := by
  intro begun relabel e
  have hleads : Leads RuleSet.ByEdits begun e := by
    refine leads_performAll () fun c hc => ?_
    simp only [List.mem_cons, List.not_mem_nil, or_false] at hc
    rcases hc with rfl | rfl | rfl
    · intro p hp
      exact List.mem_singleton.1 hp ▸ relabel.byEdits_toProduction
    · trivial
    · trivial
  exact ⟨hleads, by decide +kernel, nonterminals_are_queued hleads⟩

end Engine
end Parterre
