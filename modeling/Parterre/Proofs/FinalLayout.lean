import Parterre.Proofs.NodeLists
import Parterre.Proofs.PathSegments
import Parterre.Proofs.PhaseOrder

/-! # The final layout

The last step of a derivation finds the edges anew and lays a path along each of their borders.
Expanding the path system changes no sector and no edge, so what the step finds before it lays the
paths still holds of the complete garden, and nothing happens to that any more. -/
namespace Parterre
open Chance EventSink

namespace Graph

/-- Whether the garden and the path system, as long as they are there, fill the working
rectangle. -/
def Framed (g : Graph) (working : Rect) : Prop :=
  ∀ id e, g.element? id = some e → e.symbol = .garden ∨ e.symbol = .pathSystem →
    e.rect? = some working

/-- A complete garden with its final layout. -/
structure Settled (g : Graph) (working : Rect) : Prop where
  complete : g.hasNonterminals = false
  edges : g.edges.map Edge.contact = g.contacts Engine.pathThickness
  paths : (g.nodesWith .pathRect).map Node.element = (g.pathSegments working).map .pathRect

structure LaidOut (g : Graph) (working : Rect) : Prop where
  grass : ∀ id e, g.element? id = some e → e.symbol.isSector = true → e.symbol = .grassRect
  /-- Two sectors are joined exactly if they share a border, which is kept if it is long enough. -/
  adjacent : ∀ a b, ∀ hab : a < b, ∀ ra rb, g.element? a = some (.grassRect ra) →
    g.element? b = some (.grassRect rb) →
    g.edge? a b = (ra.borderBetween rb 10.0).map fun border =>
      ⟨⟨a, b, hab⟩, border.longBorder?⟩
  /-- Nothing else is joined. -/
  ends : ∀ edge ∈ g.edges, ∃ ra rb, g.element? edge.ends.low = some (.grassRect ra) ∧
    g.element? edge.ends.high = some (.grassRect rb)
  ascending : g.edges.Pairwise fun d d' => d.ends.low < d'.ends.low ∨
    d.ends.low = d'.ends.low ∧ d.ends.high < d'.ends.high
  ordered : (g.nodesWith .pathRect).Pairwise fun m n => m.id < n.id
  /-- The paths are the segments along the borders kept, each where it comes first. -/
  paths : (g.nodesWith .pathRect).map Node.element =
    ((g.edges.filterMap Edge.border).map fun border =>
      border.snapped.clampedInto working).eraseDups.map .pathRect
  along : ∀ y, (∃ n ∈ g.nodesWith .pathRect, n.element = y) ↔ ∃ edge ∈ g.edges,
    ∃ border, edge.border = some border ∧ y = .pathRect (border.snapped.clampedInto working)
  /-- No path is laid twice. -/
  once : ((g.nodesWith .pathRect).map Node.element).Nodup

variable {g g' : Graph} {working : Rect} {id paths : NodeId} {e : Element} {x : Expansion}

/-! ### What is settled -/

namespace Settled

theorem eq_grassRect (h : g.Settled working) (he : g.element? id = some e)
    (hsector : e.symbol.isSector = true) : ∃ rect, e = .grassRect rect := by
  have hterminal := isNonterminal_eq_false h.complete he
  cases e <;> simp [Element.symbol, Symbol.isSector, Symbol.isNonterminal] at hsector hterminal
  exact ⟨_, rfl⟩

private theorem exists_of_sectorRect? (h : g.Settled working) {rect : Rect}
    (hrect : g.sectorRect? id = some rect) : g.element? id = some (.grassRect rect) := by
  obtain ⟨e, he, hsector⟩ := Graph.exists_of_sectorRect? hrect
  obtain ⟨rect', rfl⟩ := h.eq_grassRect he hsector
  rw [sectorRect?, he] at hrect
  rw [he, ← Option.some.inj hrect]

theorem edge?_eq (h : g.Settled working) {a b : NodeId} (hab : a < b) {ra rb : Rect}
    (ha : g.element? a = some (.grassRect ra)) (hb : g.element? b = some (.grassRect rb)) :
    g.edge? a b = (ra.borderBetween rb Engine.pathThickness).map fun border =>
      ⟨⟨a, b, hab⟩, border.longBorder?⟩ := by
  have ha' : g.sectorRect? a = some ra := by rw [sectorRect?, ha]; rfl
  have hb' : g.sectorRect? b = some rb := by rw [sectorRect?, hb]; rfl
  rw [edge?_of_contacts h.edges hab, ha', hb']
  rfl

private theorem ends_of_mem_edges (h : g.Settled working) {edge : Edge} (hedge : edge ∈ g.edges) :
    ∃ ra rb, g.element? edge.ends.low = some (.grassRect ra) ∧
      g.element? edge.ends.high = some (.grassRect rb) := by
  obtain ⟨-, ra, rb, border, ha, hb, -⟩ := mem_contacts_iff.1
    ((mem_edges_iff_of_contacts h.edges).1 hedge)
  exact ⟨ra, rb, h.exists_of_sectorRect? ha, h.exists_of_sectorRect? hb⟩

private theorem edges_ascending (h : g.Settled working) :
    g.edges.Pairwise fun d d' => d.contact.Before d'.contact := by
  rw [← List.pairwise_map, h.edges]
  exact g.contacts_ascending Engine.pathThickness

theorem mem_paths_iff (h : g.Settled working) {y : Element} :
    (∃ n ∈ g.nodesWith .pathRect, n.element = y) ↔ ∃ edge ∈ g.edges, ∃ border,
      edge.border = some border ∧ y = .pathRect (segment working border) := by
  rw [← List.mem_map, h.paths, List.mem_map]
  constructor
  · rintro ⟨s, hs, rfl⟩
    obtain ⟨edge, hedge, border, hborder, rfl⟩ := mem_pathSegments_iff.1 hs
    exact ⟨edge, hedge, border, hborder, rfl⟩
  · rintro ⟨edge, hedge, border, hborder, rfl⟩
    exact ⟨_, mem_pathSegments_iff.2 ⟨edge, hedge, border, hborder, rfl⟩, rfl⟩

private theorem nodup_paths (h : g.Settled working) :
    ((g.nodesWith .pathRect).map Node.element).Nodup := by
  rw [h.paths, List.Nodup, List.pairwise_map]
  exact (g.nodup_pathSegments working).imp fun hne heq => hne (Element.pathRect.inj heq)

private theorem laidOut (h : g.Settled working) : g.LaidOut working where
  grass id e he hsector := by
    obtain ⟨rect, rfl⟩ := h.eq_grassRect he hsector
    rfl
  adjacent _ _ hab _ _ := h.edge?_eq hab
  ends _ := h.ends_of_mem_edges
  ascending := h.edges_ascending
  ordered := g.nodes_ascending.filter _
  paths := by
    rw [h.paths, pathSegments_eq]
    rfl
  along _ := h.mem_paths_iff
  once := h.nodup_paths

end Settled

/-! ### Laying the paths -/

theorem map_element_nodesWith (g : Graph) (s : Symbol) :
    (g.nodesWith s).map Node.element = g.contents.filter fun e => e.symbol = s := by
  rw [contents, List.filter_map]
  rfl

private theorem pathSegments_congr (h : g'.edges = g.edges) (bounds : Rect) :
    g'.pathSegments bounds = g.pathSegments bounds := by
  rw [pathSegments, edgeBorders, h]
  rfl

theorem sectors_expanded (hg : g.Fresh) (he : g.element? id = some e)
    (hsector : e.symbol.isSector = false) (hstays : x.stays = none)
    (hadded : ∀ y ∈ x.added, y.symbol.isSector = false) :
    (g.expanded id x).sectors = g.sectors := by
  refine sectors_congr fun i => ?_
  unfold sectorRect?
  rw [element?_expanded hg he]
  split
  · split
    · next hi =>
      rw [hstays, hi, he, Option.bind_some, Element.sectorRect?, hsector]
      rfl
    · rfl
  · next hlt =>
    rw [hg i (Nat.le_of_not_lt hlt)]
    cases hk : x.added[i - g.nextId]? with
    | none => rfl
    | some y =>
      rw [Option.bind_some, Element.sectorRect?, hadded y (List.mem_of_getElem? hk)]
      rfl

theorem Growing.paths_expanded (h : g.Growing paths) (hg : g.Fresh) {segments : List Rect}
    (hstays : x.stays = none) (hjoined : x.joined = [])
    (hadded : x.added = segments.map .pathRect) :
    ((g.expanded paths x).nodesWith .pathRect).map Node.element = segments.map .pathRect := by
  have hold : ∀ y ∈ (g.remove paths).contents, ¬decide (y.symbol = .pathRect) = true := by
    intro y hy
    obtain ⟨n, hn, rfl⟩ := List.mem_map.1 hy
    have hn' := mem_nodes_iff.1 hn
    rw [element?_remove] at hn'
    split at hn'
    · cases hn'
    · rw [decide_eq_true_eq]
      exact fun hs => h.not_has_pathRect ⟨n.id, n.element, hn', hs⟩
  have hnew : ∀ y ∈ segments.map Element.pathRect, decide (y.symbol = .pathRect) = true := by
    intro y hy
    obtain ⟨segment, -, rfl⟩ := List.mem_map.1 hy
    rfl
  rw [map_element_nodesWith, Graph.expanded, hstays, hjoined, hadded]
  change ((g.remove paths).addAll _).contents.filter _ = _
  rw [contents_addAll (hg.remove paths), List.filter_append, List.filter_eq_nil_iff.2 hold,
    List.nil_append, List.filter_eq_self.2 hnew]

end Graph

/-! ### The working rectangle -/

section Expansions
variable {σ : Type} [WordSource σ] {params : Params} {g : Graph} {e : Element} {name : String}
  {x : Expansion}

/-- A path system comes from the garden only, whose rectangle it takes over, and a garden comes from
nothing. -/
theorem Expands.framed (h : Expands σ params g e name x) {y : Element}
    (hy : x.stays = some y ∨ y ∈ x.added) (hs : y.symbol = .garden ∨ y.symbol = .pathSystem) :
    e.symbol = .garden ∧ y.rect? = e.rect? := by
  have hnoground : ¬(e.symbol = .area ∨ e.symbol = .flowerArea) := by
    intro he
    obtain ⟨hstays, hadded⟩ := h.ground he
    have hground : y.symbol.isSector = true ∨ y.symbol.isPlanting = true :=
      hy.elim (fun hy => .inl (hstays y hy)) (hadded y)
    rcases hs with hs | hs <;> simp [hs, Symbol.isSector, Symbol.isPlanting] at hground
  cases h with
  | gardenSplit rect =>
    simp only [List.mem_cons, List.not_mem_nil, or_false, reduceCtorEq, false_or] at hy
    rcases hy with rfl | rfl
    · simp [Element.symbol] at hs
    · exact ⟨rfl, rfl⟩
  | pathNetwork rect intensity =>
    obtain ⟨segment, -, rfl⟩ := List.mem_map.1 (hy.resolve_left (by simp))
    simp [Element.symbol] at hs
  | _ => simp [Element.symbol] at hnoground

private theorem Expands.added_paths (h : Expands σ params g e name x) (he : e.symbol = .pathSystem)
    {working : Rect} (hrect : e.rect? = some working) :
    x.added = (g.pathSegments working).map .pathRect := by
  cases h with
  | pathNetwork rect intensity =>
    obtain rfl := Option.some.inj hrect
    rfl
  | _ => simp [Element.symbol] at he

end Expansions

/-! ### The last step -/

namespace Engine
variable {σ : Type} [WordSource σ] {e e₀ : Engine σ} {t : Tier} {n : Node} {name : String}
  {outcome : Outcome} {working : Rect} {params : Params}

/-- No step takes the garden or the path system off the working rectangle. -/
theorem Advances.framed (hadv : e.Advances t n name outcome) (hg : e.Gardening)
    (hframed : e.graph.Framed working) : (e.step ()).engine.graph.Framed working := by
  rcases hadv.graph with ⟨-, x, hx, hgraph⟩ | ⟨-, -, -, hgraph⟩
  · rw [hgraph]
    intro i y hy hs
    have hnew : x.stays = some y ∨ y ∈ x.added → y.rect? = some working := by
      intro hfrom
      obtain ⟨hgarden, hrect⟩ := hx.framed hfrom hs
      exact hrect.trans (hframed n.id n.element hadv.node (.inl hgarden))
    rcases Graph.element?_expanded_cases (hg.fresh_prepared t) hadv.prepared_node hy with
      ⟨-, hold⟩ | ⟨-, hself⟩ | ⟨k, -, hk⟩
    · exact hframed i y ((Gardening.prepared_element? e t i).symm.trans hold) hs
    · exact hnew (.inl hself)
    · exact hnew (.inr (List.mem_of_getElem? hk))
  · rw [hgraph]
    exact hframed

theorem Advances.settles (hadv : e.Advances .pathSystem n name outcome) (hg : e.Gardening)
    (hp : e.graph.Growing n.id) (hn : n.symbol = .pathSystem)
    (hframed : e.graph.Framed working) : (e.step ()).engine.graph.Settled working := by
  have hcomplete := (hadv.lays hg hp hn).2
  have hsector : n.element.symbol.isSector = false := by
    rw [show n.element.symbol = .pathSystem from hn]
    rfl
  let prepared := e.graph.rebuildAdjacency pathThickness
  have hprepared : prepared = (e.prepared .pathSystem).graph := rfl
  have hfresh : prepared.Fresh := hg.fresh_prepared .pathSystem
  have hnode : prepared.element? n.id = some n.element := hadv.prepared_node
  have hgrowing : prepared.Growing n.id := hp.of_eq (Gardening.prepared_element? e .pathSystem)
  rcases hadv.graph with ⟨-, x, hx, hgraph⟩ | ⟨-, -, harea, -⟩
  · rw [← hprepared] at hx hgraph
    obtain ⟨-, hstays, hjoined, hsymbol⟩ := hx.of_pathSystem hn
    have hnone : ∀ y ∈ x.added, y.symbol.isSector = false := by
      intro y hy
      rw [hsymbol y hy]
      rfl
    have hedges : (prepared.expanded n.id x).edges = prepared.edges :=
      Graph.edges_expanded_rebuildAdjacency pathThickness hadv.node hsector hstays hjoined
    have hsectors : (prepared.expanded n.id x).sectors = e.graph.sectors := by
      rw [Graph.sectors_expanded hfresh hnode hsector hstays hnone]
      refine Graph.sectors_congr fun i => ?_
      rw [Graph.sectorRect?, Graph.sectorRect?, Graph.element?_rebuildAdjacency]
    refine ⟨hcomplete, ?_, ?_⟩
    · rw [hgraph]
      change (prepared.expanded n.id x).edges.map Edge.contact =
        Graph.contactsAmong pathThickness (prepared.expanded n.id x).sectors
      rw [hedges, hsectors]
      exact Graph.edges_rebuildAdjacency e.graph pathThickness
    · rw [hgraph]
      change ((prepared.expanded n.id x).nodesWith .pathRect).map Node.element =
        ((prepared.expanded n.id x).pathSegments working).map .pathRect
      rw [Graph.pathSegments_congr hedges]
      exact hgrowing.paths_expanded hfresh hstays hjoined
        (hx.added_paths hn (hframed n.id n.element hadv.node (.inr hn)))
  · rw [hn] at harea
    cases harea

/-! ### All steps -/

/-- How far a derivation has come, by its graph. -/
inductive Progress (working : Rect) (g : Graph) : Prop where
  | planned (h : g.Planned working)
  | growing (paths : NodeId) (h : g.Growing paths)
  | settled (h : g.Settled working)

private theorem Gardening.progress_step (hg : e.Gardening) (hframed : e.graph.Framed working)
    (h : Progress working e.graph) :
    (e.step ()).engine.graph.Framed working ∧ Progress working (e.step ()).engine.graph := by
  rcases hg.step_cases with ⟨-, -, hgraph, -⟩ | ⟨t, n, name, outcome, hadv⟩
  · rw [hgraph]
    exact ⟨hframed, h⟩
  refine ⟨hadv.framed hg hframed, ?_⟩
  cases h with
  | planned hp =>
    obtain ⟨-, -, paths, hgrowing, -⟩ := hadv.splits hg hp
    exact .growing paths hgrowing
  | growing paths hp =>
    rcases hp.node_cases hadv.node hadv.tier with ⟨hid, hn⟩ | ⟨rfl, hn, rfl⟩
    · exact .growing paths (hadv.grows hg hp hid (hn.imp And.left And.left))
    · exact .settled (hadv.settles hg hp hn hframed)
  | settled hsettled =>
    -- nothing was left to be expanded
    have hterminal : n.symbol.isNonterminal = false :=
      Graph.isNonterminal_eq_false hsettled.complete hadv.node
    rw [Tier.exists_of?_iff.1 ⟨t, hadv.tier⟩] at hterminal
    cases hterminal

theorem framed_start (working : Rect) (params : Params) (source : σ) :
    (start working params source).graph.Framed working := by
  intro id x hx _
  rw [((planned_start working params source).eq_garden hx).1]
  rfl

/-- A derivation waits for its first step, grows towards the paths, or has its final layout. -/
theorem Begun.progress (hbegun : Begun working params e₀)
    (hleads : Leads (fun _ => False) e₀ e) : Progress working e.graph := by
  obtain ⟨-, -, source, rfl⟩ := hbegun.eq_start
  have hplanned := planned_start working params source
  exact (hleads.preserves
    (P := fun e => e.Gardening ∧ e.graph.Framed working ∧ Progress working e.graph)
    ⟨.start working params source, framed_start working params source, .planned hplanned⟩
    (fun e ⟨hg, hframed, h⟩ => ⟨hg.step, hg.progress_step hframed h⟩) fun _ _ hno => hno.elim).2.2

theorem Begun.settled (hbegun : Begun working params e₀) (hleads : Leads (fun _ => False) e₀ e)
    (hcomplete : e.isComplete = true) : e.graph.Settled working := by
  have hno : e.graph.hasNonterminals = false := by simpa [isComplete] using hcomplete
  cases hbegun.progress hleads with
  | planned hplanned =>
    obtain ⟨id, hid⟩ := hplanned
    cases Graph.isNonterminal_eq_false hno ((hid id).trans (if_pos rfl))
  | growing paths hgrowing =>
    obtain ⟨rect, intensity, hp⟩ := hgrowing.waits
    cases Graph.isNonterminal_eq_false hno hp
  | settled hsettled => exact hsettled

/-- Every complete derivation has the final layout: each border that is kept between two sectors has
its path, and each path follows such a border. -/
theorem completed_is_laid_out (hbegun : Begun working params e₀)
    (hleads : Leads (fun _ => False) e₀ e) (hcomplete : e.isComplete = true) :
    e.graph.LaidOut working :=
  (hbegun.settled hleads hcomplete).laidOut

def quartered : Engine WordCycle :=
  start ⟨10.0, 10.0, 280.0, 180.0⟩ { divisions := 2 } (WordCycle.ofList [7])

/-- Four sectors, with three borders and a path along each. -/
theorem completed_is_laid_out_quartered :
    let e := (quartered.performAll () [.run 1500]).engine
    Begun ⟨10.0, 10.0, 280.0, 180.0⟩ { divisions := 2 } quartered ∧
    Leads (fun _ => False) quartered e ∧
    (e.isComplete = true ∧ e.graph.count .grassRect = 4 ∧ e.graph.edgeCount = 3 ∧
      e.graph.count .pathRect = 3) ∧
    e.graph.LaidOut ⟨10.0, 10.0, 280.0, 180.0⟩ := by
  intro e
  have hbegun : Begun ⟨10.0, 10.0, 280.0, 180.0⟩ { divisions := 2 } quartered :=
    .create _ (create_eq_ok_iff.2 ⟨rfl, rfl, rfl⟩)
  have hleads : Leads (fun _ => False) quartered e := leads_performAll () (by simp [Call.Within])
  have hcounts : e.isComplete = true ∧ e.graph.count .grassRect = 4 ∧ e.graph.edgeCount = 3 ∧
      e.graph.count .pathRect = 3 := by decide +kernel
  exact ⟨hbegun, hleads, hcounts, completed_is_laid_out hbegun hleads hcounts.1⟩

end Engine
end Parterre
