import Parterre.Proofs.FinalLayout
import Parterre.Proofs.GraphStore

/-! # Edges of a growing garden

While a garden grows, its edges come from cuts: the two parts of an area are joined when it is cut,
and whatever else happens to them later, they keep their rectangles.  Only a part that is cut again
goes, and its edge with it.  So the edges are those between the parts of one cut of which neither
was cut again, until the last step finds all edges anew. -/
namespace Parterre
open Chance EventSink

@[simp] theorem Rect.longBorder?_eq_some_iff {border kept : Rect} :
    border.longBorder? = some kept ↔ border.maxSide ≥ minBorderLength ∧ border = kept := by
  unfold longBorder?
  split
  · next h => simp [h]
  · next h => simp [h]

namespace Graph
variable {g g' : Graph} {id i : NodeId} {e : Element} {x : Expansion} {rect : Rect}

/-! ### Edges under edits -/

@[simp] theorem edges_replace (g : Graph) (id : NodeId) (e : Element) :
    (g.replace id e).edges = g.edges := by
  unfold replace
  split <;> rfl

theorem Implements.mem_edges_remove {p : PlainGraph} (h : g.Implements p) {edge : Edge} :
    edge ∈ (g.remove id).edges ↔ edge ∈ g.edges ∧ edge.ends.low ≠ id ∧ edge.ends.high ≠ id := by
  rw [(h.remove id).mem_edges_iff, h.mem_edges_iff]
  simp only [PlainGraph.remove, Ends.pair, Sym2.mem_iff]
  by_cases hid : id = edge.ends.low ∨ id = edge.ends.high
  · rw [if_pos hid]
    refine iff_of_false (by simp) ?_
    rintro ⟨-, hlow, hhigh⟩
    exact hid.elim (fun h => hlow h.symm) fun h => hhigh h.symm
  · rw [if_neg hid]
    obtain ⟨hlow, hhigh⟩ := not_or.1 hid
    exact ⟨fun h => ⟨h, Ne.symm hlow, Ne.symm hhigh⟩, And.left⟩

private theorem Implements.editAll {p : PlainGraph} (h : g.Implements p) (edits : List Edit) :
    ∃ p', (g.editAll edits).Implements p' := by
  induction edits generalizing g p with
  | nil => exact ⟨p, h⟩
  | cons edit edits ih => exact ih (h.edit edit)

private theorem expanded_eq_editAll (g : Graph) (id : NodeId) (x : Expansion) :
    ∃ edits, g.expanded id x = g.editAll edits := by
  have hrest : ∀ settled : Graph,
      x.joined.foldl (fun g c => g.connect c.a c.b c.border) (settled.addAll x.added) =
        settled.editAll (x.added.map .add ++ x.joined.map fun c => .connect c.a c.b c.border) := by
    intro settled
    rw [editAll_append, ← addAll_eq_editAll, Graph.editAll, List.foldl_map]
    rfl
  unfold expanded
  cases x.stays with
  | some e => exact ⟨.replace id e :: _, hrest _⟩
  | none => exact ⟨.remove id :: _, hrest _⟩

theorem Implements.expanded {p : PlainGraph} (h : g.Implements p) (id : NodeId) (x : Expansion) :
    ∃ p', (g.expanded id x).Implements p' := by
  obtain ⟨edits, hedits⟩ := expanded_eq_editAll g id x
  rw [hedits]
  exact h.editAll edits

theorem mem_edges_connect {c : Contact} (hlt : c.a < c.b) (ha : g.contains c.a = true)
    (hb : g.contains c.b = true) (hbelow : ∀ edge ∈ g.edges, edge.contact.Before c) {edge : Edge} :
    edge ∈ (g.connect c.a c.b c.border).edges ↔ edge ∈ g.edges ∨ edge.contact = c := by
  have hcontacts := edges_connect hlt ha hb hbelow
  have hmem : ∀ (g : Graph), edge ∈ g.edges ↔ edge.contact ∈ g.edges.map Edge.contact := by
    refine fun g => ⟨List.mem_map_of_mem, fun h => ?_⟩
    obtain ⟨edge', hedge', heq⟩ := List.mem_map.1 h
    exact Edge.contact_injective heq ▸ hedge'
  rw [hmem, hcontacts, List.mem_append, List.mem_singleton, ← hmem]

/-! ### Sectors -/

theorem sectorRect?_expanded (hg : g.Fresh) (he : g.element? id = some e)
    (hstays : ∀ y, x.stays = some y → y.sectorRect? = e.sectorRect?)
    (hi : g.sectorRect? i = some rect) (hleft : i ≠ id ∨ x.stays.isSome) :
    (g.expanded id x).sectorRect? i = some rect := by
  obtain ⟨y, hy, hrect⟩ := Option.bind_eq_some_iff.1 hi
  unfold sectorRect?
  by_cases hid : i = id
  · subst hid
    obtain ⟨z, hz⟩ := Option.isSome_iff_exists.1 (hleft.resolve_left fun hne => hne rfl)
    obtain rfl := Option.some.inj (he.symm.trans hy)
    rw [element?_expanded_self hg he, hz, Option.bind_some, hstays z hz, hrect]
  · rw [element?_expanded_of_ne hg he hid hy, Option.bind_some, hrect]

/-! ### Edges that come from cuts -/

/-- A graph whose edges are those between the pairs of sectors that `Paired` tells of, each with
the border of the two if they share one that is long enough. -/
structure Joins (g : Graph) (Paired : NodeId → NodeId → Prop) : Prop where
  indexed : ∃ p, g.Implements p
  joined : ∀ a b, (∃ edge ∈ g.edges, edge.ends.low = a ∧ edge.ends.high = b) ↔ Paired a b
  borders : ∀ edge ∈ g.edges, ∃ ra rb, g.sectorRect? edge.ends.low = some ra ∧
    g.sectorRect? edge.ends.high = some rb ∧
    ∃ thickness : Float32, (thickness = 10.0 ∨ thickness = 15.0) ∧
      edge.border = Production.cutBorder ra rb thickness

variable {Paired Paired' : NodeId → NodeId → Prop}

theorem Joins.congr (h : g.Joins Paired) (hpaired : ∀ a b, Paired a b ↔ Paired' a b) :
    g.Joins Paired' :=
  ⟨h.indexed, fun a b => (h.joined a b).trans (hpaired a b), h.borders⟩

private theorem Joins.forgetChanges (h : g.Joins Paired) : g.forgetChanges.Joins Paired := by
  obtain ⟨p, hp⟩ := h.indexed
  exact ⟨⟨p, hp.nextId, hp.element?, hp.border, hp.linked⟩, h.joined, h.borders⟩

theorem Joins.lt_nextId (h : g.Joins Paired) (hg : g.Fresh) {edge : Edge} (hedge : edge ∈ g.edges) :
    edge.ends.high < g.nextId := by
  obtain ⟨ra, rb, -, hb, -⟩ := h.borders edge hedge
  obtain ⟨y, hy, -⟩ := exists_of_sectorRect? hb
  exact hg.lt_nextId hy

theorem Joins.kept (h : g.Joins Paired) (hg : g.Fresh) (he : g.element? id = some e)
    (hjoined : x.joined = []) (hgone : x.stays = none → e.sectorRect? = none)
    (hstays : ∀ y, x.stays = some y → y.sectorRect? = e.sectorRect?) :
    (g.expanded id x).Joins Paired := by
  obtain ⟨p, hp⟩ := h.indexed
  have hend : ∀ {i rect}, g.sectorRect? i = some rect → i ≠ id ∨ x.stays.isSome := by
    intro i rect hi
    cases hs : x.stays with
    | some y => exact .inr rfl
    | none =>
      refine .inl ?_
      rintro rfl
      rw [sectorRect?, he, Option.bind_some, hgone hs] at hi
      cases hi
  have hedges : ∀ edge, edge ∈ (g.expanded id x).edges ↔ edge ∈ g.edges := by
    intro edge
    rw [expanded, hjoined, List.foldl_nil, edges_addAll]
    cases hs : x.stays with
    | some y => rw [edges_replace]
    | none =>
      rw [hp.mem_edges_remove, and_iff_left_iff_imp]
      intro hedge
      obtain ⟨ra, rb, ha, hb, -⟩ := h.borders edge hedge
      simpa [hs] using And.intro (hend ha) (hend hb)
  refine ⟨?_, fun a b => ?_, fun edge hedge => ?_⟩
  · exact hp.expanded id x
  · simp only [hedges, h.joined]
  · obtain ⟨ra, rb, ha, hb, hborder⟩ := h.borders edge ((hedges edge).1 hedge)
    exact ⟨ra, rb, sectorRect?_expanded hg he hstays ha (hend ha),
      sectorRect?_expanded hg he hstays hb (hend hb), hborder⟩

/-- Cutting an area joins its two parts, and drops the edges of the area. -/
theorem Joins.cut (h : g.Joins Paired) (hg : g.Fresh) (he : g.element? id = some e)
    (hstays : x.stays = none) {first second : Rect} {depth : Nat} {thickness : Float32}
    (hadded : x.added = [.area first depth, .area second depth])
    (hthickness : thickness = 10.0 ∨ thickness = 15.0)
    (hjoined : x.joined =
      [⟨g.nextId, g.nextId + 1, Production.cutBorder first second thickness⟩]) :
    (g.expanded id x).Joins fun a b =>
      (Paired a b ∧ a ≠ id ∧ b ≠ id) ∨ (a = g.nextId ∧ b = g.nextId + 1) := by
  obtain ⟨p, hp⟩ := h.indexed
  let c : Contact := ⟨g.nextId, g.nextId + 1, Production.cutBorder first second thickness⟩
  let parts := (g.remove id).addAll x.added
  have hexpanded : g.expanded id x = parts.connect c.a c.b c.border := by
    rw [expanded, hstays, hjoined]
    rfl
  have hfirst : (g.expanded id x).element? g.nextId = some (.area first depth) := by
    rw [← Nat.add_zero g.nextId, element?_expanded_added hg he, hadded]
    rfl
  have hsecond : (g.expanded id x).element? (g.nextId + 1) = some (.area second depth) := by
    rw [element?_expanded_added hg he, hadded]
    rfl
  have hcontains : ∀ {i y}, (g.expanded id x).element? i = some y → parts.contains i = true := by
    intro i y hi
    rw [hexpanded, element?_connect] at hi
    exact contains_iff.2 ⟨y, hi⟩
  have hparts : ∀ edge, edge ∈ parts.edges ↔
      edge ∈ g.edges ∧ edge.ends.low ≠ id ∧ edge.ends.high ≠ id := by
    intro edge
    rw [edges_addAll]
    exact hp.mem_edges_remove
  have hbelow : ∀ edge ∈ parts.edges, edge.contact.Before c := by
    intro edge hedge
    have hlt := h.lt_nextId hg ((hparts edge).1 hedge).1
    exact .inl (Nat.lt_trans edge.ends.low_lt_high hlt)
  have hedges : ∀ edge, edge ∈ (g.expanded id x).edges ↔
      (edge ∈ g.edges ∧ edge.ends.low ≠ id ∧ edge.ends.high ≠ id) ∨ edge.contact = c := by
    intro edge
    rw [hexpanded, ← hparts]
    exact mem_edges_connect (Nat.lt_succ_self _) (hcontains hfirst) (hcontains hsecond) hbelow
  refine ⟨?_, fun a b => ?_, fun edge hedge => ?_⟩
  · exact hp.expanded id x
  · rw [← h.joined]
    constructor
    · rintro ⟨edge, hedge, rfl, rfl⟩
      rcases (hedges edge).1 hedge with ⟨hmem, hlow, hhigh⟩ | hnew
      · exact .inl ⟨⟨edge, hmem, rfl, rfl⟩, hlow, hhigh⟩
      · exact .inr ⟨congrArg Contact.a hnew, congrArg Contact.b hnew⟩
    · rintro (⟨⟨edge, hmem, rfl, rfl⟩, hlow, hhigh⟩ | ⟨rfl, rfl⟩)
      · exact ⟨edge, (hedges edge).2 (.inl ⟨hmem, hlow, hhigh⟩), rfl, rfl⟩
      · exact ⟨⟨⟨g.nextId, g.nextId + 1, Nat.lt_succ_self _⟩, c.border⟩,
          (hedges _).2 (.inr rfl), rfl, rfl⟩
  · rcases (hedges edge).1 hedge with ⟨hmem, hlow, hhigh⟩ | hnew
    · obtain ⟨ra, rb, ha, hb, hborder⟩ := h.borders edge hmem
      have hkeeps : ∀ y, x.stays = some y → y.sectorRect? = e.sectorRect? := by simp [hstays]
      exact ⟨ra, rb, sectorRect?_expanded hg he hkeeps ha (.inl hlow),
        sectorRect?_expanded hg he hkeeps hb (.inl hhigh), hborder⟩
    · have hlow : edge.ends.low = g.nextId := congrArg Contact.a hnew
      have hhigh : edge.ends.high = g.nextId + 1 := congrArg Contact.b hnew
      refine ⟨first, second, ?_, ?_, thickness, hthickness, congrArg Contact.border hnew⟩
      · rw [hlow, sectorRect?, hfirst]
        rfl
      · rw [hhigh, sectorRect?, hsecond]
        rfl

end Graph

section Expansions
variable {σ : Type} [WordSource σ] {params : Params} {g : Graph} {e : Element} {name : String}
  {x : Expansion}

/-- What an expansion does to the sectors: it cuts an area, or it keeps each rectangle and joins
nothing. -/
theorem Expands.sector_cases (h : Expands σ params g e name x) :
    (name ≠ "area_split" ∧ x.joined = [] ∧ (x.stays = none → e.sectorRect? = none) ∧
      ∀ y, x.stays = some y → y.sectorRect? = e.sectorRect?) ∨
    (name = "area_split" ∧ e.symbol = .area ∧ x.stays = none ∧
      ∃ first second depth thickness, (thickness = 10.0 ∨ thickness = 15.0) ∧
        x.added = [.area first depth, .area second depth] ∧
        x.joined = [⟨g.nextId, g.nextId + 1, Production.cutBorder first second thickness⟩]) := by
  cases h with
  | areaSplit rect depth cut thickness hcut hfits hthickness =>
    exact .inr ⟨rfl, rfl, rfl, _, _, depth, thickness, hthickness, rfl, rfl⟩
  | gardenSplit rect => exact .inl ⟨by simp, rfl, fun _ => rfl, by simp⟩
  | areaTerminal rect depth terrain source =>
    refine .inl ⟨by simp, rfl, by simp, fun y hy => ?_⟩
    obtain rfl := Option.some.inj hy
    cases terrain <;> rfl
  | roseBeds rect beds =>
    refine .inl ⟨by simp, rfl, by simp, fun y hy => ?_⟩
    obtain rfl := Option.some.inj hy
    rfl
  | fountainCourt rect =>
    refine .inl ⟨by simp, rfl, by simp, fun y hy => ?_⟩
    obtain rfl := Option.some.inj hy
    rfl
  | pathNetwork rect intensity => exact .inl ⟨by simp, rfl, fun _ => rfl, by simp⟩

end Expansions

namespace Engine
variable {σ : Type} [WordSource σ] {e e₀ : Engine σ} {t : Tier} {n : Node} {name : String}
  {outcome : Outcome} {trail : List (Engine σ)} {working : Rect} {params : Params} {id a b : NodeId}

/-- Whether the step from here cuts an area in two. -/
def Cuts (e : Engine σ) (id : NodeId) : Prop :=
  ∃ step, .ruleApplied step id .area "area_split" .applied ∈ e.stepEvents

/-- Along a trail `a` and `b` came from cutting one area, whose parts get the next two ids, and
neither of them was cut again. -/
structure Siblings (trail : List (Engine σ)) (a b : NodeId) : Prop where
  parted : ∃ e ∈ trail, ∃ id, e.Cuts id ∧ a = e.graph.nextId ∧ b = e.graph.nextId + 1
  uncut : ∀ e ∈ trail, ¬e.Cuts a ∧ ¬e.Cuts b

theorem Advances.cuts_iff (hadv : e.Advances t n name outcome) :
    e.Cuts id ↔ id = n.id ∧ n.symbol = .area ∧ name = "area_split" ∧ outcome = .applied := by
  constructor
  · rintro ⟨step, hmem⟩
    obtain ⟨-, hid, hsymbol, hname, houtcome⟩ :=
      Event.ruleApplied.inj (hadv.ruleApplied_eq hmem)
    exact ⟨hid, hsymbol.symm, hname.symm, houtcome.symm⟩
  · rintro ⟨rfl, hsymbol, rfl, rfl⟩
    refine ⟨e.steps + 1, ?_⟩
    rw [hadv.events, hsymbol]
    exact List.mem_append_right _ (List.mem_singleton_self _)

theorem siblings_concat_of_not_cuts (h : ∀ id, ¬e.Cuts id) :
    Siblings (trail ++ [e]) a b ↔ Siblings trail a b := by
  have hmem : ∀ {P : Engine σ → Prop}, (∃ x ∈ trail ++ [e], P x) ↔ (∃ x ∈ trail, P x) ∨ P e := by
    simp [or_and_right, exists_or]
  constructor
  · rintro ⟨hparted, huncut⟩
    refine ⟨(hmem.1 hparted).resolve_right ?_, fun x hx => huncut x (List.mem_append_left _ hx)⟩
    rintro ⟨id, hcuts, -⟩
    exact h id hcuts
  · rintro ⟨hparted, huncut⟩
    refine ⟨hmem.2 (.inl hparted), fun x hx => ?_⟩
    rcases List.mem_append.1 hx with hx | hx
    · exact huncut x hx
    · obtain rfl := List.mem_singleton.1 hx
      exact ⟨h a, h b⟩

/-- A step that cuts an area makes its parts siblings, and leaves the area none. -/
theorem siblings_concat_of_cuts (hcuts : ∀ i, e.Cuts i ↔ i = id) (hid : id < e.graph.nextId)
    (hbelow : ∀ x ∈ trail, ∀ i, x.Cuts i → i < e.graph.nextId) :
    Siblings (trail ++ [e]) a b ↔ (Siblings trail a b ∧ a ≠ id ∧ b ≠ id) ∨
      (a = e.graph.nextId ∧ b = e.graph.nextId + 1) := by
  constructor
  · rintro ⟨⟨x, hx, i, hi, hparts⟩, huncut⟩
    rcases List.mem_append.1 hx with hx | hx
    · refine .inl ⟨⟨⟨x, hx, i, hi, hparts⟩, fun y hy => huncut y (List.mem_append_left _ hy)⟩, ?_⟩
      have hlast := huncut e (by simp)
      rwa [hcuts, hcuts] at hlast
    · rw [List.mem_singleton.1 hx] at hparts
      exact .inr hparts
  · rintro (⟨⟨⟨x, hx, hparted⟩, huncut⟩, ha, hb⟩ | ⟨rfl, rfl⟩)
    · refine ⟨⟨x, List.mem_append_left _ hx, hparted⟩, fun y hy => ?_⟩
      rcases List.mem_append.1 hy with hy | hy
      · exact huncut y hy
      · rw [List.mem_singleton.1 hy, hcuts, hcuts]
        exact ⟨ha, hb⟩
    · refine ⟨⟨e, by simp, id, (hcuts id).2 rfl, rfl, rfl⟩, fun y hy => ?_⟩
      -- ids that are still to be given out belong to no area that was cut
      rcases List.mem_append.1 hy with hy | hy
      · exact ⟨fun h => Nat.lt_irrefl _ (hbelow y hy _ h),
          fun h => Nat.lt_asymm (Nat.lt_succ_self _) (hbelow y hy _ h)⟩
      · rw [List.mem_singleton.1 hy, hcuts, hcuts]
        exact ⟨Nat.ne_of_gt hid, Nat.ne_of_gt (Nat.lt_succ_of_lt hid)⟩

/-- The edges of a garden that still grows, after steps along a trail. -/
structure Growth (trail : List (Engine σ)) (e : Engine σ) : Prop where
  joins : e.graph.Joins (Siblings trail)
  below : ∀ x ∈ trail, ∀ i, x.Cuts i → i < e.graph.nextId

private theorem growth_start (working : Rect) (params : Params) (source : σ) :
    Growth [] (start working params source) := by
  have hplain := Graph.implements_empty.add (.garden working)
  refine ⟨⟨⟨_, hplain.nextId, hplain.element?, hplain.border, hplain.linked⟩, fun a b => ?_,
    fun edge hedge => ?_⟩, fun x hx => by cases hx⟩
  · refine iff_of_false ?_ fun h => ?_
    · rintro ⟨edge, hedge, -⟩
      cases hedge
    · obtain ⟨x, hx, -⟩ := h.parted
      cases hx
  · cases hedge

/-- A step before the last one makes edges by cutting only. -/
theorem Growth.step (h : Growth trail e) (hg : e.Gardening)
    (hadv : e.Advances t n name outcome) (ht : t ≠ .pathSystem) :
    Growth (trail ++ [e]) (e.step ()).engine := by
  have hprepared : e.prepared t = e := if_neg ht
  have hcuts : ∀ i, e.Cuts i ↔ _ := fun i => hadv.cuts_iff
  have hid : n.id < e.graph.nextId := hg.fresh.lt_nextId hadv.node
  have hbelow : e.graph.nextId ≤ (e.step ()).engine.graph.nextId →
      ∀ x ∈ trail ++ [e], ∀ i, x.Cuts i → i < (e.step ()).engine.graph.nextId := by
    intro hle x hx i hi
    refine Nat.lt_of_lt_of_le ?_ hle
    rcases List.mem_append.1 hx with hx | hx
    · exact h.below x hx i hi
    · obtain rfl := List.mem_singleton.1 hx
      exact ((hcuts i).1 hi).1 ▸ hid
  rcases hadv.graph with ⟨rfl, x, hx, hgraph⟩ | ⟨rfl, -, -, hgraph⟩
  · rw [hprepared] at hx hgraph
    refine ⟨?_, hbelow ?_⟩
    · rw [hgraph]
      refine Graph.Joins.forgetChanges ?_
      rcases hx.sector_cases with
        ⟨hname, hjoined, hgone, hstays⟩ | ⟨hname, hsymbol, hstays, first, second, depth, thickness,
          hthickness, hadded, hjoined⟩
      · refine (h.joins.kept hg.fresh hadv.node hjoined hgone hstays).congr fun a b => ?_
        exact (siblings_concat_of_not_cuts fun i hi => hname ((hcuts i).1 hi).2.2.1).symm
      · refine (h.joins.cut hg.fresh hadv.node hstays hadded hthickness hjoined).congr
          fun a b => ?_
        refine (siblings_concat_of_cuts (fun i => ?_) hid h.below).symm
        rw [hcuts]
        exact ⟨And.left, fun hi => ⟨hi, hsymbol, hname, rfl⟩⟩
    · rw [hgraph]
      exact (Nat.le_add_right _ _).trans_eq (Graph.nextId_expanded _ _ x).symm
  · refine ⟨?_, hbelow ?_⟩
    · rw [hgraph]
      refine h.joins.congr fun a b => (siblings_concat_of_not_cuts fun i hi => ?_).symm
      cases ((hcuts i).1 hi).2.2.2
    · rw [hgraph]

/-- A step that expands the path system lays the paths. -/
theorem Advances.production_of_pathSystem (hadv : e.Advances .pathSystem n name outcome) :
    name = "path_network" := by
  have hn : n.symbol = .pathSystem := by
    have htier := hadv.tier
    cases hs : n.symbol <;> simp [hs, Tier.of?, Symbol.isNonterminal] at htier ⊢
  rcases hadv.graph with ⟨-, x, hx, -⟩ | ⟨-, -, harea, -⟩
  · exact (hx.of_pathSystem hn).1
  · rw [hn] at harea
    cases harea

theorem Course.growth {events : List Event} (hbegun : Begun working params e₀)
    (h : Course e₀ trail events e) (hpaths : "path_network" ∉ ruleNames events) :
    Growth trail e := by
  induction h with
  | start =>
    obtain ⟨-, -, source, rfl⟩ := hbegun.eq_start
    exact growth_start working params source
  | @step trail events e h ih =>
    rw [ruleNames_append, List.mem_append, not_or] at hpaths
    have hgrowth := ih hpaths.1
    have hg := (h.stage hbegun).1
    rcases hg.step_cases with ⟨-, -, hgraph, -, hnone⟩ | ⟨t, n, name, outcome, hadv⟩
    · have hcuts : ∀ i, ¬e.Cuts i := by
        rintro i ⟨step, hmem⟩
        rw [hnone] at hmem
        cases hmem
      refine ⟨?_, fun x hx i hi => ?_⟩
      · rw [hgraph]
        exact hgrowth.joins.congr fun a b => (siblings_concat_of_not_cuts hcuts).symm
      · rw [hgraph]
        rcases List.mem_append.1 hx with hx | hx
        · exact hgrowth.below x hx i hi
        · exact absurd hi (List.mem_singleton.1 hx ▸ hcuts i)
    · refine hgrowth.step hg hadv ?_
      rintro rfl
      refine hpaths.2 ?_
      rw [hadv.events, ruleNames_append, hadv.production_of_pathSystem]
      exact List.mem_append_right _ (List.mem_singleton_self _)
  | frame event hframe h ih =>
    rw [ruleNames_append, List.mem_append, not_or] at hpaths
    exact ih hpaths.1

/-- The edges always tell of the sectors that are there.  Before the paths are laid they join the
two parts of each area that was cut, as long as neither part is cut again, and carry the border that
the two share; from then on they join all sectors that share a border.  A border that is kept is
long enough for a path. -/
theorem edges_follow_sectors (hbegun : Begun working params e₀) {calls : List (Call σ)}
    (hcalls : ∀ c ∈ calls, c.KeepsRules) :
    let done := e₀.performAll ({} : Collector) calls
    let g := done.engine.graph
    let laid := "path_network" ∈ ruleNames done.sink.events
    (∀ edge ∈ g.edges, edge.ends.low < edge.ends.high ∧
      ∃ ra rb, g.sectorRect? edge.ends.low = some ra ∧ g.sectorRect? edge.ends.high = some rb ∧
        (¬laid → ∃ thickness : Float32, (thickness = 10.0 ∨ thickness = 15.0) ∧
          edge.border = (ra.sharedBorder rb thickness).bind fun border =>
            border.snapped.longBorder?) ∧
        (laid → ∃ border, ra.borderBetween rb 10.0 = some border ∧
          edge.border = border.longBorder?)) ∧
    (¬laid → ∀ a b, (∃ edge ∈ g.edges, edge.ends.low = a ∧ edge.ends.high = b) ↔
      Siblings (e₀.trailAll calls) a b) ∧
    ∀ edge ∈ g.edges, ∀ border, edge.border = some border →
      border.maxSide ≥ minBorderLength := by
  intro done g laid
  obtain ⟨more, hmore, hcourse⟩ := course_performAll (e := e₀) [] hcalls
  have hevents : done.sink.events = more := congrArg Collector.events hmore
  have hcourse : Course e₀ (e₀.trailAll calls) done.sink.events done.engine := hevents ▸ hcourse
  have hends : ∀ edge ∈ g.edges,
      ∃ ra rb, g.sectorRect? edge.ends.low = some ra ∧ g.sectorRect? edge.ends.high = some rb ∧
        (¬laid → ∃ thickness : Float32, (thickness = 10.0 ∨ thickness = 15.0) ∧
          edge.border = Production.cutBorder ra rb thickness) ∧
        (laid → ∃ border, ra.borderBetween rb 10.0 = some border ∧
          edge.border = border.longBorder?) := by
    intro edge hedge
    by_cases hlaid : laid
    · have hstage := (hcourse.stage hbegun).2.1
      have hcomplete : done.engine.isComplete = true := by
        simpa [isComplete] using hstage.complete_iff.2 hlaid
      have hsettled := hbegun.settled (leads_performAll _ hcalls) hcomplete
      obtain ⟨-, ra, rb, border, ha, hb, hborder, hkept⟩ := Graph.mem_contacts_iff.1
        ((Graph.mem_edges_iff_of_contacts hsettled.edges).1 hedge)
      exact ⟨ra, rb, ha, hb, fun hno => absurd hlaid hno, fun _ => ⟨border, hborder, hkept⟩⟩
    · obtain ⟨ra, rb, ha, hb, hborder⟩ := (hcourse.growth hbegun hlaid).joins.borders edge hedge
      exact ⟨ra, rb, ha, hb, fun _ => hborder, fun h => absurd h hlaid⟩
  refine ⟨fun edge hedge => ⟨edge.ends.low_lt_high, hends edge hedge⟩, fun hlaid => ?_,
    fun edge hedge border hborder => ?_⟩
  · exact (hcourse.growth hbegun hlaid).joins.joined
  · -- either way the border went through the same filter
    have hlong : ∃ longer : Rect, longer.longBorder? = some border := by
      obtain ⟨ra, rb, -, -, hbefore, hafter⟩ := hends edge hedge
      by_cases hlaid : laid
      · obtain ⟨shared, -, hkept⟩ := hafter hlaid
        exact ⟨shared, hkept.symm.trans hborder⟩
      · obtain ⟨thickness, -, hkept⟩ := hbefore hlaid
        obtain ⟨shared, -, hlong⟩ := Option.bind_eq_some_iff.1 (hkept.symm.trans hborder)
        exact ⟨shared.snapped, hlong⟩
    obtain ⟨longer, hlong⟩ := hlong
    obtain ⟨hlength, rfl⟩ := Rect.longBorder?_eq_some_iff.1 hlong
    exact hlength

/-- Three steps into the middling garden one of the first two areas is cut again. -/
theorem edges_follow_sectors_cut_again :
    let calls : List (Call WordCycle) := [.step, .run 2]
    Begun ⟨10.0, 10.0, 580.0, 480.0⟩ {} middling ∧ (∀ c ∈ calls, c.KeepsRules) ∧
      "path_network" ∉ ruleNames (middling.performAll ({} : Collector) calls).sink.events ∧
      Siblings (middling.trailAll calls) 6 7 ∧ ¬Siblings (middling.trailAll calls) 4 5 := by
  intro calls
  have hcalls : ∀ c ∈ calls, c.KeepsRules := by simp [calls, Call.Within]
  have hunlaid : "path_network" ∉
      ruleNames (middling.performAll ({} : Collector) calls).sink.events := by decide +kernel
  obtain ⟨-, hjoined, -⟩ := edges_follow_sectors begun_middling hcalls
  refine ⟨begun_middling, hcalls, hunlaid, ?_, ?_⟩
  · rw [← hjoined hunlaid]
    decide +kernel
  · rw [← hjoined hunlaid]
    decide +kernel

end Engine
end Parterre
