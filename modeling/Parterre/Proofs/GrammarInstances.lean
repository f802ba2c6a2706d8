import Parterre.Proofs.GardenSteps

/-! # Steps as instances of the grammar

Read without its places, the grammar says which kinds of elements may come of an element, and how
many.  Every step that is applied follows it: of the nodes that were there the step touches only
the one that it expands, and the nodes that it adds have the next ids.  So what needs no expansion
stays as it is for good. -/
namespace Parterre
open Chance

/-- `Admits params e name stays added`: by the grammar, the production called `name` may put `stays`
in the place of the element `e`, or nothing, and add the elements `added`. -/
inductive Admits (params : Params) :
    Element → String → Option Element → List Element → Prop where
  | gardenSplit (rect : Rect) :
    Admits params (.garden rect) "garden_split" none
      [.area rect params.divisions, .pathSystem rect params.pathsIntensity]
  | areaSplit (rect first second : Rect) (depth : Nat) :
    Admits params (.area rect (depth + 1)) "area_split" none
      [.area first depth, .area second depth]
  | meadow (rect : Rect) (depth : Nat) :
    Admits params (.area rect depth) "area_terminal" (some (.flowerArea rect)) []
  | lawn (rect : Rect) (depth : Nat) :
    Admits params (.area rect depth) "area_terminal" (some (.grassRect rect)) []
  | grove (rect : Rect) (depth : Nat) (trees : List Circle)
      (hcount : trees.length ≤ Grove.treeCount rect) (hmost : Grove.treeCount rect ≤ 16) :
    Admits params (.area rect depth) "area_terminal" (some (.grassRect rect))
      (trees.map .treeCircle)
  | roundPond (rect : Rect) (depth : Nat) (pond : Circle) :
    Admits params (.area rect depth) "area_terminal" (some (.grassRect rect))
      [.waterCircle pond]
  | twinPond (rect : Rect) (depth : Nat) (lobe other : Circle) (channel : Rect) :
    Admits params (.area rect depth) "area_terminal" (some (.grassRect rect))
      [.waterCircle lobe, .waterCircle other, .waterRect channel]
  | roseBeds (rect : Rect) (beds : List Rect) (hcount : beds.length ≤ 2)
      (hextent : ∀ bed ∈ beds, 0.0 < bed.w ∧ 0.0 < bed.h) :
    Admits params (.flowerArea rect) "rose_beds" (some (.grassRect rect)) (beds.map .roseBed)
  | fountainCourt (rect : Rect) (fountain : Circle) (beds : List Rect) (hcount : beds.length ≤ 4)
      (hextent : ∀ bed ∈ beds, 0.0 < bed.w ∧ 0.0 < bed.h) :
    Admits params (.flowerArea rect) "fountain_court" (some (.grassRect rect))
      (.fountain fountain :: beds.map .tulipBed)
  | pathNetwork (rect : Rect) (intensity : Nat) (segments : List Rect) :
    Admits params (.pathSystem rect intensity) "path_network" none (segments.map .pathRect)

/-! ### What the productions add -/

section Scatter
variable {σ : Type} [WordSource σ]

private theorem Scatter.length_placeNext_le (s : Scatter) (bounds : Rect) (done : Scattered σ)
    (i : Nat) : (s.placeNext bounds done i).circles.length ≤ done.circles.length + 1 := by
  unfold placeNext
  split
  · exact Nat.le_refl _
  · exact Nat.le_succ _

theorem Scatter.length_placeAll_le (s : Scatter) (bounds : Rect) (source : σ) :
    (s.placeAll bounds source).circles.length ≤ s.count := by
  have hfold : ∀ (is : List Nat) (done : Scattered σ),
      (is.foldl (s.placeNext bounds) done).circles.length ≤ done.circles.length + is.length := by
    intro is
    induction is with
    | nil => exact fun done => Nat.le_refl _
    | cons i is ih =>
      intro done
      have hone := s.length_placeNext_le bounds done i
      have hrest := ih (s.placeNext bounds done i)
      rw [List.foldl_cons, List.length_cons]
      omega
  have hall := hfold (List.range s.count) ⟨[], [], source⟩
  rw [List.length_range, List.length_nil, Nat.zero_add] at hall
  rw [placeAll, List.length_reverse]
  exact hall

theorem Grove.length_trees_le (rect : Rect) (source : σ) :
    (trees rect source).circles.length ≤ treeCount rect :=
  trees_eq rect source ▸ (scatter rect).length_placeAll_le rect source

end Scatter

namespace FlowerBed

private theorem extent_of_mem_planted {beds : List Rect} {bed : Rect} (h : bed ∈ planted beds) :
    0.0 < bed.w ∧ 0.0 < bed.h := by
  have hpositive := (List.mem_filter.1 h).2
  simpa [Rect.isPositive] using hpositive

private theorem length_planted_le (beds : List Rect) : (planted beds).length ≤ beds.length :=
  List.length_filter_le _ beds

end FlowerBed

section Expansions
variable {σ : Type} [WordSource σ] {params : Params} {g : Graph} {e : Element} {name : String}
  {x : Expansion}

theorem Terrain.admits (params : Params) (rect : Rect) (depth : Nat) (source : σ)
    (terrain : Terrain) : Admits params (.area rect depth) "area_terminal"
      (some (terrain.ground rect)) (terrain.plants rect source) := by
  cases terrain with
  | grass => exact .lawn rect depth
  | flowers => exact .meadow rect depth
  | trees =>
    exact .grove rect depth _ (Grove.length_trees_le rect source) (Grove.treeCount_le rect)
  | water =>
    simp only [plants, ground]
    cases (Pond.drawShape (Pond.drawCenter rect source).2).1 with
    | round => exact .roundPond rect depth _
    | twinLobe => exact .twinPond rect depth _ _ _

theorem Expands.admits (h : Expands σ params g e name x) :
    Admits params e name x.stays x.added := by
  cases h with
  | gardenSplit rect => exact .gardenSplit rect
  | areaSplit rect depth cut thickness hcut hfits hthickness => exact .areaSplit rect _ _ depth
  | areaTerminal rect depth terrain source huncut => exact terrain.admits params rect depth source
  | roseBeds rect beds hbeds =>
    have htwo : beds.length = 2 := by rcases hbeds with rfl | rfl <;> rfl
    have hcount := FlowerBed.length_planted_le beds
    exact .roseBeds rect _ (htwo ▸ hcount) fun bed hbed => FlowerBed.extent_of_mem_planted hbed
  | fountainCourt rect =>
    exact .fountainCourt rect _ _ (FlowerBed.length_planted_le _) fun bed hbed =>
      FlowerBed.extent_of_mem_planted hbed
  | pathNetwork rect intensity => exact .pathNetwork rect intensity _

end Expansions

/-! ### What a step leaves alone -/

/-- A graph whose nodes differ from those of `g` by the expansion of one of them: `stays` is in its
place, or nothing, and the elements added have the next ids in order. -/
structure Graph.Differs (g : Graph) (id : NodeId) (stays : Option Element) (added : List Element)
    (g' : Graph) : Prop where
  nextId : g'.nextId = g.nextId + added.length
  element? : ∀ i, g'.element? i =
    if i < g.nextId then if i = id then stays else g.element? i else added[i - g.nextId]?

namespace Engine
variable {σ : Type} [WordSource σ] {e e₀ : Engine σ} {t : Tier} {n : Node} {name : String}
  {outcome : Outcome}

omit [WordSource σ] in
@[simp] theorem prepared_nextId (e : Engine σ) (t : Tier) :
    (e.prepared t).graph.nextId = e.graph.nextId := by
  unfold prepared
  split
  · exact Graph.nextId_rebuildAdjacency _ _
  · rfl

theorem Advances.admits (hadv : e.Advances t n name .applied) (hg : e.Gardening) :
    ∃ stays added, Admits e.params n.element name stays added ∧
      e.graph.Differs n.id stays added (e.step ()).engine.graph := by
  rcases hadv.graph with ⟨-, x, hx, hgraph⟩ | ⟨hrejected, -⟩
  · refine ⟨x.stays, x.added, hx.admits, ?_⟩
    rw [hgraph]
    constructor
    · rw [← prepared_nextId e t]
      exact Graph.nextId_expanded _ _ x
    · intro i
      rw [← prepared_nextId e t, ← Gardening.prepared_element? e t i]
      exact Graph.element?_expanded (hg.fresh_prepared t) hadv.prepared_node i
  · cases hrejected

theorem Gardening.step_terminal (hg : e.Gardening) {id : NodeId} {x : Element}
    (hx : e.graph.element? id = some x) (hterminal : x.symbol.isNonterminal = false) :
    (e.step ()).engine.graph.element? id = some x := by
  rcases hg.step_cases with ⟨-, -, hgraph, -⟩ | ⟨t, n, name, outcome, hadv⟩
  · rw [hgraph]
    exact hx
  · rcases hadv.graph with ⟨rfl, -⟩ | ⟨-, -, -, hgraph⟩
    · obtain ⟨stays, added, -, hdiffers⟩ := hadv.admits hg
      have hne : id ≠ n.id := by
        rintro rfl
        obtain rfl := Option.some.inj (hx.symm.trans hadv.node)
        have hexpands := Tier.exists_of?_iff.1 ⟨t, hadv.tier⟩
        rw [show n.symbol.isNonterminal = false from hterminal] at hexpands
        cases hexpands
      rw [hdiffers.element?, if_pos (hg.fresh.lt_nextId hx), if_neg hne, hx]
    · rw [hgraph]
      exact hx

theorem Gardening.leads_terminal (hg : e.Gardening) {e' : Engine σ}
    (hl : Leads (fun _ => False) e e') {id : NodeId} {x : Element}
    (hx : e.graph.element? id = some x) (hterminal : x.symbol.isNonterminal = false) :
    e'.graph.element? id = some x := by
  have hboth := hl.preserves (P := fun e => e.Gardening ∧ e.graph.element? id = some x)
    ⟨hg, hx⟩ (fun e h => ⟨h.1.step, h.1.step_terminal h.2 hterminal⟩) fun _ _ hno => hno.elim
  exact hboth.2

variable {working : Rect} {params : Params}

/-- Every step that is applied is an instance of the grammar and touches nothing else: the node that
it expands becomes what the grammar allows, new nodes have the next ids, and all other nodes are as
they were.  Hence a node that needs no expansion is there ever after, unchanged. -/
theorem applied_steps_follow_grammar (hbegun : Begun working params e₀)
    (hleads : Leads (fun _ => False) e₀ e) :
    (∀ step id symbol name, .ruleApplied step id symbol name .applied ∈ e.stepEvents →
      ∃ x stays added, e.graph.element? id = some x ∧ x.symbol = symbol ∧
        Admits params x name stays added ∧ ∀ (τ : Type) [EventSink τ] (sink : τ),
          e.graph.Differs id stays added (e.step sink).engine.graph) ∧
    ∀ e', Leads (fun _ => False) e e' → ∀ id x, e.graph.element? id = some x →
      x.symbol.isNonterminal = false → e'.graph.element? id = some x := by
  obtain ⟨hg, hparams⟩ := hbegun.gardening hleads
  refine ⟨fun step id symbol name hmem => ?_, fun e' hl id x hx hterminal =>
    hg.leads_terminal hl hx hterminal⟩
  rcases hg.step_cases with ⟨-, -, -, -, hnone⟩ | ⟨t, n, name', outcome, hadv⟩
  · rw [hnone] at hmem
    cases hmem
  · have hlast := hadv.ruleApplied_eq hmem
    cases hlast
    obtain ⟨stays, added, hadmits, hdiffers⟩ := hadv.admits hg
    refine ⟨n.element, stays, added, hadv.node, rfl, hparams ▸ hadmits, fun τ _ sink => ?_⟩
    rw [(step_is e sink).engine]
    exact hdiffers

/-- Six steps into the middling garden, where an area is about to receive trees. -/
theorem applied_steps_follow_grammar_planting :
    let e := (middling.performAll () [.step, .run 5]).engine
    Begun ⟨10.0, 10.0, 580.0, 480.0⟩ {} middling ∧ Leads (fun _ => False) middling e ∧
    .ruleApplied 7 9 .area "area_terminal" .applied ∈ e.stepEvents ∧
    (∀ step id symbol name, .ruleApplied step id symbol name .applied ∈ e.stepEvents →
      ∃ x stays added, e.graph.element? id = some x ∧ x.symbol = symbol ∧
        Admits {} x name stays added ∧ ∀ (τ : Type) [EventSink τ] (sink : τ),
          e.graph.Differs id stays added (e.step sink).engine.graph) ∧
    ∀ e', Leads (fun _ => False) e e' → ∀ id x, e.graph.element? id = some x →
      x.symbol.isNonterminal = false → e'.graph.element? id = some x := by
  intro e
  have hleads : Leads (fun _ => False) middling e := leads_middling (by simp [Call.Within])
  exact ⟨begun_middling, hleads, by decide +kernel,
    applied_steps_follow_grammar begun_middling hleads⟩

end Engine
end Parterre
