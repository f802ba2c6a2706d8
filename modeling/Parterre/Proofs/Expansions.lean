import Parterre.Proofs.GraphEdits
import Parterre.Rule.Standard

/-! # Expansions by the garden grammar

The grammar as a relation: which element each production expands, what becomes of it, which
elements come beside it and which edge.  Whatever a standard production does to a node that it
accepts is such an expansion, but for the cut of an area that leaves a sliver, which changes
nothing. -/
namespace Parterre
open Chance

/-- What a production makes of a node: the element that stays in its place, if one does, the
elements that are added, and the edges that are made. -/
structure Expansion where
  stays : Option Element
  added : List Element
  joined : List Contact := []

namespace Terrain

/-- What is left of an area that turns into a terrain. -/
def ground (rect : Rect) : Terrain → Element
  | .flowers => .flowerArea rect
  | _ => .grassRect rect

/-- What grows on an area that turns into a terrain. -/
def plants {σ : Type} [WordSource σ] (rect : Rect) (source : σ) : Terrain → List Element
  | .trees => (Grove.trees rect source).circles.map .treeCircle
  | .water =>
    let (wanted, source) := Pond.drawCenter rect source
    (Pond.drawShape source).1.elements rect wanted
  | _ => []

end Terrain

/-- `Expands params g e name x`: in the graph `g`, the production called `name` may make `x` of a
node with the element `e`. -/
inductive Expands (σ : Type) [WordSource σ] (params : Params) (g : Graph) :
    Element → String → Expansion → Prop where
  | gardenSplit (rect : Rect) :
    Expands σ params g (.garden rect) "garden_split"
      { stays := none
        added := [.area rect params.divisions, .pathSystem rect params.pathsIntensity] }
  | areaSplit (rect : Rect) (depth : Nat) (cut : Cut) (thickness : Float32)
      (hcut : cut ∈ Cut.candidates rect) (hfits : rect.fits cut minCutSide = true)
      (hthickness : thickness = 10.0 ∨ thickness = 15.0) :
    Expands σ params g (.area rect (depth + 1)) "area_split"
      { stays := none
        added := [.area (rect.firstPart cut) depth, .area (rect.secondPart cut) depth]
        joined := [⟨g.nextId, g.nextId + 1,
          Production.cutBorder (rect.firstPart cut) (rect.secondPart cut) thickness⟩] }
  | areaTerminal (rect : Rect) (depth : Nat) (terrain : Terrain) (source : σ)
      (huncut : Production.mayBeCut rect depth = false) :
    Expands σ params g (.area rect depth) "area_terminal"
      { stays := some (terrain.ground rect), added := terrain.plants rect source }
  | roseBeds (rect : Rect) (beds : List Rect)
      (hbeds : beds = FlowerBed.rosesAbreast rect ∨ beds = FlowerBed.rosesStacked rect) :
    Expands σ params g (.flowerArea rect) "rose_beds"
      { stays := some (.grassRect rect), added := (FlowerBed.planted beds).map .roseBed }
  | fountainCourt (rect : Rect) :
    Expands σ params g (.flowerArea rect) "fountain_court"
      { stays := some (.grassRect rect)
        added := .fountain (FlowerBed.fountain rect) ::
          (FlowerBed.planted (FlowerBed.tulips rect)).map .tulipBed }
  | pathNetwork (rect : Rect) (intensity : Nat) :
    Expands σ params g (.pathSystem rect intensity) "path_network"
      { stays := none, added := (g.pathSegments rect).map .pathRect }

namespace Graph

def expanded (g : Graph) (id : NodeId) (x : Expansion) : Graph :=
  let settled := match x.stays with
    | some e => g.replace id e
    | none => g.remove id
  x.joined.foldl (fun g c => g.connect c.a c.b c.border) (settled.addAll x.added)

section Expanded
variable {g : Graph} {id : NodeId} {x : Expansion}

theorem Fresh.replace (h : g.Fresh) (i : NodeId) (e : Element) : (g.replace i e).Fresh := by
  intro k hk
  rw [nextId_replace] at hk
  rw [element?_replace]
  split
  · next hi =>
    obtain ⟨e', he'⟩ := contains_iff.1 hi.2
    have hlt := h.lt_nextId he'
    exact absurd hk (by lia)
  · exact h k hk

theorem Fresh.remove (h : g.Fresh) (i : NodeId) : (g.remove i).Fresh := by
  intro k hk
  rw [nextId_remove] at hk
  rw [element?_remove]
  split
  · rfl
  · exact h k hk

/-- What an expansion does to the nodes: the node expanded stays or goes, new ones follow the ones
that came before, and all others are as they were. -/
theorem element?_expanded (h : g.Fresh) {e : Element} (he : g.element? id = some e) (i : NodeId) :
    (g.expanded id x).element? i =
      if i < g.nextId then if i = id then x.stays else g.element? i
      else x.added[i - g.nextId]? := by
  have hcontains : g.contains id = true := contains_iff.2 ⟨e, he⟩
  unfold expanded
  rw [(connectAll_nodes _ x.joined).1 i]
  cases hs : x.stays with
  | some e' =>
    rw [element?_addAll (h.replace id e'), nextId_replace, element?_replace]
    simp only [hcontains, and_true, eq_comm]
  | none =>
    rw [element?_addAll (h.remove id), nextId_remove, element?_remove]
    simp only [eq_comm]

@[simp] theorem nextId_expanded (g : Graph) (id : NodeId) (x : Expansion) :
    (g.expanded id x).nextId = g.nextId + x.added.length := by
  unfold expanded
  rw [(connectAll_nodes _ x.joined).2.1, nextId_addAll]
  cases x.stays with
  | some e => rw [nextId_replace]
  | none => rw [nextId_remove]

theorem Fresh.expanded (h : g.Fresh) (id : NodeId) (x : Expansion) : (g.expanded id x).Fresh := by
  unfold Graph.expanded
  refine Fresh.of_eq (Fresh.addAll ?_ x.added) (connectAll_nodes _ x.joined).1
    (connectAll_nodes _ x.joined).2.1
  cases x.stays with
  | some e => exact h.replace id e
  | none => exact h.remove id

theorem element?_expanded_self (h : g.Fresh) {e : Element} (he : g.element? id = some e) :
    (g.expanded id x).element? id = x.stays := by
  rw [element?_expanded h he, if_pos (h.lt_nextId he), if_pos rfl]

theorem element?_expanded_of_ne (h : g.Fresh) {e : Element} (he : g.element? id = some e)
    {i : NodeId} (hi : i ≠ id) {y : Element} (hy : g.element? i = some y) :
    (g.expanded id x).element? i = some y := by
  rw [element?_expanded h he, if_pos (h.lt_nextId hy), if_neg hi, hy]

theorem element?_expanded_added (h : g.Fresh) {e : Element} (he : g.element? id = some e)
    (k : Nat) : (g.expanded id x).element? (g.nextId + k) = x.added[k]? := by
  rw [element?_expanded h he, if_neg (Nat.not_lt.2 (Nat.le_add_right _ _)),
    Nat.add_sub_cancel_left]

theorem element?_expanded_cases (h : g.Fresh) {e : Element} (he : g.element? id = some e)
    {i : NodeId} {y : Element} (hy : (g.expanded id x).element? i = some y) :
    (i ≠ id ∧ g.element? i = some y) ∨ (i = id ∧ x.stays = some y) ∨
      ∃ k, i = g.nextId + k ∧ x.added[k]? = some y := by
  rw [element?_expanded h he] at hy
  split at hy
  · split at hy
    · next hi => exact .inr (.inl ⟨hi, hy⟩)
    · next hi => exact .inl ⟨hi, hy⟩
  · next hlt =>
    have hle : g.nextId ≤ i := Nat.le_of_not_lt hlt
    exact .inr (.inr ⟨i - g.nextId, (Nat.add_sub_cancel' hle).symm, hy⟩)

end Expanded
end Graph

/-! ### What grows on a sector -/

/-- Whether the symbol stands for something that grows or is built on a sector. -/
def Symbol.isPlanting : Symbol → Bool
  | .treeCircle | .waterCircle | .waterRect | .roseBed | .tulipBed | .fountain => true
  | _ => false

private theorem PondShape.isPlanting_of_mem_elements {sector : Rect} {wanted : Point}
    {shape : PondShape}
    {y : Element} (h : y ∈ shape.elements sector wanted) : y.symbol.isPlanting = true := by
  cases shape with
  | round =>
    rw [List.mem_singleton.1 h]
    rfl
  | twinLobe =>
    simp only [elements, List.mem_cons, List.not_mem_nil, or_false] at h
    rcases h with rfl | rfl | rfl <;> rfl

private theorem Terrain.isPlanting_of_mem_plants {σ : Type} [WordSource σ] {rect : Rect}
    {source : σ} {terrain : Terrain} {y : Element} (h : y ∈ terrain.plants rect source) :
    y.symbol.isPlanting = true := by
  cases terrain with
  | grass => cases h
  | flowers => cases h
  | trees =>
    obtain ⟨circle, -, rfl⟩ := List.mem_map.1 h
    rfl
  | water => exact PondShape.isPlanting_of_mem_elements h

private theorem FlowerBed.isPlanting_of_mem {beds : List Rect} {y : Element}
    (h : y ∈ (FlowerBed.planted beds).map .roseBed ∨ y ∈ (FlowerBed.planted beds).map .tulipBed) :
    y.symbol.isPlanting = true := by
  rcases h with h | h
  all_goals
    obtain ⟨bed, -, rfl⟩ := List.mem_map.1 h
    rfl

theorem Expands.isPlanting_of_mem {σ : Type} [WordSource σ] {params : Params} {g : Graph}
    {e y z : Element} {name : String} {x : Expansion} (h : Expands σ params g e name x)
    (hstays : x.stays = some y) (hz : z ∈ x.added) : z.symbol.isPlanting = true := by
  cases h with
  | gardenSplit => cases hstays
  | areaSplit => cases hstays
  | areaTerminal rect depth terrain source => exact Terrain.isPlanting_of_mem_plants hz
  | roseBeds rect beds => exact FlowerBed.isPlanting_of_mem (.inl hz)
  | fountainCourt rect =>
    rcases List.mem_cons.1 hz with rfl | hz
    · rfl
    · exact FlowerBed.isPlanting_of_mem (.inr hz)
  | pathNetwork => cases hstays

/-! ### What the productions do -/

section Productions
variable {σ : Type} [WordSource σ]

/-- Whether a piece of work on a node with the element `e` was an expansion by the production called
`name`, or the cut of an area that was rejected. -/
def Work.Expands (work : Work σ Outcome) (params : Params) (g : Graph) (id : NodeId) (e : Element)
    (name : String) : Prop :=
  (work.result = .applied ∧
    ∃ x, Parterre.Expands σ params g e name x ∧ work.graph = g.expanded id x) ∨
  (work.result = .rejected ∧ name = "area_split" ∧ e.symbol = .area ∧ work.graph = g)

theorem Work.Expands.result_ne_skipped {work : Work σ Outcome} {params : Params} {g : Graph}
    {id : NodeId} {e : Element} {name : String} (h : work.Expands params g id e name) :
    work.result ≠ .skipped := by
  rcases h with ⟨h, -⟩ | ⟨h, -⟩ <;> simp [h]

namespace Production
variable {params : Params} {g : Graph} {id : NodeId} {rect : Rect} (source : σ)

private theorem gardenSplit_expands (he : g.element? id = some (.garden rect)) :
    (gardenSplit.apply params id g source).Expands params g id (.garden rect) "garden_split" := by
  simp only [gardenSplit, he]
  exact .inl ⟨rfl, _, .gardenSplit rect, rfl⟩

theorem length_candidates_pos (rect : Rect) : 0 < (Cut.candidates rect).length := by
  unfold Cut.candidates
  split
  · decide
  · split <;> decide

theorem drawCut_mem (rect : Rect) : (rect.drawCut source).1 ∈ Cut.candidates rect := by
  have hlt : (drawIndex (Cut.candidates rect).length source).1 < (Cut.candidates rect).length :=
    indexOf_lt (length_candidates_pos rect) _
  unfold Rect.drawCut drawFrom
  simp only
  rw [List.getD_eq_getElem?_getD, List.getElem?_eq_getElem hlt, Option.getD_some]
  exact List.getElem_mem hlt

private theorem drawThickness_eq :
    (drawThickness source).1 = 10.0 ∨ (drawThickness source).1 = 15.0 := by
  unfold drawThickness
  simp only
  split
  · exact .inl rfl
  · exact .inr rfl

private theorem areaSplit_expands {depth : Nat} (he : g.element? id = some (.area rect depth))
    (hdepth : 0 < depth) : (areaSplit.apply params id g source).Expands params g id
      (.area rect depth) "area_split" := by
  obtain ⟨depth, rfl⟩ := Nat.exists_eq_succ_of_ne_zero (Nat.ne_of_gt hdepth)
  simp only [areaSplit, he]
  split
  · next hfits =>
    exact .inl ⟨rfl, _,
      .areaSplit rect depth _ _ (drawCut_mem source rect) hfits (drawThickness_eq _), rfl⟩
  · exact .inr ⟨rfl, rfl, rfl, rfl⟩

private theorem graph_layTerrain (terrain : Terrain) : (layTerrain g id rect terrain source).graph =
    g.expanded id { stays := some (terrain.ground rect), added := terrain.plants rect source } := by
  cases terrain <;> rfl

private theorem areaTerminal_expands {depth : Nat} (he : g.element? id = some (.area rect depth))
    (huncut : mayBeCut rect depth = false) : (areaTerminal.apply params id g source).Expands params
      g id (.area rect depth) "area_terminal" := by
  simp only [areaTerminal, he]
  exact .inl ⟨rfl, _, .areaTerminal rect depth _ _ huncut, graph_layTerrain _ _⟩

private theorem roseBeds_expands (he : g.element? id = some (.flowerArea rect)) :
    (roseBeds.apply params id g source).Expands params g id (.flowerArea rect) "rose_beds" := by
  simp only [roseBeds, he]
  refine .inl ⟨rfl, _, .roseBeds rect _ ?_, rfl⟩
  split
  · exact .inl rfl
  · exact .inr rfl

private theorem fountainCourt_expands (he : g.element? id = some (.flowerArea rect)) :
    (fountainCourt.apply params id g source).Expands params g id (.flowerArea rect)
      "fountain_court" := by
  simp only [fountainCourt, he]
  exact .inl ⟨rfl, _, .fountainCourt rect, rfl⟩

private theorem pathNetwork_expands {intensity : Nat} (hg : g.Fresh)
    (he : g.element? id = some (.pathSystem rect intensity)) :
    (pathNetwork.apply params id g source).Expands params g id (.pathSystem rect intensity)
      "path_network" := by
  simp only [pathNetwork, he]
  exact .inl ⟨rfl, _, .pathNetwork rect intensity, Graph.remove_addAll g _ (hg.lt_nextId he)⟩

end Production

/-- The productions of the grammar that may expand a node are for its symbol and accept it. -/
theorem RuleSet.mem_applicable_standard {p : Production σ} {n : Node} :
    p ∈ (RuleSet.standard (σ := σ)).applicable n ↔
      p ∈ Production.standard ∧ p.symbol = n.symbol ∧ p.accepts n = true := by
  simp only [applicable, rulesFor, RuleSet.standard, List.mem_filter, decide_eq_true_eq, and_assoc]

/-- A production of the grammar never passes over a node that it may expand. -/
theorem Production.apply_expands {p : Production σ} {n : Node} {g : Graph}
    (hp : p ∈ (RuleSet.standard (σ := σ)).applicable n) (hg : g.Fresh)
    (hn : g.element? n.id = some n.element) (params : Params) (source : σ) :
    (p.apply params n.id g source).Expands params g n.id n.element p.name := by
  obtain ⟨hmem, hsymbol, haccepts⟩ := RuleSet.mem_applicable_standard.1 hp
  obtain ⟨id, e⟩ := n
  simp only [Production.standard, List.mem_cons, List.not_mem_nil, or_false] at hmem
  rcases hmem with rfl | rfl | rfl | rfl | rfl | rfl
  · cases e <;> simp [gardenSplit, Node.symbol, Element.symbol] at hsymbol
    exact gardenSplit_expands source hn
  · cases e <;> simp [areaSplit, Node.symbol, Element.symbol] at hsymbol
    simp [areaSplit, mayBeCut] at haccepts
    exact areaSplit_expands source hn haccepts.1
  · cases e <;> simp [areaTerminal, Node.symbol, Element.symbol] at hsymbol
    exact areaTerminal_expands source hn (by simpa [areaTerminal] using haccepts)
  · cases e <;> simp [roseBeds, Node.symbol, Element.symbol] at hsymbol
    exact roseBeds_expands source hn
  · cases e <;> simp [fountainCourt, Node.symbol, Element.symbol] at hsymbol
    exact fountainCourt_expands source hn
  · cases e <;> simp [pathNetwork, Node.symbol, Element.symbol] at hsymbol
    exact pathNetwork_expands source hg hn

theorem RuleSet.exists_mem_applicable {n : Node} (h : n.symbol.isNonterminal = true) :
    ∃ p, p ∈ (RuleSet.standard (σ := σ)).applicable n := by
  obtain ⟨id, e⟩ := n
  simp only [mem_applicable_standard]
  cases e with
  | garden rect => exact ⟨.gardenSplit, by simp [Production.standard], rfl, rfl⟩
  | area rect depth =>
    cases hcut : Production.mayBeCut rect depth with
    | true => exact ⟨.areaSplit, by simp [Production.standard], rfl, hcut⟩
    | false =>
      have haccepts : Production.areaTerminal.accepts (σ := σ) ⟨id, .area rect depth⟩ = true := by
        simp [Production.areaTerminal, hcut]
      exact ⟨.areaTerminal, by simp [Production.standard], rfl, haccepts⟩
  | pathSystem rect intensity =>
    exact ⟨.pathNetwork, by simp [Production.standard], rfl, rfl⟩
  | flowerArea rect => exact ⟨.roseBeds, by simp [Production.standard], rfl, rfl⟩
  | _ => simp [Node.symbol, Element.symbol, Symbol.isNonterminal] at h

end Productions
end Parterre
