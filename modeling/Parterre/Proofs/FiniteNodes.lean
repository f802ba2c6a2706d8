import Parterre.Proofs.CutTree
import Parterre.Proofs.PlantedShapes
import Parterre.Proofs.SectorEdges

/-! # Nodes with finite coordinates

A garden whose working rectangle keeps well within the range of binary32 numbers has finite
coordinates in every node, at every state of its derivation.  The sectors are leaves of a tree of
cuts and so in range; what is planted on them was shown to be finite; and paths follow borders of
two sectors, which snapping makes a little larger at most. -/
namespace Parterre
open Binary32 Chance

/-! ### Magnitudes -/

theorem abs_floor_le (q : ℚ) : |(⌊q⌋ : ℚ)| ≤ |q| + 1 := by
  have hlow := Int.lt_floor_add_one q
  have hhigh := Int.floor_le q
  exact abs_le.2 ⟨by linarith [neg_abs_le q], by linarith [le_abs_self q]⟩

structure Bounded (bound : ℚ) (x : Float32) : Prop where
  finite : x.isFinite = true
  abs_le : |value x| ≤ bound

section Magnitudes
variable {k : ℤ} {x y a b c : Float32} {q u v bound : ℚ}

theorem Bounded.mono (h : Bounded u x) (hle : u ≤ v) : Bounded v x :=
  ⟨h.finite, h.abs_le.trans hle⟩

theorem bounded_of_stands (h : Stands x q) (hq : |q| ≤ bound) : Bounded bound x :=
  ⟨h.finite, h.value_eq ▸ hq⟩

/-- Rounding makes a magnitude a little larger at most. -/
theorem bounded_of_rounded (h : Stands x (rounded q)) (hq : |q| ≤ bound) :
    Bounded (1001 / 1000 * bound + 1 / 1000) x := by
  refine ⟨h.finite, ?_⟩
  have hnear := abs_rounded_sub_le_mul q
  have htriangle := abs_sub_abs_le_abs_sub (rounded q) q
  norm_num at hnear
  rw [h.value_eq]
  linarith [abs_nonneg q]

theorem Bounded.add (ha : Bounded u a) (hb : Bounded v b) (hrange : u + v ≤ largest) :
    Bounded (1001 / 1000 * (u + v) + 1 / 1000) (a + b) := by
  have hsum : |value a + value b| ≤ u + v :=
    (abs_add_le _ _).trans (add_le_add ha.abs_le hb.abs_le)
  exact bounded_of_rounded (stands_add ha.finite hb.finite (hsum.trans hrange)) hsum

theorem Bounded.sub (ha : Bounded u a) (hb : Bounded v b) (hrange : u + v ≤ largest) :
    Bounded (1001 / 1000 * (u + v) + 1 / 1000) (a - b) := by
  have hsum : |value a - value b| ≤ u + v :=
    (abs_sub _ _).trans (add_le_add ha.abs_le hb.abs_le)
  exact bounded_of_rounded (stands_sub ha.finite hb.finite (hsum.trans hrange)) hsum

theorem Bounded.greatest (ha : Bounded u a) (hb : Bounded u b) : Bounded u (greatest a b) :=
  bounded_of_stands (stands_greatest ha.finite hb.finite) (abs_max_le_max_abs_abs.trans
    (max_le ha.abs_le hb.abs_le))

theorem Bounded.snap (hk : Scale k) (h : Bounded bound x) (hbound : bound ≤ 5 / 2 * 2 ^ k) :
    Bounded (101 / 100 * bound + 20) (snap x) := by
  have hrange := hk.le_largest
  have hscale := hk.le
  have hnonneg := (abs_nonneg _).trans h.abs_le
  have hquotient : |value x / 10| ≤ bound / 10 := by
    rw [abs_div, abs_of_pos (by norm_num : (0 : ℚ) < 10)]
    linarith [h.abs_le]
  have hdiv := stands_div h.finite stands_gridUnit.finite
    (by rw [stands_gridUnit.value_eq]; norm_num)
  rw [stands_gridUnit.value_eq] at hdiv
  have hdiv := bounded_of_rounded (hdiv (hquotient.trans (by linarith))) hquotient
  have hhalf : Bounded (1 / 2) 0.5 := bounded_of_stands stands_half (by norm_num)
  have hsum := hdiv.add hhalf (by linarith)
  have hfloor := stands_floor hsum.finite
  have hfloorle : |value (floor (x / gridUnit + 0.5))| ≤ |value (x / gridUnit + 0.5)| + 1 := by
    rw [hfloor.value_eq]
    exact abs_floor_le _
  have hproduct : |value (floor (x / gridUnit + 0.5)) * 10| ≤ 1003 / 1000 * bound + 16 := by
    rw [abs_mul, abs_of_pos (by norm_num : (0 : ℚ) < 10)]
    linarith [hsum.abs_le]
  have hmul := stands_mul hfloor.finite stands_gridUnit.finite
  rw [stands_gridUnit.value_eq] at hmul
  refine (bounded_of_rounded (hmul (hproduct.trans (by linarith))) hproduct).mono ?_
  linarith

end Magnitudes

/-! ### Borders -/

section Borders
variable {k : ℤ} {a b r working border : Rect} {bound : ℚ}

structure Rect.BoundedBy (bound : ℚ) (r : Rect) : Prop where
  x : Bounded bound r.x
  y : Bounded bound r.y
  w : Bounded bound r.w
  h : Bounded bound r.h

private theorem Rect.BoundedBy.snapped (hk : Scale k) (h : r.BoundedBy bound)
    (hbound : bound ≤ 5 / 2 * 2 ^ k) : r.snapped.BoundedBy (101 / 100 * bound + 20) :=
  ⟨h.x.snap hk hbound, h.y.snap hk hbound, h.w.snap hk hbound, h.h.snap hk hbound⟩

section Spans
variable {x w x' w' : Float32} {lo hi : ℚ}

/-- Whether a span is finite at both ends, and begins and ends in a range. -/
structure EndsIn (lo hi : ℚ) (x w : Float32) : Prop where
  finite : x.isFinite = true
  finite_end : (x + w).isFinite = true
  low : lo ≤ value x
  high : value x ≤ hi
  low_end : lo ≤ value (x + w)
  high_end : value (x + w) ≤ hi

theorem SectorSpan.endsIn (h : SectorSpan k x w) (hk : Scale k) :
    EndsIn (-(101 / 100 * 2 ^ k)) (107 / 100 * 2 ^ k) x w := by
  obtain ⟨hscale, hunit, hxlow, hxhigh, hwpos, hextent⟩ := h.bounds hk
  have hright := h.right hk
  exact ⟨h.finite, hright.finite, by linarith, by linarith, by linarith [hright.low],
    by linarith [hright.high]⟩

private theorem EndsIn.bounded_begin (h : EndsIn lo hi x w) (hlo : -bound ≤ lo) (hhi : hi ≤ bound) :
    Bounded bound x :=
  ⟨h.finite, abs_le.2 ⟨hlo.trans h.low, h.high.trans hhi⟩⟩

theorem EndsIn.bounded_end (h : EndsIn lo hi x w) (hlo : -bound ≤ lo) (hhi : hi ≤ bound) :
    Bounded bound (x + w) :=
  ⟨h.finite_end, abs_le.2 ⟨hlo.trans h.low_end, h.high_end.trans hhi⟩⟩

/-- The length that two spans have in common, or the distance between them. -/
theorem EndsIn.bounded_overlap (h : EndsIn lo hi x w) (h' : EndsIn lo hi x' w')
    (hrange : hi - lo ≤ largest) :
    Bounded (1001 / 1000 * (hi - lo) + 1 / 1000) (overlap x (x + w) x' (x' + w')) := by
  have hleast := stands_least h.finite_end h'.finite_end
  have hgreatest := stands_greatest h.finite h'.finite
  have hbound : |min (value (x + w)) (value (x' + w')) - max (value x) (value x')| ≤ hi - lo := by
    have hmin := (min_le_left (value (x + w)) (value (x' + w'))).trans h.high_end
    have hmin' := le_min h.low_end h'.low_end
    have hmax := h.low.trans (le_max_left (value x) (value x'))
    have hmax' := max_le h.high h'.high
    exact abs_le.2 ⟨by linarith, by linarith⟩
  have hdifference := stands_sub hleast.finite hgreatest.finite
  rw [hleast.value_eq, hgreatest.value_eq] at hdifference
  exact bounded_of_rounded (hdifference (hbound.trans hrange)) hbound

/-- Whether a rectangle begins and ends in a range along both axes. -/
structure Rect.EndsIn (lo hi : ℚ) (r : Rect) : Prop where
  across : Parterre.EndsIn lo hi r.x r.w
  down : Parterre.EndsIn lo hi r.y r.h

/-- The strip at any side of two rectangles.  It reaches past the side by half of its thickness, and
is no longer than the range that the rectangles lie in. -/
theorem Rect.EndsIn.strip {thickness : Float32} {half : ℚ} (ha : a.EndsIn lo hi)
    (hb : b.EndsIn lo hi) (reach : ℚ) (hlo : -reach ≤ lo) (hhi : hi ≤ reach)
    (hthickness : Bounded bound thickness) (hhalf : Bounded half (thickness / 2.0))
    (hlong : 1001 / 1000 * (hi - lo) + 1 / 1000 ≤ bound)
    (hoff : 1001 / 1000 * (reach + half) + 1 / 1000 ≤ bound) (hrange : bound ≤ largest)
    (side : Side) : (side.strip a b thickness).BoundedBy bound := by
  have hpos := (abs_nonneg _).trans hhalf.abs_le
  have hspan := ha.across.low.trans ha.across.high
  have hoff {c : Float32} (hc : Bounded reach c) : Bounded bound (c - thickness / 2.0) :=
    (hc.sub hhalf (by linarith)).mono hoff
  have hbegin {c d w w' : Float32} (hc : Parterre.EndsIn lo hi c w)
      (hd : Parterre.EndsIn lo hi d w') : Bounded bound (greatest c d) :=
    ((hc.bounded_begin hlo hhi).greatest (hd.bounded_begin hlo hhi)).mono (by linarith)
  have hacross := (ha.across.bounded_overlap hb.across (by linarith)).mono hlong
  have hdown := (ha.down.bounded_overlap hb.down (by linarith)).mono hlong
  cases side with
  | right =>
    exact ⟨hoff (ha.across.bounded_end hlo hhi), hbegin ha.down hb.down, hthickness, hdown⟩
  | left =>
    exact ⟨hoff (ha.across.bounded_begin hlo hhi), hbegin ha.down hb.down, hthickness, hdown⟩
  | below =>
    exact ⟨hbegin ha.across hb.across, hoff (ha.down.bounded_end hlo hhi), hacross, hthickness⟩
  | above =>
    exact ⟨hbegin ha.across hb.across, hoff (ha.down.bounded_begin hlo hhi), hacross, hthickness⟩

end Spans

theorem stands_pathThickness : Stands Engine.pathThickness 10 := stands_gridUnit

theorem stands_half_pathThickness : Stands (Engine.pathThickness / 2.0) 5 := stands_half_roseGap

theorem Rect.Ranged.strip (ha : a.Ranged k) (hb : b.Ranged k) (hk : Scale k) (side : Side) :
    (side.strip a b Engine.pathThickness).BoundedBy (21 / 10 * 2 ^ k) := by
  have hscale := hk.le
  have hrange := hk.le_largest
  have hthickness : Bounded (21 / 10 * 2 ^ k) Engine.pathThickness :=
    bounded_of_stands stands_pathThickness (by norm_num; linarith)
  have hhalf : Bounded 5 (Engine.pathThickness / 2.0) :=
    bounded_of_stands stands_half_pathThickness (by norm_num)
  exact Rect.EndsIn.strip ⟨ha.across.endsIn hk, ha.down.endsIn hk⟩
    ⟨hb.across.endsIn hk, hb.down.endsIn hk⟩ (107 / 100 * 2 ^ k) (by linarith) le_rfl hthickness
    hhalf (by linarith) (by linarith) (by linarith) side

/-- A path along the border of two sectors, moved into the working rectangle. -/
theorem finite_segment (hworking : working.Ranged k) (hsquare : working.InSquare k)
    (ha : a.Ranged k) (hb : b.Ranged k) (hk : Scale k)
    (hborder : a.borderBetween b Engine.pathThickness = some border) :
    (Graph.segment working border).isFinite = true := by
  have hscale := hk.le
  have hrange := hk.le_largest
  obtain ⟨side, -, rfl⟩ := Option.map_eq_some_iff.1 hborder
  have hsnapped := ((ha.strip hb hk side).snapped hk (by linarith)).snapped hk (by linarith)
  have hclamped : ∀ {x w p l : Float32}, SectorSpan k x w → value x + value w ≤ 2 ^ k →
      Bounded (101 / 100 * (101 / 100 * (21 / 10 * 2 ^ k) + 20) + 20) p →
      Bounded (101 / 100 * (101 / 100 * (21 / 10 * 2 ^ k) + 20) + 20) l →
      (clampLow p x (x + w - l)).isFinite = true := by
    intro x w p l hspan hle hp hl
    have hbounded : Bounded (107 / 100 * 2 ^ k) (x + w) :=
      (hspan.endsIn hk).bounded_end (by linarith) le_rfl
    have hmost := hbounded.sub hl (by linarith)
    exact (stands_clampLow hp.finite hspan.finite hmost.finite).finite
  exact Rect.isFinite_iff.2 ⟨hclamped hworking.across hsquare.right hsnapped.x hsnapped.w,
    hclamped hworking.down hsquare.bottom hsnapped.y hsnapped.h, hsnapped.w.finite,
    hsnapped.h.finite⟩

end Borders

/-! ### Sectors -/

namespace CutTree
variable {k : ℤ} {rect : Rect}

/-- The leaves of a tree of cuts are in range; those that a cut left are wide. -/
theorem ranged_of_mem_leaves {t : CutTree} (hfits : t.Fits rect) (hrect : rect.Ranged k)
    (hk : Scale k) {level : ℕ} {l : Leaf} (hl : l ∈ t.leaves rect level) :
    l.rect.Ranged k ∧ (l.rect = rect ∨ l.rect.Wide) := by
  induction t generalizing rect level with
  | leaf id =>
    obtain rfl := List.mem_singleton.1 hl
    exact ⟨hrect, .inl rfl⟩
  | cut c first second ihf ihs =>
    obtain ⟨⟨-, hcut⟩, hfirst, hsecond⟩ := hfits
    obtain ⟨⟨hranged, hwide⟩, hranged', hwide'⟩ := hrect.parts hk hcut
    rcases List.mem_append.1 hl with hl | hl
    · obtain ⟨hl, hl'⟩ := ihf hfirst hranged hl
      exact ⟨hl, .inr (hl'.elim (fun heq => heq ▸ hwide) id)⟩
    · obtain ⟨hl, hl'⟩ := ihs hsecond hranged' hl
      exact ⟨hl, .inr (hl'.elim (fun heq => heq ▸ hwide') id)⟩

private theorem Leaf.Carries.rect_eq {divisions : ℕ} {l : Leaf} {e : Element}
    (h : l.Carries divisions e) : e.rect? = some l.rect := by
  cases h <;> rfl

end CutTree

/-- Whether cuts that fit leave a sector of a working rectangle. -/
def Rect.LeavesSector (working S : Rect) : Prop :=
  ∃ t : CutTree, t.Fits working ∧ ∃ l ∈ t.leaves working 0, l.rect = S

theorem Rect.LeavesSector.ranged {k : ℤ} {working S : Rect} (h : working.LeavesSector S)
    (hworking : working.Ranged k) (hk : Scale k) : S.Ranged k ∧ (S = working ∨ S.Wide) := by
  obtain ⟨t, hfits, l, hl, rfl⟩ := h
  exact CutTree.ranged_of_mem_leaves hfits hworking hk hl

section Expansions
variable {σ : Type} [WordSource σ] {params : Params} {g : Graph} {e y : Element} {name : String}
  {x : Expansion} {k : ℤ} {S : Rect}

theorem Expands.shape_stays (h : Expands σ params g e name x) (hy : x.stays = some y) :
    y.shape = e.shape := by
  cases h with
  | gardenSplit => cases hy
  | areaSplit => cases hy
  | areaTerminal rect depth terrain source =>
    obtain rfl := Option.some.inj hy
    cases terrain <;> rfl
  | roseBeds =>
    obtain rfl := Option.some.inj hy
    rfl
  | fountainCourt =>
    obtain rfl := Option.some.inj hy
    rfl
  | pathNetwork => cases hy

omit [WordSource σ] in
theorem Element.exists_rect_of_isSector (he : e.symbol.isSector = true) :
    ∃ rect, e.rect? = some rect ∧ e.sectorRect? = some rect := by
  cases e <;> first | exact ⟨_, rfl, rfl⟩ | cases he

omit [WordSource σ] in
theorem Element.exists_sectorRect (he : e.symbol = .area ∨ e.symbol = .flowerArea) :
    ∃ rect, e.rect? = some rect ∧ e.sectorRect? = some rect :=
  exists_rect_of_isSector (by rcases he with h | h <;> rw [h] <;> rfl)

/-- What an expansion adds has the shape of the element, is planted on a sector, or is a path. -/
theorem Expands.shape_added {P : Shape → Prop} (h : Expands σ params g e name x)
    (hself : P e.shape) (hplanted : e.symbol = .area ∨ e.symbol = .flowerArea → P y.shape)
    (hpaths : e.symbol = .pathSystem → ∀ rect, e.rect? = some rect →
      ∀ segment ∈ g.pathSegments rect, P (.rect segment)) (hy : y ∈ x.added) : P y.shape := by
  by_cases he : e.symbol = .area ∨ e.symbol = .flowerArea
  · exact hplanted he
  cases h with
  | gardenSplit rect =>
    simp only [List.mem_cons, List.not_mem_nil, or_false] at hy
    rcases hy with rfl | rfl <;> exact hself
  | pathNetwork rect intensity =>
    obtain ⟨segment, hsegment, rfl⟩ := List.mem_map.1 hy
    exact hpaths rfl rect rfl segment hsegment
  | _ => simp [Element.symbol] at he

end Expansions

/-- Whether a property of shapes passes to all that a garden gets: to what is planted on its
sectors, and to the paths along their borders. -/
structure Shape.Spreads (σ : Type) [WordSource σ] (working : Rect) (P : Shape → Prop) : Prop where
  planted : ∀ {params : Params} {g : Graph} {e y : Element} {name : String} {x : Expansion}
    {S : Rect}, Expands σ params g e name x → e.symbol = .area ∨ e.symbol = .flowerArea →
    e.rect? = some S → working.LeavesSector S → y ∈ x.added → P y.shape
  laid : ∀ {ra rb border : Rect}, working.LeavesSector ra → working.LeavesSector rb →
    ra.borderBetween rb Engine.pathThickness = some border →
    P (.rect (Graph.segment working border))

/-- Whether the shapes of all nodes of a graph have a property. -/
def Graph.AllShapes (g : Graph) (P : Shape → Prop) : Prop :=
  ∀ id e, g.element? id = some e → P e.shape

namespace Engine
variable {σ : Type} [WordSource σ] {e e₀ : Engine σ} {t : Tier} {n : Node} {name : String}
  {outcome : Outcome} {working : Rect} {params : Params} {k : ℤ}

omit [WordSource σ] in
theorem Divided.exists_leaf (h : e.Divided working) {id : NodeId} {rect : Rect}
    (hrect : e.graph.sectorRect? id = some rect) : working.LeavesSector rect := by
  obtain ⟨x, hx, hsector⟩ := Graph.exists_of_sectorRect? hrect
  rcases h with ⟨-, hplanned⟩ | ⟨t, hcut⟩
  · rw [(hplanned.eq_garden hx).1] at hsector
    cases hsector
  · obtain ⟨l, hl, hid, -⟩ := hcut.mem_ids (hcut.isLeaf id x hx hsector)
    have hcarries := hcut.carries_of_id hx hl hid
    rw [Graph.sectorRect?, hx, Option.bind_some, Element.sectorRect?, if_pos hsector,
      hcarries.rect_eq] at hrect
    exact ⟨t, hcut.fits, l, hl, Option.some.inj hrect⟩

omit [WordSource σ] in
theorem Divided.ranged (h : e.Divided working) (hworking : working.Ranged k) (hk : Scale k)
    {id : NodeId} {rect : Rect} (hrect : e.graph.sectorRect? id = some rect) :
    rect.Ranged k ∧ (rect = working ∨ rect.Wide) :=
  (h.exists_leaf hrect).ranged hworking hk

omit [WordSource σ] in
/-- The paths that are laid after the edges were found anew follow borders of two sectors. -/
theorem Divided.laid {P : Shape → Prop} (h : e.Divided working)
    (hP : ∀ {ra rb border : Rect}, working.LeavesSector ra → working.LeavesSector rb →
      ra.borderBetween rb pathThickness = some border → P (.rect (Graph.segment working border)))
    {segment : Rect}
    (hsegment : segment ∈ (e.graph.rebuildAdjacency pathThickness).pathSegments working) :
    P (.rect segment) := by
  obtain ⟨edge, hedge, border, hborder, rfl⟩ := Graph.mem_pathSegments_iff.1 hsegment
  rw [Graph.mem_edges_iff_of_contacts (Graph.edges_rebuildAdjacency e.graph pathThickness),
    Graph.mem_contacts_iff] at hedge
  obtain ⟨-, ra, rb, between, ha, hb, hbetween, hlong⟩ := hedge
  have hkept : between.longBorder? = some border := hlong.symm.trans hborder
  rw [← (Rect.longBorder?_eq_some_iff.1 hkept).2]
  exact hP (h.exists_leaf ha) (h.exists_leaf hb) hbetween

theorem Gardening.shapes_step {P : Shape → Prop} (hg : e.Gardening) (hdivided : e.Divided working)
    (hframed : e.graph.Framed working) (hP : Shape.Spreads σ working P)
    (h : e.graph.AllShapes P) : (e.step ()).engine.graph.AllShapes P := by
  rcases hg.step_cases with ⟨-, -, hgraph, -⟩ | ⟨t, n, name, outcome, hadv⟩
  · rw [hgraph]
    exact h
  rcases hadv.graph with ⟨-, x, hx, hgraph⟩ | ⟨-, -, -, hgraph⟩
  · rw [hgraph]
    intro id y hy
    rcases Graph.element?_expanded_cases (hg.fresh_prepared t) hadv.prepared_node hy with
      ⟨-, hold⟩ | ⟨-, hself⟩ | ⟨j, -, hj⟩
    · exact h id y ((Gardening.prepared_element? e t id).symm.trans hold)
    · rw [hx.shape_stays hself]
      exact h n.id n.element hadv.node
    · have hadded := List.mem_of_getElem? hj
      refine hx.shape_added (h n.id n.element hadv.node) (fun hsymbol => ?_)
        (fun hsymbol rect hrect segment hsegment => ?_) hadded
      · obtain ⟨rect, hrect, hsector⟩ := Element.exists_sectorRect hsymbol
        have hsector : e.graph.sectorRect? n.id = some rect := by
          rw [Graph.sectorRect?, hadv.node]
          exact hsector
        exact hP.planted hx hsymbol hrect (hdivided.exists_leaf hsector) hadded
      · -- the path system is what the edges are found anew for
        obtain rfl : rect = working :=
          Option.some.inj (hrect.symm.trans (hframed n.id n.element hadv.node (.inr hsymbol)))
        obtain rfl : t = .pathSystem := by
          have htier := hadv.tier
          rw [show n.symbol = .pathSystem from hsymbol] at htier
          exact (Option.some.inj htier).symm
        exact hdivided.laid hP.laid hsegment
  · rw [hgraph]
    exact h

/-- That numbers are finite spreads over a working rectangle that keeps well within the range. -/
theorem spreads_isFinite (hworking : working.Ranged k) (hsquare : working.InSquare k)
    (hk : Scale k) : Shape.Spreads σ working fun s => s.isFinite = true where
  planted h he hrect hS hy := (h.liesIn he hrect (hS.ranged hworking hk).1 hk hy).1
  laid ha hb hborder := finite_segment hworking hsquare (ha.ranged hworking hk).1
    (hb.ranged hworking hk).1 hk hborder

private theorem Gardening.framed_step (hg : e.Gardening) (h : e.graph.Framed working) :
    (e.step ()).engine.graph.Framed working := by
  rcases hg.step_cases with ⟨-, -, hgraph, -⟩ | ⟨t, n, name, outcome, hadv⟩
  · rw [hgraph]
    exact h
  · exact hadv.framed hg h

/-- What the working rectangle has, and what spreads from it, holds of all nodes at every state. -/
theorem Begun.all_shapes {P : Shape → Prop} (hbegun : Begun working params e₀)
    (hleads : Leads (fun _ => False) e₀ e) (hworking : P (.rect working))
    (hP : Shape.Spreads σ working P) : e.graph.AllShapes P := by
  obtain ⟨-, -, source, rfl⟩ := hbegun.eq_start
  have hstart : (start working params source).graph.AllShapes P := by
    intro id x hx
    rw [((planned_start working params source).eq_garden hx).1]
    exact hworking
  exact (hleads.preserves
    (P := fun e =>
      (e.Gardening ∧ e.Divided working) ∧ e.graph.Framed working ∧ e.graph.AllShapes P)
    ⟨⟨.start working params source, divided_start working params source⟩,
      framed_start working params source, hstart⟩
    (fun e ⟨⟨hg, hd⟩, hf, ha⟩ => ⟨⟨hg.step, hd.step hg⟩, hg.framed_step hf,
      hg.shapes_step hd hf hP ha⟩) fun _ _ hno => hno.elim).2.2

/-- A garden whose working rectangle lies in the square that reaches `2 ^ 126` from the origin has
finite coordinates, extents and radii in every node, at every state of its derivation. -/
theorem coordinates_stay_finite (hbegun : Begun working params e₀)
    (hleads : Leads (fun _ => False) e₀ e) (hsquare : working.InSquare 126) :
    ∀ n ∈ e.graph.nodes, n.shape.isFinite = true := by
  obtain ⟨-, hvalid, -⟩ := hbegun.eq_start
  have hk : Scale 126 := ⟨by norm_num, le_rfl⟩
  have hworking := Rect.Ranged.of_validate hvalid hsquare
  have hall := hbegun.all_shapes hleads
    (Rect.isFinite_iff.2 ⟨hworking.across.finite, hworking.down.finite,
      hworking.across.finite_extent, hworking.down.finite_extent⟩)
    (spreads_isFinite hworking hsquare hk)
  exact fun n hn => hall n.id n.element (Graph.mem_nodes_iff.1 hn)

theorem stands_middling_width : Stands 580.0 580 :=
  stands_of_parts (n := false) (m := 9502720) (e := -14) ⟨rfl, rfl⟩ (by norm_num)

theorem stands_middling_height : Stands 480.0 480 :=
  stands_of_parts (n := false) (m := 15728640) (e := -15) ⟨rfl, rfl⟩ (by norm_num)

theorem inSquare_middling (h : 10 ≤ k) : (⟨10.0, 10.0, 580.0, 480.0⟩ : Rect).InSquare k := by
  have hscale := two_zpow_le h
  have hmargin : Stands 10.0 10 := stands_pad
  norm_num at hscale
  constructor <;> simp only [stands_middling_width.value_eq, stands_middling_height.value_eq,
    hmargin.value_eq] <;> linarith

/-- A complete garden. -/
theorem coordinates_stay_finite_middling :
    let e := (middling.performAll () [.run 1500]).engine
    Begun ⟨10.0, 10.0, 580.0, 480.0⟩ {} middling ∧ Leads (fun _ => False) middling e ∧
      (⟨10.0, 10.0, 580.0, 480.0⟩ : Rect).InSquare 126 ∧
      ∀ n ∈ e.graph.nodes, n.shape.isFinite = true := by
  intro e
  have hleads : Leads (fun _ => False) middling e := leads_middling (by simp [Call.Within])
  have hsquare := inSquare_middling (k := 126) (by norm_num)
  exact ⟨begun_middling, hleads, hsquare, coordinates_stay_finite begun_middling hleads hsquare⟩

/-- A garden so far from the origin that its right side is the greatest number of all. -/
def remote : Engine WordCycle :=
  start ⟨1.7014118e38, 0.0, 1.7014116e38, 100.0⟩ { divisions := 1 }
    (WordCycle.ofList [3600000000, 2000000000])

/-- Both sides of the garden are in range, but rounding moves the right side of the second half out
of it, and two tulip beds have no finite extent. -/
theorem coordinates_leave_the_range :
    Begun ⟨1.7014118e38, 0.0, 1.7014116e38, 100.0⟩ { divisions := 1 } remote ∧
      Leads (fun _ => False) remote (remote.performAll () [.run 5]).engine ∧
      (1.7014118e38 + 1.7014116e38 : Float32).isFinite = true ∧
      ∃ n ∈ (remote.performAll () [.run 5]).engine.graph.nodes, n.shape.isFinite = false := by
  have hvalid : (⟨1.7014118e38, 0.0, 1.7014116e38, 100.0⟩ : Rect).validateWorking = .ok () :=
    Rect.validateWorking_eq_ok_iff.2 (by decide +kernel)
  have hnode : ∃ n ∈ (remote.performAll () [.run 5]).engine.graph.nodes,
      n.shape.isFinite = false := by
    decide +kernel
  exact ⟨.create _ (create_eq_ok_iff.2 ⟨rfl, hvalid, rfl⟩),
    leads_performAll () (by simp [Call.Within]), by decide +kernel, hnode⟩

end Engine
end Parterre
