import Parterre.Proofs.KeptBorders
import Parterre.Proofs.NearestLines
import Parterre.Proofs.PlotSectors

/-! # Coordinates of plots in metres

The sectors of a plot in metres lie between 10 and 752 units.  What is planted on them sticks out by
a grid unit at most, the strips around their sides by half of the thickness of a border, and paths
are moved into the working rectangle.  So no coordinate of such a garden exceeds 1000, and snapping
is exact on all of them. -/
namespace Parterre
open Binary32 Chance

/-! ### Shapes -/

def Shape.BoundedBy (bound : ℚ) : Shape → Prop
  | rect r => r.BoundedBy bound
  | circle c => Bounded bound c.center.x ∧ Bounded bound c.center.y ∧ Bounded bound c.r

/-- Whether no extent of a shape is negative. -/
def Shape.Extends : Shape → Prop
  | rect r => 0.0 ≤ r.w ∧ 0.0 ≤ r.h
  | circle c => 0.0 ≤ c.r

section Spans
variable {x w p l c r : Float32}

/-- Doubling is exact as long as it is in range. -/
theorem stands_double_or_boundless (hr : r.isFinite = true) (hpos : 0 ≤ value r) :
    Stands (2.0 * r) (2 * value r) ∨ Boundless (2.0 * r) := by
  have hproduct := mul_spec (sound_of_isFinite stands_two.finite) (sound_of_isFinite hr)
  change Rounds _ (value 2.0 * value r) at hproduct
  rw [stands_two.value_eq] at hproduct
  exact rounded_of_representable (representable_value r).two_mul ▸
    hproduct.stands_or_boundless (by linarith)

theorem nonneg_double (hr : r.isFinite = true) (hpos : 0 ≤ value r) : 0.0 ≤ 2.0 * r := by
  refine nonneg_iff.2 ((stands_double_or_boundless hr hpos).imp_left fun h => ⟨h.finite, ?_⟩)
  rw [h.value_eq]
  linarith

theorem MetricSpan.add_le (h : MetricSpan x w) : value x + value w ≤ 752 := by
  have hdrift := drift_nonneg (k := 10) h.span.pos.le
  have hreach := h.reach
  unfold spanReach at hreach
  linarith

private theorem MetricSpan.bounded (h : MetricSpan x w) : Bounded 1000 x ∧ Bounded 1000 w := by
  have hbegins := h.begins
  have hlong := h.long
  have hend := h.add_le
  exact ⟨⟨h.span.finite, abs_le.2 ⟨by linarith, by linarith⟩⟩,
    h.span.finite_extent, abs_le.2 ⟨by linarith, by linarith⟩⟩

theorem MetricSpan.endsIn (h : MetricSpan x w) : EndsIn 10 752 x w := by
  have hbegins := h.begins
  have hlong := h.long
  have hend := h.add_le
  have hsum := stands_add h.span.finite h.span.finite_extent
    (scale_plot.abs_le_largest (by norm_num; linarith) (by norm_num; linarith))
  obtain ⟨hlow, hhigh⟩ := hsum.between (m := 10) (n := 752) (by norm_num) (by norm_num)
    (by push_cast; linarith) (by push_cast; linarith)
  exact ⟨h.span.finite, hsum.finite, hbegins, by linarith, by exact_mod_cast hlow,
    by exact_mod_cast hhigh⟩

theorem MetricSpan.held (h : MetricSpan x w) (hl : 0.0 ≤ l) (hholds : Holds x w p l) :
    (p.isFinite = true ∧ l.isFinite = true) ∧ 0 ≤ value p ∧ 0 ≤ value l ∧
      value p + value l ≤ 763 := by
  have hends := h.endsIn
  have hlow := hends.low
  have hhigh := hends.high
  have hlow' := hends.low_end
  have hhigh' := hends.high_end
  have hbegin := stands_sub hends.finite stands_gridUnit.finite
  have hend := stands_add hends.finite_end stands_gridUnit.finite
  rw [stands_gridUnit.value_eq] at hbegin hend
  have hbegin := hbegin (scale_plot.abs_le_largest (by norm_num; linarith) (by norm_num; linarith))
  have hend := hend (scale_plot.abs_le_largest (by norm_num; linarith) (by norm_num; linarith))
  have hp : 0.0 ≤ p := le_chain (nonneg_of_value hbegin.finite (hbegin.nonneg (by linarith)))
    hholds.low
  have hsum := isFinite_of_le (nonneg_add hp hl) hend.finite hholds.high
  obtain ⟨hpfinite, hlfinite⟩ := isFinite_of_add hp hl hsum
  refine ⟨⟨hpfinite, hlfinite⟩, value_nonneg hpfinite hp, value_nonneg hlfinite hl, ?_⟩
  have hle := (le_iff hsum hend.finite).1 hholds.high
  rw [(stands_sum hp hl hsum).value_eq, hend.value_eq] at hle
  have hmost : rounded (value (x + w) + 10) ≤ (762 : ℤ) :=
    rounded_le (representable_intCast (by norm_num)) (by push_cast; linarith)
  have hlt : value p + value l < (763 : ℤ) := by
    refine lt_of_rounded_lt (representable_intCast (by norm_num)) (hle.trans_lt ?_)
    exact hmost.trans_lt (by norm_num)
  exact_mod_cast hlt.le

private theorem MetricSpan.bounded_held (h : MetricSpan x w) (hl : 0.0 ≤ l)
    (hholds : Holds x w p l) : Bounded 1000 p ∧ Bounded 1000 l := by
  obtain ⟨⟨hp, hl⟩, hppos, hlpos, hsum⟩ := h.held hl hholds
  exact ⟨⟨hp, abs_le.2 ⟨by linarith, by linarith⟩⟩, hl, abs_le.2 ⟨by linarith, by linarith⟩⟩

/-- The circle whose square is held so.  The begin of the square is rounded, but not by much. -/
theorem MetricSpan.bounded_circle (h : MetricSpan x w) (hc : c.isFinite = true)
    (hr : r.isFinite = true) (hpos : 0 ≤ value r) (hholds : Holds x w (c - r) (2.0 * r)) :
    Bounded 1000 c ∧ Bounded 1000 r := by
  obtain ⟨⟨hbegin, hdouble⟩, hbeginpos, -, hsum⟩ := h.held (nonneg_double hr hpos) hholds
  have hdouble : value (2.0 * r) = 2 * value r := by
    refine ((stands_double_or_boundless hr hpos).resolve_right fun hbound => ?_).value_eq
    exact hbound.not_le hdouble ((le_iff hdouble hdouble).2 le_rfl)
  have hdifference := ((stands_sub_or_infinite hc hr).resolve_right
    (not_infinite_of_isFinite hbegin)).value_eq
  rw [hdouble] at hsum
  rw [hdifference] at hbeginpos hsum
  have hlow : -1 < value c - value r := lt_of_lt_rounded representable_one.neg (by linarith)
  have hhigh : value c - value r < (764 : ℤ) :=
    lt_of_rounded_lt (representable_intCast (by norm_num)) (by push_cast; linarith)
  have habs : |value c - value r| ≤ 764 := abs_le.2 ⟨by linarith, by exact_mod_cast hhigh.le⟩
  have hnear := (abs_le.1 (abs_rounded_sub_le_mul (value c - value r))).1
  norm_num at hnear
  exact ⟨⟨hc, abs_le.2 ⟨by linarith, by linarith⟩⟩, hr, abs_le.2 ⟨by linarith, by linarith⟩⟩

end Spans

section Sectors
variable {S a b working : Rect} {s : Shape}

theorem Rect.Metric.boundedBy (h : S.Metric) : S.BoundedBy 1000 :=
  ⟨h.across.bounded.1, h.down.bounded.1, h.across.bounded.2, h.down.bounded.2⟩

theorem Rect.Metric.bounded_inside (h : S.Metric) (hfinite : s.isFinite = true) (hs : s.Extends)
    (hinside : S.containsRect s.bounds gridUnit = true) : s.BoundedBy 1000 := by
  obtain ⟨hacross, hdown⟩ := Rect.containsRect_iff.1 hinside
  cases s with
  | rect r =>
    obtain ⟨hx, hw⟩ := h.across.bounded_held hs.1 hacross
    obtain ⟨hy, hh⟩ := h.down.bounded_held hs.2 hdown
    exact ⟨hx, hy, hw, hh⟩
  | circle c =>
    simp only [Shape.isFinite, Bool.and_eq_true] at hfinite
    obtain ⟨⟨hx, hy⟩, hr⟩ := hfinite
    have hpos := value_nonneg hr hs
    obtain ⟨hx, hr'⟩ := h.across.bounded_circle hx hr hpos hacross
    exact ⟨hx, (h.down.bounded_circle hy hr hpos hdown).1, hr'⟩

/-! ### Extents -/

theorem extends_of_isPositive {r : Rect} (h : r.isPositive = true) : (Shape.rect r).Extends := by
  simp only [Rect.isPositive, Bool.and_eq_true, decide_eq_true_eq, gt_iff_lt] at h
  exact ⟨nonneg_of_pos h.1, nonneg_of_pos h.2⟩

private theorem PondShape.extends_of_mem_elements {k : ℤ} (h : S.Ranged k) (hk : Scale k)
    {wanted : Point}
    {shape : PondShape} {e : Element} (he : e ∈ shape.elements S wanted) : e.shape.Extends := by
  cases shape with
  | round =>
    obtain ⟨hr, hpos, -⟩ := radius_round h hk
    obtain rfl := List.mem_singleton.1 he
    exact nonneg_of_value hr hpos
  | twinLobe =>
    obtain ⟨hpond, hpos, -⟩ := twinPond h hk
    have hlobe := nonneg_of_value hpond.finite hpos
    simp only [elements, List.mem_cons, List.not_mem_nil, or_false] at he
    rcases he with rfl | rfl | rfl
    · exact hlobe
    · exact hlobe
    · exact ⟨nonneg_double hpond.finite_offset hpond.pos_offset, nonneg_double hpond.finite hpos⟩

section Expansions
variable {σ : Type} [WordSource σ] {params : Params} {g : Graph} {e y : Element} {name : String}
  {x : Expansion}

private theorem extends_of_mem_plants {k : ℤ} (h : S.Ranged k) (hk : Scale k) {source : σ}
    {terrain : Terrain} (hy : y ∈ terrain.plants S source) : y.shape.Extends := by
  cases terrain with
  | grass => cases hy
  | flowers => cases hy
  | trees =>
    obtain ⟨c, hc, rfl⟩ := List.mem_map.1 hy
    obtain ⟨hr, hpos, -⟩ := Scatter.Drawn.radius (drawn_of_mem_grove hc)
    exact nonneg_of_value hr hpos
  | water => exact PondShape.extends_of_mem_elements h hk hy

/-- Nothing is planted that has a negative extent: beds without extent are left out, and radii have
lower bounds. -/
theorem Expands.extends_added (h : Expands σ params g e name x)
    (he : e.symbol = .area ∨ e.symbol = .flowerArea) (hrect : e.rect? = some S) {k : ℤ}
    (hranged : S.Ranged k) (hk : Scale k) (hy : y ∈ x.added) : y.shape.Extends := by
  have hbed {beds : List Rect} {bed : Rect} (hbed : bed ∈ FlowerBed.planted beds) :
      (Shape.rect bed).Extends := extends_of_isPositive (List.mem_filter.1 hbed).2
  cases h with
  | gardenSplit => simp [Element.symbol] at he
  | areaSplit rect depth cut thickness hcut hfits hthickness =>
    obtain rfl := Option.some.inj hrect
    obtain ⟨⟨hfirst, -⟩, hsecond, -⟩ := hranged.parts hk hfits
    have hpart {r : Rect} (hr : r.Ranged k) : (Shape.rect r).Extends :=
      ⟨nonneg_of_value hr.across.finite_extent hr.across.pos.le,
        nonneg_of_value hr.down.finite_extent hr.down.pos.le⟩
    simp only [List.mem_cons, List.not_mem_nil, or_false] at hy
    rcases hy with rfl | rfl
    · exact hpart hfirst
    · exact hpart hsecond
  | areaTerminal rect depth terrain source =>
    obtain rfl := Option.some.inj hrect
    exact extends_of_mem_plants hranged hk hy
  | roseBeds rect beds hbeds =>
    obtain ⟨bed, hmem, rfl⟩ := List.mem_map.1 hy
    exact hbed hmem
  | fountainCourt rect =>
    obtain rfl := Option.some.inj hrect
    rcases List.mem_cons.1 hy with rfl | hy
    · obtain ⟨hr, hradius⟩ := radius_fountain hranged hk
      have hpos : 0 ≤ value (FlowerBed.fountain rect).r := by
        rcases hradius with heq | ⟨hle, -⟩ <;> linarith
      exact nonneg_of_value hr hpos
    · obtain ⟨bed, hmem, rfl⟩ := List.mem_map.1 hy
      exact hbed hmem
  | pathNetwork => simp [Element.symbol] at he

theorem Expands.boundedBy_added (h : Expands σ params g e name x)
    (he : e.symbol = .area ∨ e.symbol = .flowerArea) (hrect : e.rect? = some S) (hS : S.Metric)
    (hy : y ∈ x.added) : y.shape.BoundedBy 1000 := by
  obtain ⟨hfinite, hlies⟩ := h.liesIn he hrect hS.ranged scale_plot hy
  have hunit : unit 10 = 1 / 16384 := by norm_num [unit]
  have hlies := hlies fun _ => ⟨by linarith [hS.across.long], by linarith [hS.down.long]⟩
  exact hS.bounded_inside hfinite (h.extends_added he hrect hS.ranged scale_plot hy)
    (hlies.inside (by norm_num))

end Expansions

/-! ### Borders and paths -/

theorem stands_half_fifteen : Stands (15.0 / 2.0) (15 / 2) :=
  stands_of_parts (n := false) (m := 15728640) (e := -21) ⟨rfl, rfl⟩ (by norm_num)

theorem Rect.Metric.strip (ha : a.Metric) (hb : b.Metric) {thickness : Float32}
    (hthickness : thickness = 10.0 ∨ thickness = 15.0) (side : Side) :
    (side.strip a b thickness).BoundedBy 1000 := by
  obtain ⟨hbound, hhalf⟩ : Bounded 1000 thickness ∧ Bounded (15 / 2) (thickness / 2.0) := by
    rcases hthickness with rfl | rfl
    · exact ⟨bounded_of_stands stands_pathThickness (by norm_num),
        bounded_of_stands stands_half_pathThickness (by norm_num)⟩
    · exact ⟨bounded_of_stands stands_fifteen (by norm_num),
        bounded_of_stands stands_half_fifteen (by norm_num)⟩
  exact Rect.EndsIn.strip ⟨ha.across.endsIn, ha.down.endsIn⟩ ⟨hb.across.endsIn, hb.down.endsIn⟩ 752
    (by norm_num) le_rfl hbound hhalf (by norm_num) (by norm_num) (by norm_num [largest]) side

private theorem bounded_clampLow {v lo hi : Float32} {bound : ℚ} (hv : Bounded bound v)
    (hlo : Bounded bound lo) (hhi : hi.isFinite = true) : Bounded bound (clampLow v lo hi) := by
  obtain ⟨-, hvhigh⟩ := abs_le.1 hv.abs_le
  obtain ⟨hlolow, hlohigh⟩ := abs_le.1 hlo.abs_le
  exact bounded_of_stands (stands_clampLow hv.finite hlo.finite hhi)
    (abs_le.2 ⟨hlolow.trans (le_max_right _ _), max_le ((min_le_left _ _).trans hvhigh) hlohigh⟩)

theorem spreads_boundedBy {σ : Type} [WordSource σ] (h : working.Metric) :
    Shape.Spreads σ working (Shape.BoundedBy 1000) where
  planted hx he hrect hS hy := hx.boundedBy_added he hrect (h.sector hS) hy
  laid ha hb hborder := by
    obtain ⟨side, -, rfl⟩ := Option.map_eq_some_iff.1 hborder
    have hstrip := (h.sector ha).strip (h.sector hb) (.inl rfl) side
    have hpath := Rect.boundedBy_snapped (Rect.boundedBy_snapped hstrip)
    have hend {x w l : Float32} (hspan : MetricSpan x w) (hl : Bounded 1000 l) :
        (x + w - l).isFinite = true := by
      have hbounded : Bounded 752 (x + w) := hspan.endsIn.bounded_end (by norm_num) le_rfl
      exact (hbounded.sub hl (by norm_num [largest])).finite
    exact ⟨bounded_clampLow hpath.x h.boundedBy.x (hend h.across hpath.w),
      bounded_clampLow hpath.y h.boundedBy.y (hend h.down hpath.h), hpath.w, hpath.h⟩

end Sectors

/-! ### Gardens -/

/-- Whether the coordinates of a garden are bounded: those of its nodes, of the borders that its
edges keep, and of the strips that such borders are snapped from, at any sides of its sectors. -/
structure Graph.BoundedBy (bound : ℚ) (g : Graph) : Prop where
  nodes : ∀ n ∈ g.nodes, n.shape.BoundedBy bound
  borders : ∀ edge ∈ g.edges, ∀ border, edge.border = some border → border.BoundedBy bound
  strips : ∀ i j a b, g.sectorRect? i = some a → g.sectorRect? j = some b →
    ∀ thickness : Float32, thickness = 10.0 ∨ thickness = 15.0 →
      ∀ side : Side, (side.strip a b thickness).BoundedBy bound

namespace Engine
variable {σ : Type} [WordSource σ] {e e₀ : Engine σ} {working border : Rect} {params : Params}
  {edge : Edge}

/-- Every border that is kept was snapped from a strip of two sectors, when an area was cut or when
the edges were found anew. -/
theorem Begun.exists_strip (hbegun : Begun working params e₀)
    (hleads : Leads (fun _ => False) e₀ e) (hedge : edge ∈ e.graph.edges)
    (hborder : edge.border = some border) :
    ∃ i j a b, e.graph.sectorRect? i = some a ∧ e.graph.sectorRect? j = some b ∧
      ∃ (side : Side) (thickness : Float32), (thickness = 10.0 ∨ thickness = 15.0) ∧
        border = (side.strip a b thickness).snapped := by
  obtain ⟨trail, events, hcourse⟩ := hleads.exists_course
  by_cases hlaid : "path_network" ∈ ruleNames events
  · have hcomplete : e.isComplete = true := by
      simpa [isComplete] using (hcourse.stage hbegun).2.1.complete_iff.2 hlaid
    obtain ⟨-, a, b, between, ha, hb, hbetween, hkept⟩ := Graph.mem_contacts_iff.1
      ((Graph.mem_edges_iff_of_contacts (hbegun.settled hleads hcomplete).edges).1 hedge)
    obtain ⟨side, -, rfl⟩ := Option.map_eq_some_iff.1 hbetween
    obtain ⟨-, rfl⟩ := Rect.longBorder?_eq_some_iff.1 (hkept.symm.trans hborder)
    exact ⟨_, _, a, b, ha, hb, side, _, .inl rfl, rfl⟩
  · obtain ⟨a, b, ha, hb, thickness, hthickness, hkept⟩ :=
      (hcourse.growth hbegun hlaid).joins.borders edge hedge
    obtain ⟨shared, hshared, hlong⟩ := Option.bind_eq_some_iff.1 (hkept.symm.trans hborder)
    obtain ⟨side, -, rfl⟩ := Option.map_eq_some_iff.1 hshared
    obtain ⟨-, rfl⟩ := Rect.longBorder?_eq_some_iff.1 hlong
    exact ⟨_, _, a, b, ha, hb, side, thickness, hthickness, rfl⟩

/-- No coordinate of a garden on a plot in metres exceeds 1000. -/
theorem Begun.boundedBy (hbegun : Begun working params e₀) (hworking : working.Metric)
    (hleads : Leads (fun _ => False) e₀ e) : e.graph.BoundedBy 1000 := by
  have hsector {i : NodeId} {S : Rect} (hS : e.graph.sectorRect? i = some S) : S.Metric :=
    hworking.sector ((hbegun.divided hleads).exists_leaf hS)
  have hstrips : ∀ i j a b, e.graph.sectorRect? i = some a → e.graph.sectorRect? j = some b →
      ∀ thickness : Float32, thickness = 10.0 ∨ thickness = 15.0 →
        ∀ side : Side, (side.strip a b thickness).BoundedBy 1000 :=
    fun _ _ _ _ ha hb _ hthickness => (hsector ha).strip (hsector hb) hthickness
  refine ⟨fun n hn => ?_, fun edge hedge border hborder => ?_, hstrips⟩
  · exact hbegun.all_shapes hleads hworking.boundedBy (spreads_boundedBy hworking) n.id n.element
      (Graph.mem_nodes_iff.1 hn)
  · obtain ⟨i, j, a, b, ha, hb, side, thickness, hthickness, rfl⟩ :=
      hbegun.exists_strip hleads hedge hborder
    exact Rect.boundedBy_snapped (hstrips i j a b ha hb thickness hthickness side)

theorem Begun.snapped_border (hbegun : Begun working params e₀) (hworking : working.Metric)
    (hleads : Leads (fun _ => False) e₀ e) (hedge : edge ∈ e.graph.edges)
    (hborder : edge.border = some border) : border.snapped = border := by
  obtain ⟨i, j, a, b, ha, hb, side, thickness, hthickness, rfl⟩ :=
    hbegun.exists_strip hleads hedge hborder
  exact Rect.snapped_snapped
    ((hbegun.boundedBy hworking hleads).strips i j a b ha hb thickness hthickness side)

end Engine

/-! ### Exactness -/

section Exactness
variable {σ : Type} [WordSource σ]

/-- Snapping is exact on numbers up to 1000: although three operations round around the floor, each
number goes to the nearest line of the grid, halves going up.  So a rectangle in that range is
snapped to the nearest lines, snapping it again changes no bit, and a larger field never snaps to a
smaller line.  All coordinates of a garden on a plot in metres are in that range, and the borders
that its edges keep are snapped already. -/
theorem snapping_is_exact :
    (∀ v, Bounded 1000 v → Stands (snap v) (10 * ⌊value v / 10 + 1 / 2⌋)) ∧
    (∀ r : Rect, r.BoundedBy 1000 → r.snapped.snapped = r.snapped ∧
      ∀ field ∈ Rect.fields, ∃ line, Stands (field r.snapped) line ∧
        IsNearestLine (value (field r)) line) ∧
    (∀ r r' : Rect, r.BoundedBy 1000 → r'.BoundedBy 1000 → ∀ field ∈ Rect.fields,
      field r ≤ field r' → field r.snapped ≤ field r'.snapped) ∧
    ∀ (width height : Float32) (params : Params) (source : σ) (e₀ e : Engine σ),
      Engine.forPlot (Plot.ofMetres width height) params source = .ok e₀ →
      Engine.Leads (fun _ => False) e₀ e → e.graph.BoundedBy 1000 ∧
        ∀ edge ∈ e.graph.edges, ∀ border, edge.border = some border → border.snapped = border := by
  refine ⟨fun v hv => stands_nearestLine hv, fun r hr => ⟨Rect.snapped_snapped hr,
    fun field hfield => ?_⟩, fun r r' hr hr' field hfield hle => ?_,
    fun width height params source e₀ e hbegun hleads => ?_⟩
  · rw [Rect.field_snapped hfield]
    exact ⟨_, stands_nearestLine (hr.bounded_field hfield), isNearestLine_iff.2 rfl⟩
  · rw [Rect.field_snapped hfield, Rect.field_snapped hfield]
    exact snap_mono (hr.bounded_field hfield).finite (hr'.bounded_field hfield).finite hle
  · have hbegun : Engine.Begun _ params e₀ := .forPlot _ source rfl hbegun
    have hworking := Plot.metric_ofMetres hbegun.eq_start.2.1
    exact ⟨hbegun.boundedBy hworking hleads, fun edge hedge border hborder =>
      hbegun.snapped_border hworking hleads hedge hborder⟩

/-- The numbers next to a middle between two lines, and a garden of 60 by 50 metres after a cut. -/
theorem snapping_is_exact_at_middles :
    let r : Rect := ⟨4.9999995, 5.0, -5.0, -5.0000005⟩
    let middles : Rect := ⟨5.0, 5.0, -5.0, -5.0⟩
    let garden := Engine.start (Plot.ofMetres 60.0 50.0).workingRect {}
      (WordCycle.ofList [7, 3000000000])
    let e := (garden.performAll () [.run 2]).engine
    let border : Rect := ⟨300.0, 10.0, 10.0, 480.0⟩
    (Bounded 1000 4.9999995 ∧ Stands (snap 4.9999995) 0) ∧
      (r.BoundedBy 1000 ∧ r.snapped = ⟨0.0, 10.0, 0.0, -10.0⟩ ∧ r.snapped.snapped = r.snapped ∧
        ∀ field ∈ Rect.fields, ∃ line, Stands (field r.snapped) line ∧
          IsNearestLine (value (field r)) line) ∧
      (middles.BoundedBy 1000 ∧ r.h ≤ middles.h ∧ r.snapped.h ≤ middles.snapped.h) ∧
      Engine.forPlot (Plot.ofMetres 60.0 50.0) {} (WordCycle.ofList [7, 3000000000]) = .ok garden ∧
      Engine.Leads (fun _ => False) garden e ∧ e.graph.BoundedBy 1000 ∧
      (∃ edge ∈ e.graph.edges, edge.border = some border) ∧ border.snapped = border := by
  intro r middles garden e border
  have hbelow : Stands 4.9999995 (10485759 / 2 ^ 21) :=
    stands_of_parts (n := false) (m := 10485759) (e := -21) ⟨rfl, rfl⟩ (by norm_num)
  have hfive : Stands 5.0 5 :=
    stands_of_parts (n := false) (m := 10485760) (e := -21) ⟨rfl, rfl⟩ (by norm_num)
  have hbeyond : Stands (-5.0000005) (-(10485761 / 2 ^ 21)) :=
    stands_of_parts (n := true) (m := 10485761) (e := -21) ⟨rfl, rfl⟩ (by norm_num)
  have hbound : Bounded 1000 4.9999995 := bounded_of_stands hbelow (by norm_num [abs_le])
  have hbound' : Bounded 1000 5.0 := bounded_of_stands hfive (by norm_num)
  have hbound'' : Bounded 1000 (-5.0) := bounded_of_stands hfive.neg (by norm_num)
  have hr : r.BoundedBy 1000 :=
    ⟨hbound, hbound', hbound'', bounded_of_stands hbeyond (by norm_num [abs_le])⟩
  have hmiddles : middles.BoundedBy 1000 := ⟨hbound', hbound', hbound'', hbound''⟩
  have hle : r.h ≤ middles.h := by decide +kernel
  have hvalid : (Plot.ofMetres 60.0 50.0).validate = .ok () :=
    Rect.validateWorking_eq_ok_iff.2 (by decide +kernel)
  have hbegun : Engine.forPlot (Plot.ofMetres 60.0 50.0) {} (WordCycle.ofList [7, 3000000000]) =
      .ok garden := Engine.forPlot_eq_ok_iff.2 ⟨hvalid, rfl, rfl⟩
  have hleads : Engine.Leads (fun _ => False) garden e :=
    Engine.leads_performAll () (by simp [Call.Within])
  obtain ⟨hexact, hrect, hmono, hgarden⟩ := snapping_is_exact (σ := WordCycle)
  have hsnap := hexact _ hbound
  rw [hbelow.value_eq] at hsnap
  norm_num at hsnap
  obtain ⟨hbounded, hsnapped⟩ := hgarden _ _ _ _ _ _ hbegun hleads
  have hborder : ∃ edge ∈ e.graph.edges, edge.border = some border := by decide +kernel
  refine ⟨⟨hbound, hsnap⟩, ⟨hr, by decide +kernel, hrect r hr⟩,
    ⟨hmiddles, hle, hmono r middles hr hmiddles Rect.h (by simp [Rect.fields]) hle⟩, hbegun,
    hleads, hbounded, hborder, ?_⟩
  obtain ⟨edge, hedge, hkept⟩ := hborder
  exact hsnapped edge hedge border hkept

end Exactness
end Parterre
