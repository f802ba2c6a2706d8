import Parterre.Proofs.Amounts
import Parterre.Proofs.FiniteNodes

/-! # The sectors of a plot

A plot whose size is given in metres leaves a working rectangle that begins at its margin and ends
well before 1000 units, and this is then so for all sectors: a cut leaves none that begins earlier
than the rectangle that is cut, or that reaches farther. -/
namespace Parterre
open Binary32 Chance

/-- Whether a rectangle lies on a plot of 1000 units: no coordinate is negative, it extends along
both axes, and its sides are no farther out. -/
structure Rect.OnPlot (r : Rect) : Prop where
  left : 0.0 ≤ r.x
  top : 0.0 ≤ r.y
  wide : 0.0 < r.w
  high : 0.0 < r.h
  right : r.right ≤ 1000.0
  bottom : r.bottom ≤ 1000.0

/-! ### Coordinates on a plot -/

section OnPlot
variable {x w : Float32} {r : Rect}

theorem stands_thousand : Stands 1000.0 1000 :=
  stands_of_parts (n := false) (m := 16384000) (e := -14) ⟨rfl, rfl⟩ (by norm_num)

theorem scale_plot : Scale 10 := ⟨by norm_num, by norm_num⟩

/-- A stretch of a plot is a span among coordinates up to 1024. -/
theorem sectorSpan_of_onPlot (hx : 0.0 ≤ x) (hw : 0.0 < w) (hend : x + w ≤ 1000.0) :
    SectorSpan 10 x w := by
  have hw' : 0.0 ≤ w := nonneg_of_pos hw
  have hsum := isFinite_of_le (nonneg_add hx hw') stands_thousand.finite hend
  obtain ⟨hxfinite, hwfinite⟩ := isFinite_of_add hx hw' hsum
  have hpos := value_nonneg hxfinite hx
  rw [lt_iff stands_zero.finite hwfinite, stands_zero.value_eq] at hw
  rw [le_iff hsum stands_thousand.finite, (stands_sum hx hw' hsum).value_eq,
    stands_thousand.value_eq] at hend
  refine .of_inSquare hxfinite hwfinite hw (by norm_num; linarith) ?_
  exact (lt_of_rounded_lt (representable_two_zpow (by norm_num)) (by norm_num; linarith)).le

theorem Rect.OnPlot.ranged (h : r.OnPlot) : r.Ranged 10 :=
  ⟨sectorSpan_of_onPlot h.left h.wide h.right, sectorSpan_of_onPlot h.top h.high h.bottom⟩

/-- On a plot, cuts move the end of a span by less than a sixtieth of its extent and a little
more. -/
theorem spanReach_le (x w : Float32) :
    spanReach 10 x w ≤ value x + value w + value w / 64 + 1 / 32 := by
  have hdrift : drift 10 (value w) ≤ 400 * unit 10 + value w / 64 := min_le_right _ _
  have hunit : unit 10 = 1 / 16384 := by norm_num [unit]
  unfold spanReach
  linarith

theorem SectorSpan.onPlot (h : SectorSpan 10 x w) (hlow : 0 ≤ value x)
    (hhigh : spanReach 10 x w ≤ 1000) : 0.0 ≤ x ∧ 0.0 < w ∧ x + w ≤ 1000.0 := by
  have hend := drift_nonneg (k := 10) h.pos.le
  unfold spanReach at hhigh
  have hscale := scale_plot.le
  have hsum := stands_add h.finite h.finite_extent
    (scale_plot.abs_le_largest (by linarith [h.pos]) (by norm_num; linarith))
  have hthousand : Representable 1000 :=
    stands_thousand.value_eq ▸ representable_value 1000.0
  refine ⟨?_, ?_, ?_⟩
  · rwa [le_iff stands_zero.finite h.finite, stands_zero.value_eq]
  · rw [lt_iff stands_zero.finite h.finite_extent, stands_zero.value_eq]
    exact h.pos
  · rw [le_iff hsum.finite stands_thousand.finite, hsum.value_eq, stands_thousand.value_eq]
    exact rounded_le hthousand (by linarith)

end OnPlot

/-! ### Cuts -/

/-- Whether a rectangle begins no earlier than another one, and reaches no farther, along both
axes. -/
structure Rect.Enclosed (k : ℤ) (outer r : Rect) : Prop where
  left : value outer.x ≤ value r.x
  top : value outer.y ≤ value r.y
  right : spanReach k r.x r.w ≤ spanReach k outer.x outer.w
  bottom : spanReach k r.y r.h ≤ spanReach k outer.y outer.h

section Cuts
variable {k : ℤ} {r s outer rect : Rect} {cut : Cut}

theorem Rect.Enclosed.refl (r : Rect) : r.Enclosed k r := ⟨le_rfl, le_rfl, le_rfl, le_rfl⟩

theorem Rect.Enclosed.trans (h : outer.Enclosed k r) (h' : r.Enclosed k s) : outer.Enclosed k s :=
  ⟨h.left.trans h'.left, h.top.trans h'.top, h'.right.trans h.right, h'.bottom.trans h.bottom⟩

theorem Rect.Ranged.enclosed_parts (h : r.Ranged k) (hk : Scale k)
    (hfits : r.fits cut minCutSide = true) :
    r.Enclosed k (r.firstPart cut) ∧ r.Enclosed k (r.secondPart cut) := by
  obtain ⟨⟨-, hfirst⟩, -, hsecond⟩ := h.parts hk hfits
  obtain ⟨axis, share⟩ := cut
  obtain ⟨f, g, hs⟩ := share.parts
  cases axis with
  | vertical =>
    obtain ⟨-, hlow, hreach⟩ := h.across.reach_secondPart_le hk hs hfirst.across hsecond.across
    exact ⟨⟨le_rfl, le_rfl, h.across.reach_firstPart_le hs, le_rfl⟩,
      ⟨hlow, le_rfl, hreach, le_rfl⟩⟩
  | horizontal =>
    obtain ⟨-, hlow, hreach⟩ := h.down.reach_secondPart_le hk hs hfirst.down hsecond.down
    exact ⟨⟨le_rfl, le_rfl, le_rfl, h.down.reach_firstPart_le hs⟩,
      ⟨le_rfl, hlow, le_rfl, hreach⟩⟩

theorem CutTree.enclosed_of_mem_leaves {t : CutTree} (hfits : t.Fits rect) (hrect : rect.Ranged k)
    (hk : Scale k) {level : ℕ} {l : Leaf} (hl : l ∈ t.leaves rect level) :
    rect.Enclosed k l.rect := by
  induction t generalizing rect level with
  | leaf id =>
    obtain rfl := List.mem_singleton.1 hl
    exact .refl rect
  | cut c first second ihf ihs =>
    obtain ⟨⟨-, hcut⟩, hfirst, hsecond⟩ := hfits
    obtain ⟨⟨hranged, -⟩, hranged', -⟩ := hrect.parts hk hcut
    obtain ⟨henclosed, henclosed'⟩ := hrect.enclosed_parts hk hcut
    rcases List.mem_append.1 hl with hl | hl
    · exact henclosed.trans (ihf hfirst hranged hl)
    · exact henclosed'.trans (ihs hsecond hranged' hl)

end Cuts

/-! ### Plots in metres -/

section Plots
variable {x lo hi width height : Float32}

/-- Between two whole numbers rounding stays between them. -/
theorem Binary32.Stands.between {q : ℚ} {m n : ℤ} (h : Stands x (rounded q)) (hm : |m| ≤ 2 ^ 24)
    (hn : |n| ≤ 2 ^ 24) (hlow : m ≤ q) (hhigh : q ≤ n) : m ≤ value x ∧ value x ≤ n := by
  rw [h.value_eq]
  exact ⟨le_rounded (representable_intCast hm) hlow, rounded_le (representable_intCast hn) hhigh⟩

theorem stands_mostAcross : Stands 75.0 (75 : ℤ) :=
  stands_of_parts (n := false) (m := 9830400) (e := -17) ⟨rfl, rfl⟩ (by norm_num)

theorem stands_mostDown : Stands 60.0 (60 : ℤ) :=
  stands_of_parts (n := false) (m := 15728640) (e := -18) ⟨rfl, rfl⟩ (by norm_num)

/-- A side in metres, brought into a range, without the margins at both ends. -/
theorem side_mem {n : ℤ} (hlo : Stands lo 10) (hhi : Stands hi n) (hn : 10 ≤ n) (hn' : n ≤ 75)
    (hclamp : (clamp x lo hi).isFinite = true) :
    let side := clamp x lo hi * Plot.unitsPerMetre - 2.0 * 10.0
    side.isFinite = true ∧ 80 ≤ value side ∧ value side ≤ 10 * n - 20 := by
  intro side
  obtain ⟨hlow, hhigh⟩ := clamp_mem hlo hhi (by exact_mod_cast hn) hclamp
  have hten : Stands Plot.unitsPerMetre 10 := stands_gridUnit
  have hmargins : Stands (2.0 * 10.0) 20 := stands_two_pads
  have hscale := scale_plot.le
  have hn'' : (n : ℚ) ≤ 75 := by exact_mod_cast hn'
  have hsmall {q : ℚ} (hq : 0 ≤ q) (hq' : q ≤ 750) : |q| ≤ largest :=
    scale_plot.abs_le_largest (by linarith) (by norm_num; linarith)
  have hlong := stands_mul hclamp hten.finite
  rw [hten.value_eq] at hlong
  have hlong := hlong (hsmall (by linarith) (by linarith))
  obtain ⟨hlonglow, hlonghigh⟩ := hlong.between (m := 100) (n := 10 * n) (by norm_num)
    (by rw [abs_le]; omega) (by push_cast; linarith) (by push_cast; linarith)
  push_cast at hlonglow hlonghigh
  have hside := stands_sub hlong.finite hmargins.finite
  rw [hmargins.value_eq] at hside
  have hside := hside (hsmall (by linarith) (by linarith))
  obtain ⟨hsidelow, hsidehigh⟩ := hside.between (m := 80) (n := 10 * n - 20) (by norm_num)
    (by rw [abs_le]; omega) (by push_cast; linarith) (by push_cast; linarith)
  push_cast at hsidelow hsidehigh
  exact ⟨hside.finite, hsidelow, hsidehigh⟩

theorem Plot.workingRect_ofMetres (h : (Plot.ofMetres width height).validate = .ok ()) :
    let r := (Plot.ofMetres width height).workingRect
    r.Ranged 10 ∧ (value r.x = 10 ∧ value r.y = 10) ∧ (80 ≤ value r.w ∧ value r.w ≤ 730) ∧
      80 ≤ value r.h ∧ value r.h ≤ 580 := by
  intro r
  have hten : Stands 10.0 10 := stands_gridUnit
  obtain ⟨-, -, hw, hh⟩ := Rect.isFinite_iff.1 (Rect.validateWorking_eq_ok_iff.1 h).1
  obtain ⟨-, hwlow, hwhigh⟩ := side_mem hten stands_mostAcross (by norm_num) (by norm_num)
    (isFinite_of_mul (isFinite_of_sub hw))
  obtain ⟨-, hhlow, hhhigh⟩ := side_mem hten stands_mostDown (by norm_num) (by norm_num)
    (isFinite_of_mul (isFinite_of_sub hh))
  change 80 ≤ value r.w at hwlow
  change value r.w ≤ _ at hwhigh
  change 80 ≤ value r.h at hhlow
  change value r.h ≤ _ at hhhigh
  have hx : value r.x = 10 := hten.value_eq
  have hy : value r.y = 10 := hten.value_eq
  norm_num at hwhigh hhhigh
  refine ⟨.of_validate h ⟨?_, ?_, ?_, ?_⟩, ⟨hx, hy⟩, ⟨hwlow, hwhigh⟩, hhlow, hhhigh⟩ <;>
    norm_num <;> linarith

/-- A stretch that a sector of a plot in metres takes up along one axis: between the margins, up to
what cuts may move it, and no shorter than a cut leaves it. -/
structure MetricSpan (x w : Float32) : Prop where
  span : SectorSpan 10 x w
  begins : 10 ≤ value x
  reach : spanReach 10 x w ≤ 752
  long : 35 ≤ value w

/-- Whether a rectangle is a sector of a plot in metres by its place and its size. -/
structure Rect.Metric (r : Rect) : Prop where
  across : MetricSpan r.x r.w
  down : MetricSpan r.y r.h

theorem Rect.Metric.ranged {r : Rect} (h : r.Metric) : r.Ranged 10 := ⟨h.across.span, h.down.span⟩

theorem Plot.metric_ofMetres (h : (Plot.ofMetres width height).validate = .ok ()) :
    (Plot.ofMetres width height).workingRect.Metric := by
  obtain ⟨hranged, ⟨hx, hy⟩, ⟨hwlow, hwhigh⟩, hhlow, hhhigh⟩ := workingRect_ofMetres h
  exact ⟨⟨hranged.across, by linarith, (spanReach_le _ _).trans (by linarith), by linarith⟩,
    hranged.down, by linarith, (spanReach_le _ _).trans (by linarith), by linarith⟩

theorem Rect.Metric.sector {working S : Rect} (h : working.Metric) (hS : working.LeavesSector S) :
    S.Metric := by
  obtain ⟨hranged, hsides⟩ := hS.ranged h.ranged scale_plot
  obtain ⟨t, hfits, l, hl, rfl⟩ := hS
  have henclosed := CutTree.enclosed_of_mem_leaves hfits h.ranged scale_plot hl
  have hlong : l.rect.Wide := hsides.elim (fun heq => heq ▸ ⟨h.across.long, h.down.long⟩) id
  exact ⟨⟨hranged.across, h.across.begins.trans henclosed.left,
      henclosed.right.trans h.across.reach, hlong.across⟩,
    hranged.down, h.down.begins.trans henclosed.top, henclosed.bottom.trans h.down.reach,
      hlong.down⟩

end Plots

namespace Engine
variable {σ : Type} [WordSource σ] {e e₀ : Engine σ} {width height : Float32} {params : Params}
  {source : σ}

/-- All sectors of a garden on a plot that is given in metres lie on it, at every state of the
derivation. -/
theorem sectors_onPlot (hbegun : forPlot (Plot.ofMetres width height) params source = .ok e₀)
    (hleads : Leads (fun _ => False) e₀ e) {id : NodeId} {sector : Rect}
    (hsector : e.graph.sectorRect? id = some sector) : sector.OnPlot := by
  have hbegun : Begun _ params e₀ := .forPlot _ source rfl hbegun
  obtain ⟨-, hvalid, -⟩ := hbegun.eq_start
  obtain ⟨hacross, hdown⟩ := (Plot.metric_ofMetres hvalid).sector
    ((hbegun.divided hleads).exists_leaf hsector)
  obtain ⟨hleft, hwide, hend⟩ := hacross.span.onPlot (by linarith [hacross.begins])
    (hacross.reach.trans (by norm_num))
  obtain ⟨htop, hhigh, hend'⟩ := hdown.span.onPlot (by linarith [hdown.begins])
    (hdown.reach.trans (by norm_num))
  exact ⟨hleft, htop, hwide, hhigh, hend, hend'⟩

end Engine
end Parterre
