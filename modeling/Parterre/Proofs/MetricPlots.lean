import Parterre.Proofs.PlotSectors

/-! # Plots in metres

A size in metres is brought into a range before anything is computed from it, so whatever numbers it
consists of, the working rectangle is accepted and at least 80 units wide and high.  No cut leaves a
side that is shorter than 35 units, and so no sector of such a garden is a sliver. -/
namespace Parterre
open Binary32 Chance

/-! ### Clamping into a range -/

namespace Binary32
variable {x lo hi : Float32} {p q : ℚ}

private theorem le_of_not_lt {a b : Float32} (ha : a.isNaN = false) (hb : b.isNaN = false)
    (h : ¬a < b) : b ≤ a := by
  rw [← Bool.not_eq_true, isNaN_iff] at ha hb
  obtain ⟨r, hr⟩ := Option.ne_none_iff_exists'.1 ha
  obtain ⟨s, hs⟩ := Option.ne_none_iff_exists'.1 hb
  have hle : s ≤ r := not_lt.1 fun hlt => h (lt_iff_placeOf.2 ⟨r, s, hr, hs, hlt⟩)
  exact le_iff_placeOf.2 ⟨s, r, hs, hr, hle⟩

theorem isFinite_clamp (hlo : Stands lo p) (hp : 0 ≤ p) (hhi : Stands hi q)
    (hx : x.isNaN = false) : (clamp x lo hi).isFinite = true := by
  unfold clamp
  split
  · exact hlo.finite
  · next hlow =>
    split
    · exact hhi.finite
    · next hhigh =>
      have hlow := le_of_not_lt hx (not_isNaN_of_isFinite hlo.finite) hlow
      have hhigh := le_of_not_lt (not_isNaN_of_isFinite hhi.finite) hx hhigh
      exact ((between_iff hlo hp hhi).1 ⟨hlow, hhigh⟩).1

end Binary32

/-! ### Working rectangles -/

section Plots
variable {width height : Float32}

theorem Plot.sides_ofMetres (hwidth : width.isNaN = false) (hheight : height.isNaN = false) :
    let r := (Plot.ofMetres width height).workingRect
    (r.w.isFinite = true ∧ 80 ≤ value r.w) ∧ r.h.isFinite = true ∧ 80 ≤ value r.h := by
  intro r
  have hten : Stands 10.0 10 := stands_gridUnit
  obtain ⟨hw, hwlow, -⟩ := side_mem hten stands_mostAcross (by norm_num) (by norm_num)
    (isFinite_clamp hten (by norm_num) stands_mostAcross hwidth)
  obtain ⟨hh, hhlow, -⟩ := side_mem hten stands_mostDown (by norm_num) (by norm_num)
    (isFinite_clamp hten (by norm_num) stands_mostDown hheight)
  exact ⟨⟨hw, hwlow⟩, hh, hhlow⟩

theorem Plot.validate_ofMetres (hwidth : width.isNaN = false) (hheight : height.isNaN = false) :
    (Plot.ofMetres width height).validate = .ok () := by
  obtain ⟨⟨hw, hwlow⟩, hh, hhlow⟩ := sides_ofMetres hwidth hheight
  refine Rect.validateWorking_eq_ok_iff.2 ⟨Rect.isFinite_iff.2 ⟨?_, ?_, hw, hh⟩, ?_⟩
  · exact stands_gridUnit.finite
  · exact stands_gridUnit.finite
  · simp only [Rect.isPositive, Bool.and_eq_true, decide_eq_true_eq, gt_iff_lt]
    exact ⟨(pos_iff hw).2 (by linarith), (pos_iff hh).2 (by linarith)⟩

end Plots

/-! ### Sectors -/

theorem Rect.Wide.minSide_ge {k : ℤ} {r : Rect} (h : r.Wide) (hranged : r.Ranged k) :
    r.minSide ≥ 35.0 :=
  (le_least_iff hranged.across.finite_extent hranged.down.finite_extent stands_minCutSide).2
    ⟨h.across, h.down⟩

namespace Engine
variable {σ : Type} [WordSource σ] {width height : Float32} {params : Params}

/-- Every plot in metres works: whatever its size, however large, negative or boundless, a garden is
begun on it, and at every state of the derivation no sector has a side that is shorter than 35
units. -/
theorem metric_plots_work (hwidth : width.isNaN = false) (hheight : height.isNaN = false)
    (hparams : params.validate = .ok ()) (source : σ) :
    ∃ e₀, forPlot (Plot.ofMetres width height) params source = .ok e₀ ∧
      ∀ e, Leads (fun _ => False) e₀ e → ∀ n ∈ e.graph.nodes,
        n.symbol = .area ∨ n.symbol = .flowerArea ∨ n.symbol = .grassRect →
        ∃ rect, n.element.rect? = some rect ∧ rect.minSide ≥ 35.0 := by
  have hvalid := Plot.validate_ofMetres hwidth hheight
  have hbegun : forPlot (Plot.ofMetres width height) params source =
      .ok (start (Plot.ofMetres width height).workingRect params source) :=
    forPlot_eq_ok_iff.2 ⟨hvalid, hparams, rfl⟩
  refine ⟨_, hbegun, fun e hleads n hn hsymbol => ?_⟩
  have hdivided := (Begun.forPlot _ source rfl hbegun).divided hleads
  obtain ⟨hworking, -⟩ := Plot.workingRect_ofMetres hvalid
  obtain ⟨⟨-, hwlow⟩, -, hhlow⟩ := Plot.sides_ofMetres hwidth hheight
  have hsymbol : n.element.symbol.isSector = true := by
    rcases hsymbol with h | h | h <;> exact congrArg Symbol.isSector h
  obtain ⟨rect, hrect, hsector⟩ := Element.exists_rect_of_isSector hsymbol
  have hsector : e.graph.sectorRect? n.id = some rect := by
    rw [Graph.sectorRect?, Graph.mem_nodes_iff.1 hn]
    exact hsector
  obtain ⟨hranged, hwhole | hwide⟩ := hdivided.ranged hworking scale_plot hsector
  · have hwide : rect.Wide := by
      rw [hwhole]
      exact ⟨by linarith, by linarith⟩
    exact ⟨rect, hrect, hwide.minSide_ge hranged⟩
  · exact ⟨rect, hrect, hwide.minSide_ge hranged⟩

/-- A garden that is to be boundlessly wide and of negative height. -/
def unlimited : Engine WordCycle :=
  start (Plot.ofMetres (1.0 / 0.0) (-3e38)).workingRect {} (WordCycle.ofList [7])

/-- It is laid out on the widest and lowest plot, and its first cut leaves two areas. -/
theorem metric_plots_work_unlimited :
    ((1.0 / 0.0 : Float32).isNaN = false ∧ (-3e38 : Float32).isNaN = false ∧
      Params.validate {} = .ok ()) ∧
    forPlot (Plot.ofMetres (1.0 / 0.0) (-3e38)) {} (WordCycle.ofList [7]) = .ok unlimited ∧
    ∃ e, Leads (fun _ => False) unlimited e ∧
      e.graph.element? 4 = some (.area ⟨10.0, 10.0, 365.0, 80.0⟩ 2) ∧
      Rect.minSide ⟨10.0, 10.0, 365.0, 80.0⟩ ≥ 35.0 := by
  have hwidth : (1.0 / 0.0 : Float32).isNaN = false := by decide +kernel
  have hheight : (-3e38 : Float32).isNaN = false := by decide +kernel
  have hparams : Params.validate {} = .ok () := rfl
  obtain ⟨e₀, hbegun, hsides⟩ := metric_plots_work hwidth hheight hparams (WordCycle.ofList [7])
  obtain rfl : e₀ = unlimited := (forPlot_eq_ok_iff.1 hbegun).2.2
  have hleads : Leads (fun _ => False) unlimited (unlimited.performAll () [.run 2]).engine :=
    leads_performAll () (by simp [Call.Within])
  have harea : (unlimited.performAll () [.run 2]).engine.graph.element? 4 =
      some (.area ⟨10.0, 10.0, 365.0, 80.0⟩ 2) := by decide +kernel
  have hnode : (⟨4, .area ⟨10.0, 10.0, 365.0, 80.0⟩ 2⟩ : Node) ∈
      (unlimited.performAll () [.run 2]).engine.graph.nodes := Graph.mem_nodes_iff.2 harea
  obtain ⟨rect, hrect, hside⟩ := hsides _ hleads _ hnode (.inl rfl)
  obtain rfl := Option.some.inj hrect
  exact ⟨⟨hwidth, hheight, hparams⟩, hbegun, _, hleads, harea, hside⟩

end Engine
end Parterre
