import Parterre.Proofs.PlotSectors
import Parterre.Proofs.ScatteredCircles

/-! # Ponds fit their sector

On a plot a rounding error is a small part of the tolerance that sides are compared with, so
whatever a pond consists of lies in its sector up to that tolerance, from slivers to the whole plot.
Its circles keep to the upper bound of their size, and to half of the sector. -/
namespace Parterre
open Binary32 Chance

section Least
variable {a a' b : Float32}

theorem least_le_least (ha : a.isFinite = true) (ha' : a'.isFinite = true) (hb : b.isFinite = true)
    (h : value a ≤ value a') : least a b ≤ least a' b := by
  have hleft := stands_least ha hb
  have hright := stands_least ha' hb
  rw [le_iff hleft.finite hright.finite, hleft.value_eq, hright.value_eq]
  exact min_le_min_right _ h

private theorem least_le_left (ha : a.isFinite = true) (hb : b.isFinite = true) :
    least a b ≤ a := by
  have hleast := stands_least ha hb
  rw [le_iff hleast.finite ha, hleast.value_eq]
  exact min_le_left _ _

end Least

namespace PondShape
variable {k : ℤ} {S : Rect}

private theorem radius_round_le (h : S.Ranged k) (hk : Scale k) :
    radius S round ≤ least 80.0 (S.minSide / 2.0) := by
  obtain ⟨hclamp, -, hhigh⟩ := clamped_share h hk stands_roundShare (by norm_num) (by norm_num)
    stands_thirtyFive stands_eighty (by norm_num)
  have hmin := stands_least h.across.finite_extent h.down.finite_extent
  have hminpos : 0 < min (value S.w) (value S.h) := lt_min h.across.pos h.down.pos
  have hhalf := near_extent_div hk hmin.finite (by rw [hmin.value_eq]; exact hminpos)
    (by rw [hmin.value_eq]; exact (min_le_left _ _).trans h.across.extent_le) stands_two le_rfl
  exact least_le_least hclamp stands_eighty.finite hhalf.1
    (hhigh.trans_eq stands_eighty.value_eq.symm)

private theorem radius_twinLobe_le (h : S.Ranged k) (hk : Scale k) :
    radius S twinLobe ≤ least 65.0 (S.h / 2.0) := by
  obtain ⟨hclamp, -, hhigh⟩ := clamped_share h hk stands_lobeShare (by norm_num) (by norm_num)
    stands_thirty stands_sixtyFive (by norm_num)
  have hdown := near_extent_div hk h.down.finite_extent h.down.pos h.down.extent_le stands_two
    le_rfl
  have hacross := near_extent_div hk h.across.finite_extent h.across.pos h.across.extent_le
    stands_twinReach (by norm_num)
  exact le_chain (least_le_left (stands_least hclamp hdown.1).finite hacross.1)
    (least_le_least hclamp stands_sixtyFive.finite hdown.1
      (hhigh.trans_eq stands_sixtyFive.value_eq.symm))

end PondShape

namespace Pond
variable {σ : Type} [WordSource σ]

/-- What a pond of a given shape consists of, with its circles in the bounds that a sector sets. -/
inductive Sized (sector : Rect) : PondShape → List Element → Prop
  | round (c : Circle) (h : c.r ≤ least 80.0 (sector.minSide / 2.0)) :
    Sized sector .round [.waterCircle c]
  | twinLobe (a b : Circle) (channel : Rect) (ha : a.r ≤ least 65.0 (sector.h / 2.0))
      (hb : b.r ≤ least 65.0 (sector.h / 2.0)) :
    Sized sector .twinLobe [.waterCircle a, .waterCircle b, .waterRect channel]

private theorem sized_elements {sector : Rect} (h : sector.OnPlot) (wanted : Point)
    (shape : PondShape) : Sized sector shape (shape.elements sector wanted) := by
  cases shape with
  | round => exact .round _ (PondShape.radius_round_le h.ranged scale_plot)
  | twinLobe =>
    have hradius := PondShape.radius_twinLobe_le h.ranged scale_plot
    exact .twinLobe _ _ _ hradius hradius

/-- The tolerance is sixteen rounding errors of coordinates on a plot. -/
theorem pondTolerance_plot : PondTolerance 10 1e-3 tolerance where
  stands := stands_touchTolerance
  nonneg := by norm_num [tolerance]
  le_ten := by norm_num [tolerance]
  room := by norm_num [tolerance, unit]

/-- Ponds fit their sector: what is dug on a sector of a plot becomes new nodes, one circle or two
circles and a channel, which lie in the sector up to the tolerance, and whose radii are bounded.
All sectors of a garden on a plot in metres are such, at every state of the derivation. -/
theorem ponds_fit_their_sector :
    (∀ (g : Graph) (sector : Rect) (source : σ), g.Fresh → sector.OnPlot →
      ∃ elements, (dig g sector source).graph.nodes =
          g.nodes ++ elements.mapIdx (fun i e => ⟨g.nextId + i, e⟩) ∧
        Sized sector (dig g sector source).result elements ∧
        ∀ e ∈ elements, sector.containsRect e.shape.bounds 1e-3 = true) ∧
    ∀ (width height : Float32) (params : Params) (source : σ) (e₀ e : Engine σ),
      Engine.forPlot (Plot.ofMetres width height) params source = .ok e₀ →
      Engine.Leads (fun _ => False) e₀ e → ∀ id sector, e.graph.sectorRect? id = some sector →
        sector.OnPlot := by
  refine ⟨fun g sector source hg hsector => ⟨_, Graph.nodes_addAll hg _,
    sized_elements hsector _ _, fun e he => ?_⟩, fun _ _ _ _ _ _ hbegun hleads _ _ hrect =>
      Engine.sectors_onPlot hbegun hleads hrect⟩
  obtain ⟨hx, hy⟩ := finite_drawCenter hsector.ranged scale_plot source
  exact PondShape.containsRect_of_mem_elements hsector.ranged scale_plot pondTolerance_plot hx hy he

/-- A twin pond on a sliver at the end of the plot, and a garden of 60 by 50 metres after a cut. -/
theorem ponds_fit_their_sector_sliver :
    let sliver : Rect := ⟨990.0, 0.0, 10.0, 0.5⟩
    let words := WordCycle.ofList [7, 4000000000]
    let g := Graph.empty.trackChanges
    let garden := Engine.start (Plot.ofMetres 60.0 50.0).workingRect {}
      (WordCycle.ofList [7, 3000000000])
    let e := (garden.performAll () [.run 2]).engine
    (sliver.OnPlot ∧ ∃ elements,
      (dig g sliver words).graph.nodes =
          g.nodes ++ elements.mapIdx (fun i e => ⟨g.nextId + i, e⟩) ∧
        Sized sliver .twinLobe elements ∧
        ∀ e ∈ elements, sliver.containsRect e.shape.bounds 1e-3 = true) ∧
    Engine.forPlot (Plot.ofMetres 60.0 50.0) {} (WordCycle.ofList [7, 3000000000]) = .ok garden ∧
      Engine.Leads (fun _ => False) garden e ∧
      e.graph.sectorRect? 5 = some ⟨300.0, 10.0, 290.0, 480.0⟩ ∧
      ∀ id sector, e.graph.sectorRect? id = some sector → sector.OnPlot := by
  intro sliver words g garden e
  have hsliver : sliver.OnPlot := by constructor <;> decide +kernel
  have htwin : (dig g sliver words).result = .twinLobe := by decide +kernel
  have hvalid : (Plot.ofMetres 60.0 50.0).validate = .ok () :=
    Rect.validateWorking_eq_ok_iff.2 (by decide +kernel)
  have hbegun : Engine.forPlot (Plot.ofMetres 60.0 50.0) {} (WordCycle.ofList [7, 3000000000]) =
      .ok garden := Engine.forPlot_eq_ok_iff.2 ⟨hvalid, rfl, rfl⟩
  have hleads : Engine.Leads (fun _ => False) garden e :=
    Engine.leads_performAll () (by simp [Call.Within])
  obtain ⟨hfit, hsectors⟩ := ponds_fit_their_sector (σ := WordCycle)
  obtain ⟨elements, hnodes, hsized, hinside⟩ := hfit g sliver words Graph.fresh_empty hsliver
  rw [htwin] at hsized
  exact ⟨⟨hsliver, elements, hnodes, hsized, hinside⟩, hbegun, hleads, by decide +kernel,
    hsectors _ _ _ _ _ _ hbegun hleads⟩

end Pond
end Parterre
