import Parterre.Proofs.Amounts
import Parterre.Proofs.FinalLayout
import Parterre.Proofs.KeptBorders

/-! # The shape of the paths

A path follows a border that is snapped twice and kept for the length of its longer side, and it is
moved into the working rectangle, where the lower end wins if the path is too long for it.  All of
this works on any numbers, so paths have their shape however large the garden is, and even where a
path has no end. -/
namespace Parterre
open Binary32

/-! ### Clamping -/

namespace Binary32
variable {a b x lo hi v : Float32}

theorem not_lt_self (x : Float32) : ¬x < x := by
  intro h
  obtain ⟨p, q, hp, hq, hlt⟩ := lt_iff_placeOf.1 h
  obtain rfl : p = q := Option.some.inj (hp.symm.trans hq)
  exact lt_irrefl p hlt

theorem isNaN_of_lt (h : a < b) : b.isNaN = false := by
  obtain ⟨p, q, -, hb, -⟩ := lt_iff_placeOf.1 h
  rw [← Bool.not_eq_true, isNaN_iff, hb]
  exact Option.some_ne_none q

private theorem not_lt_least (x hi : Float32) : ¬hi < least x hi := by
  unfold least
  split
  · exact not_lt_self hi
  · split
    · exact not_lt_self hi
    · next h => exact h

theorem isNaN_of_least (h : (least x hi).isNaN = true) : hi.isNaN = true := by
  unfold least at h
  split at h
  · exact h
  · split at h
    · exact h
    · next hnan _ => exact absurd h hnan

theorem greatest_eq_right (h : a.isNaN = true ∨ a < b ∨ a = b) : greatest a b = b := by
  unfold greatest
  split
  · rfl
  · next hnan =>
    split
    · rfl
    · next hlt => exact (h.resolve_left hnan).resolve_left hlt

theorem clampLow_low (h : lo.isNaN = false ∨ hi.isNaN = true) : clampLow lo lo hi = lo := by
  refine greatest_eq_right ?_
  unfold least
  split
  · next hnan => exact .inl (h.resolve_left fun hlo => Bool.false_ne_true (hlo.symm.trans hnan))
  · split
    · next hlt => exact .inr (.inl hlt)
    · exact .inr (.inr rfl)

/-- What has been clamped stays as it is, to the bit: also where the range is empty, and where its
ends are no numbers. -/
@[simp] theorem clampLow_clampLow (x lo hi : Float32) :
    clampLow (clampLow x lo hi) lo hi = clampLow x lo hi := by
  by_cases hlow : (least x hi).isNaN = true ∨ least x hi < lo
  · have hclamped : clampLow x lo hi = lo := greatest_eq_right (hlow.imp_right .inl)
    rw [hclamped]
    exact clampLow_low (hlow.symm.imp isNaN_of_lt isNaN_of_least)
  · obtain ⟨hnumber, hnot⟩ := not_or.1 hlow
    have hclamped : clampLow x lo hi = least x hi := by
      rw [clampLow, greatest, if_neg hnumber, if_neg hnot]
    have hleast : least (least x hi) hi = least x hi := by
      rw [least, if_neg hnumber, if_neg (not_lt_least x hi)]
    rw [hclamped, clampLow, hleast]
    exact hclamped

private theorem le_clampLow (hlo : lo.isFinite = true) : lo ≤ clampLow x lo hi :=
  le_greatest_iff.2 (.inr ((le_iff hlo hlo).2 le_rfl))

end Binary32

@[simp] theorem Rect.clampedInto_clampedInto (r bounds : Rect) :
    (r.clampedInto bounds).clampedInto bounds = r.clampedInto bounds := by
  simp only [clampedInto, clampLow_clampLow]

/-! ### Snapping twice -/

theorem Binary32.Boundless.alike {v : Float32} (h : Boundless v) : Alike v (1.0 / 0.0) := by
  have hinfinity : Boundless (1.0 / 0.0) := rfl
  rw [Alike, placeOf, placeOf, h, hinfinity]

/-- What is long enough for a path is so after snapping, whether it is finite or not. -/
theorem Binary32.minBorderLength_le_snap {v : Float32} (h : minBorderLength ≤ v) :
    minBorderLength ≤ snap v := by
  have hpos : 0.0 ≤ minBorderLength := by decide +kernel
  rcases nonneg_iff.1 (le_chain hpos h) with ⟨hfinite, -⟩ | hboundless
  · have hfifteen : 15.0 ≤ minBorderLength := by decide +kernel
    exact (minBorderLength_le_snap_iff hfinite).2 (le_chain hfifteen h)
  · rw [hboundless.alike.snap_eq]
    decide +kernel

private theorem Axis.snapped_strip (axis : Axis) (across start thickness length : Float32) :
    (axis.strip across start thickness length).snapped =
      axis.strip (snap across) (snap start) (snap thickness) (snap length) := by
  cases axis <;> rfl

/-- A border that is kept snaps to a strip as thick as a path across some axis, and as long as a
border along it. -/
theorem Rect.exists_strip_of_kept {ra rb border kept : Rect}
    (hborder : ra.borderBetween rb Engine.pathThickness = some border)
    (hkept : border.longBorder? = some kept) :
    ∃ (axis : Axis) (across start length : Float32), minBorderLength ≤ length ∧
      kept.snapped = axis.strip across start 10.0 length := by
  obtain ⟨side, -, rfl⟩ := Option.map_eq_some_iff.1 hborder
  obtain ⟨hlong, rfl⟩ := longBorder?_eq_some_iff.1 hkept
  have hten : snap 10.0 = 10.0 := by decide +kernel
  have hthin : snap Engine.pathThickness = 10.0 := hten
  have hthick : ¬minBorderLength ≤ 10.0 := by decide +kernel
  rw [ge_iff_le, Side.snapped_strip, Axis.le_maxSide_strip_iff, hthin] at hlong
  rw [Side.snapped_strip, Axis.snapped_strip, hthin, hten]
  exact ⟨_, _, _, _, minBorderLength_le_snap (hlong.resolve_right hthick), rfl⟩

namespace Engine
variable {σ : Type} [Chance.WordSource σ] {e e₀ : Engine σ} {working p : Rect} {params : Params}
  {id : NodeId}

/-- Only a derivation that has its final layout has paths, and each of them follows a border that is
kept between two sectors. -/
theorem Progress.exists_border {g : Graph} (h : Progress working g)
    (hpath : g.element? id = some (.pathRect p)) :
    ∃ ra rb border kept, Rect.borderBetween ra rb pathThickness = some border ∧
      border.longBorder? = some kept ∧ p = kept.snapped.clampedInto working := by
  cases h with
  | planned hplanned => cases (hplanned.eq_garden hpath).1
  | growing paths hgrowing => exact absurd ⟨id, _, hpath, rfl⟩ hgrowing.not_has_pathRect
  | settled hsettled =>
    have hnode : (⟨id, .pathRect p⟩ : Node) ∈ g.nodesWith .pathRect :=
      List.mem_filter.2 ⟨Graph.mem_nodes_iff.2 hpath, rfl⟩
    obtain ⟨edge, hedge, kept, hkept, hsegment⟩ := hsettled.mem_paths_iff.1 ⟨_, hnode, rfl⟩
    obtain ⟨-, ra, rb, border, -, -, hborder, hlong⟩ := Graph.mem_contacts_iff.1
      ((Graph.mem_edges_iff_of_contacts hsettled.edges).1 hedge)
    exact ⟨ra, rb, border, kept, hborder, hlong.symm.trans hkept, Element.pathRect.inj hsegment⟩

/-- Every path is as thick as a path along one axis, and at least as long as the shortest border
along the other one.  Moving it into the working rectangle changes nothing, so it does not begin
before the working rectangle does.  This holds at every state, for any working rectangle that is
accepted. -/
theorem paths_are_strips_in_place (hbegun : Begun working params e₀)
    (hleads : Leads (fun _ => False) e₀ e) (hpath : e.graph.element? id = some (.pathRect p)) :
    (p.w = 10.0 ∧ 20.0 ≤ p.h ∨ p.h = 10.0 ∧ 20.0 ≤ p.w) ∧ p.clampedInto working = p ∧
      working.x ≤ p.x ∧ working.y ≤ p.y := by
  obtain ⟨ra, rb, border, kept, hborder, hkept, rfl⟩ :=
    (hbegun.progress hleads).exists_border hpath
  obtain ⟨-, hvalid, -⟩ := hbegun.eq_start
  obtain ⟨hx, hy, -, -⟩ := Rect.isFinite_iff.1 (Rect.validateWorking_eq_ok_iff.1 hvalid).1
  refine ⟨?_, kept.snapped.clampedInto_clampedInto working, le_clampLow hx, le_clampLow hy⟩
  obtain ⟨axis, across, start, length, hlong, hstrip⟩ := Rect.exists_strip_of_kept hborder hkept
  rw [hstrip]
  cases axis with
  | vertical => exact .inl ⟨rfl, hlong⟩
  | horizontal => exact .inr ⟨rfl, hlong⟩

def halved (working : Rect) : Engine Chance.WordCycle :=
  start working { divisions := 1 } (Chance.WordCycle.ofList [7])

private theorem leads_halved {working : Rect} (h : working.validateWorking = .ok ()) :
    Begun working { divisions := 1 } (halved working) ∧
      Leads (fun _ => False) (halved working) ((halved working).performAll () [.run 5]).engine :=
  ⟨.create _ (create_eq_ok_iff.2 ⟨rfl, h, rfl⟩), leads_performAll () (by simp [Call.Within])⟩

/-- The path of a low garden is longer than the garden is high; that of a huge one has no end. -/
theorem paths_are_strips_in_place_halved :
    (∃ e, Begun ⟨3.0, 3.0, 72.0, 36.0⟩ { divisions := 1 } (halved ⟨3.0, 3.0, 72.0, 36.0⟩) ∧
      Leads (fun _ => False) (halved ⟨3.0, 3.0, 72.0, 36.0⟩) e ∧
      e.graph.element? 6 = some (.pathRect ⟨30.0, 3.0, 10.0, 40.0⟩) ∧
      Rect.clampedInto ⟨30.0, 3.0, 10.0, 40.0⟩ ⟨3.0, 3.0, 72.0, 36.0⟩ = ⟨30.0, 3.0, 10.0, 40.0⟩) ∧
    ∃ e, Begun ⟨0.0, 3e38, 3e38, 3e38⟩ { divisions := 1 } (halved ⟨0.0, 3e38, 3e38, 3e38⟩) ∧
      Leads (fun _ => False) (halved ⟨0.0, 3e38, 3e38, 3e38⟩) e ∧
      e.graph.element? 6 = some (.pathRect ⟨1.5e38, 3e38, 10.0, 1.0 / 0.0⟩) ∧
      20.0 ≤ (1.0 / 0.0 : Float32) := by
  have hlow : (⟨3.0, 3.0, 72.0, 36.0⟩ : Rect).validateWorking = .ok () :=
    Rect.validateWorking_eq_ok_iff.2 (by decide +kernel)
  have hhuge : (⟨0.0, 3e38, 3e38, 3e38⟩ : Rect).validateWorking = .ok () :=
    Rect.validateWorking_eq_ok_iff.2 (by decide +kernel)
  obtain ⟨hbegun, hleads⟩ := leads_halved hlow
  obtain ⟨hbegun', hleads'⟩ := leads_halved hhuge
  have hpath : ((halved ⟨3.0, 3.0, 72.0, 36.0⟩).performAll () [.run 5]).engine.graph.element? 6 =
      some (.pathRect ⟨30.0, 3.0, 10.0, 40.0⟩) := by decide +kernel
  have hpath' : ((halved ⟨0.0, 3e38, 3e38, 3e38⟩).performAll () [.run 5]).engine.graph.element? 6 =
      some (.pathRect ⟨1.5e38, 3e38, 10.0, 1.0 / 0.0⟩) := by decide +kernel
  obtain ⟨-, hplace, -⟩ := paths_are_strips_in_place hbegun hleads hpath
  obtain ⟨⟨-, hlong⟩ | ⟨hthick, -⟩, -⟩ := paths_are_strips_in_place hbegun' hleads' hpath'
  · exact ⟨⟨_, hbegun, hleads, hpath, hplace⟩, _, hbegun', hleads', hpath', hlong⟩
  · exact absurd hthick (by decide +kernel)

end Engine
end Parterre
