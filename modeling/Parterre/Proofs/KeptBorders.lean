import Parterre.Proofs.BorderSymmetry
import Parterre.Proofs.GridLines
import Parterre.Proofs.SectorEdges

/-! # The borders that edges keep

When the edges are found anew, a border is dropped if its longer side is too short.  That side need
not be the one along the touching line: a thick border is kept however short the stretch is.  The
thickness counts once it is snapped, so all from 15 on are thick, and below that a border is kept
exactly if it is long enough. -/
namespace Parterre
open Binary32

/-! ### Long sides -/

theorem Binary32.le_greatest_iff {a b c : Float32} : c ≤ greatest a b ↔ c ≤ a ∨ c ≤ b := by
  simp only [le_iff_placeOf, placeOf_greatest]
  cases hc : placeOf c with
  | none => simp
  | some p =>
    cases placeOf a with
    | none => simp
    | some q =>
      cases placeOf b with
      | none => simp
      | some r => simp

def Rect.extentAlong (r : Rect) : Axis → Float32
  | .vertical => r.h
  | .horizontal => r.w

namespace Axis
variable (axis : Axis) (across start thickness length : Float32)

@[simp] theorem extentAlong_strip :
    (axis.strip across start thickness length).extentAlong axis = length := by
  cases axis <;> rfl

theorem le_maxSide_strip_iff {c : Float32} :
    c ≤ (axis.strip across start thickness length).maxSide ↔ c ≤ length ∨ c ≤ thickness := by
  cases axis
  · exact le_greatest_iff.trans or_comm
  · exact le_greatest_iff

end Axis

/-! ### Thick borders -/

theorem Binary32.stands_minBorderLength : Stands minBorderLength 20 :=
  stands_of_parts (n := false) (m := 10485760) (e := -19) ⟨rfl, rfl⟩ (by norm_num)

theorem Binary32.stands_fifteen : Stands 15.0 15 :=
  stands_of_parts (n := false) (m := 15728640) (e := -20) ⟨rfl, rfl⟩ (by norm_num)

/-- What snaps to the shortest length of a border, or to a larger line. -/
theorem Binary32.minBorderLength_le_snap_iff {v : Float32} (hv : v.isFinite = true) :
    minBorderLength ≤ snap v ↔ 15.0 ≤ v := by
  have hbelow : Stands 14.999999 ((15728639 : ℤ) * 2 ^ (-20 : ℤ)) :=
    stands_of_parts (n := false) (m := 15728639) (e := -20) ⟨rfl, rfl⟩ (by norm_num)
  have hline : lineOf 15 = 20 := by
    have hsnap := stands_snap stands_fifteen.finite
    have hvalue : snap 15.0 = minBorderLength := by decide +kernel
    rw [← stands_fifteen.value_eq, ← hsnap.value_eq, hvalue, stands_minBorderLength.value_eq]
  have hline' : lineOf ((15728639 : ℤ) * 2 ^ (-20 : ℤ)) = 10 := by
    have hsnap := stands_snap hbelow.finite
    have hvalue : snap 14.999999 = gridUnit := by decide +kernel
    rw [← hbelow.value_eq, ← hsnap.value_eq, hvalue, stands_gridUnit.value_eq]
  have hsnap := stands_snap hv
  rw [le_iff stands_minBorderLength.finite hsnap.finite, stands_minBorderLength.value_eq,
    hsnap.value_eq, le_iff stands_fifteen.finite hv, stands_fifteen.value_eq]
  constructor
  · intro h
    by_contra hlt
    -- no number lies between 15 and the one just below it
    have hle : value v ≤ (15728639 : ℤ) * 2 ^ (-20 : ℤ) :=
      (representable_value v).le_of_lt (by norm_num at hlt ⊢; linarith) (by norm_num)
    linarith [lineOf_mono hle]
  · intro h
    exact hline ▸ lineOf_mono h

/-! ### Borders of edges -/

namespace Graph

/-- The border of an edge that is found anew: the snapped strip at the side where the two sectors
touch, kept exactly if it is long enough along the touching line or thick.  So as long as the
thickness is below 15, a short border is dropped. -/
theorem short_borders_are_dropped_unless_thick (g : Graph) {thickness : Float32}
    (hthickness : thickness.isFinite = true) {a b : NodeId} {e : Edge}
    (he : (g.rebuildAdjacency thickness).edge? a b = some e) :
    ∃ ra rb side, g.sectorRect? e.ends.low = some ra ∧ g.sectorRect? e.ends.high = some rb ∧
      ra.touchingSide rb minTouchOverlap = some side ∧
      let border := (side.strip ra rb thickness).snapped
      e.border = (if minBorderLength ≤ border.extentAlong side.axis ∨ 15.0 ≤ thickness
        then some border else none) ∧
      (thickness < 15.0 → ∀ kept, e.border = some kept →
        minBorderLength ≤ kept.extentAlong side.axis) := by
  have hmem : e ∈ (g.rebuildAdjacency thickness).edges := (edge?_eq_some_iff_pair.1 he).1
  obtain ⟨-, ra, rb, strip, ha, hb, hstrip, hkept⟩ := mem_contacts_iff.1
    ((mem_edges_iff_of_contacts (edges_rebuildAdjacency g thickness)).1 hmem)
  obtain ⟨side, hside, rfl⟩ := Option.map_eq_some_iff.1 hstrip
  refine ⟨ra, rb, side, ha, hb, hside, ?_⟩
  intro border
  have hkept : e.border = if minBorderLength ≤ border.extentAlong side.axis ∨ 15.0 ≤ thickness
      then some border else none := by
    have hlong : border.maxSide ≥ minBorderLength ↔
        minBorderLength ≤ border.extentAlong side.axis ∨ 15.0 ≤ thickness := by
      rw [ge_iff_le, ← minBorderLength_le_snap_iff hthickness]
      simp only [border, Side.snapped_strip, Axis.extentAlong_strip, Axis.le_maxSide_strip_iff]
    rw [← if_congr hlong rfl rfl]
    exact hkept
  refine ⟨hkept, fun hthin kept heq => ?_⟩
  rw [hkept] at heq
  split at heq
  · next hlong =>
    have hthick : ¬15.0 ≤ thickness := by
      rw [lt_iff hthickness stands_fifteen.finite] at hthin
      rw [le_iff stands_fifteen.finite hthickness]
      exact not_le.2 hthin
    exact Option.some.inj heq ▸ hlong.resolve_right hthick
  · cases heq

/-- The first and the last sector have eight units in common.  A border of thickness 15 is kept
there, though it is no longer than ten units. -/
theorem short_border_is_kept :
    let g := store.performAll empty misjoined
    let border : Rect := ⟨90.0, 90.0, 20.0, 10.0⟩
    ((g.rebuildAdjacency 15.0).edge? 1 4).map Edge.border = some (some border) ∧
      (g.sectorRect? 1 = some ⟨0.0, 0.0, 100.0, 100.0⟩ ∧
        g.sectorRect? 4 = some ⟨100.0, 92.0, 100.0, 100.0⟩) ∧
      Rect.touchingSide ⟨0.0, 0.0, 100.0, 100.0⟩ ⟨100.0, 92.0, 100.0, 100.0⟩ minTouchOverlap =
        some .right ∧
      border.h < minBorderLength := by
  decide +kernel

/-- At thickness 10 that border is dropped, and the one with the second sector is long. -/
theorem short_borders_are_dropped_unless_thick_misjoined :
    let g := store.performAll empty misjoined
    let border : Rect := ⟨100.0, 0.0, 10.0, 100.0⟩
    let e : Edge := ⟨⟨1, 2, by decide⟩, some border⟩
    (10.0 : Float32).isFinite = true ∧ (10.0 : Float32) < 15.0 ∧
      (g.rebuildAdjacency 10.0).edge? 2 1 = some e ∧
      ((g.rebuildAdjacency 10.0).edge? 1 4).map Edge.border = some none ∧
      ∃ ra rb side, g.sectorRect? 1 = some ra ∧ g.sectorRect? 2 = some rb ∧
        ra.touchingSide rb minTouchOverlap = some side ∧
        minBorderLength ≤ border.extentAlong side.axis := by
  intro g border e
  have he : (g.rebuildAdjacency 10.0).edge? 2 1 = some e := by decide +kernel
  obtain ⟨ra, rb, side, ha, hb, hside, -, hlong⟩ :=
    short_borders_are_dropped_unless_thick g (by decide) he
  exact ⟨by decide, by decide, he, by decide +kernel, ra, rb, side, ha, hb, hside,
    hlong (by decide) border rfl⟩

end Graph
end Parterre
