import Parterre.Proofs.CloseSides

/-! # Borders from either side

The border of two rectangles is a strip around a side of the one that is asked.  Asked of the other
rectangle it is the same strip around a side of that one, which is less far away than the
tolerance.  But snapping may take two such sides to different lines of the grid, so the two borders
agree exactly where it does not. -/
namespace Parterre
open Binary32 Float.Model UnpackedFloat

/-! ### Snapping -/

/-- Numbers that are alike snap to the same line: the sign of zero is lost in the sum. -/
theorem Binary32.Alike.snap_eq {v v' : Float32} (h : Alike v v') : snap v = snap v' := by
  have hscaled : v / gridUnit + 0.5 = v' / gridUnit + 0.5 := by
    let scaled (x : UnpackedFloat) : Float32 := .ofModel (.pack (x.div .binary32
      gridUnit.toModel.unpack))
    change scaled v.toModel.unpack + 0.5 = scaled v'.toModel.unpack + 0.5
    rcases eq_or_zeros_of_place h with heq | ⟨s, s', hs, hs'⟩
    · rw [heq]
    · have hhalf (s : Sign) : scaled (.zero s) + 0.5 = 0.5 := by cases s <;> decide +kernel
      rw [hs, hs', hhalf, hhalf]
  rw [snap, snap, hscaled]

/-! ### Strips -/

/-- The strip that lies across an axis at some place, and starts somewhere along it. -/
def Axis.strip (axis : Axis) (across start thickness length : Float32) : Rect :=
  match axis with
  | .vertical => ⟨across, start, thickness, length⟩
  | .horizontal => ⟨start, across, length, thickness⟩

@[simp] theorem Axis.strip_inj {axis : Axis} {across across' start thickness length : Float32} :
    axis.strip across start thickness length = axis.strip across' start thickness length ↔
      across = across' := by
  cases axis <;> simp [strip]

namespace Side
variable {a b : Rect} {minOverlap : Float32} {side side' : Side}

def start (a b : Rect) (side : Side) : Float32 :=
  match side.axis with
  | .vertical => greatest a.y b.y
  | .horizontal => greatest a.x b.x

theorem snapped_strip (a b : Rect) (thickness : Float32) (side : Side) :
    (side.strip a b thickness).snapped =
      side.axis.strip (snap (side.line a - thickness / 2.0)) (snap (side.start a b))
        (snap thickness) (snap (side.contact a b)) := by
  cases side <;> rfl

/-- The common stretch is the same whichever rectangle is asked, but for the sign of zero. -/
theorem snap_stretch_comm (h : side'.axis = side.axis) :
    snap (side'.start b a) = snap (side.start a b) ∧
      snap (side'.contact b a) = snap (side.contact a b) := by
  have hstart : Alike (side'.start b a) (side.start a b) := by
    unfold start
    rw [h]
    cases side.axis <;> exact alike_greatest_comm _ _
  have hcontact : Alike (side'.contact b a) (side.contact a b) := by
    cases side <;> cases side' <;> first | exact alike_overlap_comm _ _ _ _ | cases h
  exact ⟨hstart.snap_eq, hcontact.snap_eq⟩

private theorem line_opposite_le (ha : a.isFinite = true) (hpositive : a.isPositive = true)
    (hside : side = right ∨ side = below) (hline : (side.line a).isFinite = true) :
    value (side.opposite.line a) ≤ value (side.line a) := by
  obtain ⟨hx, hy, hw, hh⟩ := Rect.isFinite_iff.1 ha
  have hle {x w : Float32} (hx : x.isFinite = true) (hw : w.isFinite = true) (hpos : 0.0 < w)
      (hsum : (x + w).isFinite = true) : value x ≤ value (x + w) := by
    rw [lt_iff stands_zero.finite hw, stands_zero.value_eq] at hpos
    rw [((stands_add_or_infinite hx hw).resolve_right (not_infinite_of_isFinite hsum)).value_eq]
    exact le_rounded (representable_value x) (by linarith)
  simp only [Rect.isPositive, Bool.and_eq_true, decide_eq_true_eq] at hpositive
  rcases hside with rfl | rfl
  · exact hle hx hw hpositive.1 hline
  · exact hle hy hh hpositive.2 hline

end Side

namespace Rect
variable {a b : Rect} {minOverlap : Float32}

/-- The sides at which two rectangles are found to touch are opposite to each other, unless they
touch at opposite sides at once; then both are the same, the right or the lower one. -/
theorem touchingSide_cases (a b : Rect) (minOverlap : Float32) :
    a.touchingSide b minOverlap = none ∧ b.touchingSide a minOverlap = none ∨
      ∃ side side', a.touchingSide b minOverlap = some side ∧
        b.touchingSide a minOverlap = some side' ∧ side.touches a b minOverlap = true ∧
        (side' = side.opposite ∨ side' = side ∧ (side = .right ∨ side = .below) ∧
          side.opposite.touches a b minOverlap = true) := by
  have hswap (side : Side) : side.touches b a minOverlap = side.opposite.touches a b minOverlap :=
    (Side.touches_opposite a b minOverlap side).symm
  simp only [touchingSide, Side.all, List.find?_cons, List.find?_nil, hswap, Side.opposite]
  cases hright : Side.right.touches a b minOverlap <;>
    cases hleft : Side.left.touches a b minOverlap <;>
    cases hbelow : Side.below.touches a b minOverlap <;>
    cases habove : Side.above.touches a b minOverlap <;>
    simp [hright, hleft, hbelow, habove]

/-- The sides at which two rectangles are found to touch run along the same axis and are close to
each other. -/
theorem close_sides (ha : a.isFinite = true) (hb : b.isFinite = true)
    (hapos : a.isPositive = true) (hbpos : b.isPositive = true) :
    a.touchingSide b minOverlap = none ∧ b.touchingSide a minOverlap = none ∨
      ∃ side side', a.touchingSide b minOverlap = some side ∧
        b.touchingSide a minOverlap = some side' ∧ side'.axis = side.axis ∧
        Close (side.line a) (side'.line b) := by
  refine (touchingSide_cases a b minOverlap).imp_right ?_
  rintro ⟨side, side', hside, hside', htouches, hopposite⟩
  have hclose := Side.close_of_touches ha hb htouches
  rcases hopposite with rfl | ⟨rfl, hfirst, hboth⟩
  · exact ⟨side, _, hside, hside', side.axis_opposite, hclose⟩
  · -- both rectangles are then shorter than the tolerance
    rw [Side.touches_opposite] at hboth
    have hclose' := Side.close_of_touches hb ha hboth
    exact ⟨_, _, hside, hside', rfl, hclose.ends hclose'
      (Side.line_opposite_le ha hapos hfirst hclose.1)
      (Side.line_opposite_le hb hbpos hfirst hclose'.1)⟩

/-- The borders that two rectangles have from either side: there is either none, or both are the
strip of the same stretch, around lines closer to each other than the tolerance.  They are the same
exactly if the strips around these lines snap to the same line of the grid. -/
theorem borders_agree_where_lines_snap_alike (ha : a.isFinite = true) (hb : b.isFinite = true)
    (hapos : a.isPositive = true) (hbpos : b.isPositive = true) (thickness : Float32) :
    (a.borderBetween b thickness = none ∧ b.borderBetween a thickness = none) ∨
      ∃ (side side' : Side) (start length : Float32),
        a.touchingSide b minTouchOverlap = some side ∧
        b.touchingSide a minTouchOverlap = some side' ∧ side'.axis = side.axis ∧
        (side.line a - side'.line b).abs < touchTolerance ∧
        a.borderBetween b thickness = some (side.axis.strip
          (snap (side.line a - thickness / 2.0)) start (snap thickness) length) ∧
        b.borderBetween a thickness = some (side.axis.strip
          (snap (side'.line b - thickness / 2.0)) start (snap thickness) length) ∧
        (a.borderBetween b thickness = b.borderBetween a thickness ↔
          snap (side.line a - thickness / 2.0) = snap (side'.line b - thickness / 2.0)) := by
  unfold borderBetween
  rcases close_sides ha hb hapos hbpos with
    ⟨hnone, hnone'⟩ | ⟨side, side', hside, hside', haxis, hclose⟩
  · rw [hnone, hnone']
    exact .inl ⟨rfl, rfl⟩
  · obtain ⟨hstart, hcontact⟩ := Side.snap_stretch_comm (a := a) (b := b) haxis
    refine .inr ⟨side, side', snap (side.start a b), snap (side.contact a b), hside, hside', haxis,
      hclose.distance_lt, ?_⟩
    rw [hside, hside', Option.map_some, Option.map_some, Side.snapped_strip, Side.snapped_strip,
      haxis, hstart, hcontact]
    exact ⟨rfl, rfl, Option.some_inj.trans Axis.strip_inj⟩

/-- A part that was cut off three times, and the part it was first cut off from: the two sides that
lie on each other differ by a rounding error, between the lines that snap to 270 and to 280. -/
theorem border_depends_on_side :
    let working : Rect := ⟨10.0, 10.0, 540.0, 480.0⟩
    let right := working.secondPart ⟨.vertical, .half⟩
    let last := ((working.firstPart ⟨.vertical, .half⟩).secondPart
      ⟨.vertical, .threeFifths⟩).secondPart ⟨.vertical, .threeFifths⟩
    (last.isFinite = true ∧ last.isPositive = true) ∧
      (right.isFinite = true ∧ right.isPositive = true) ∧
      last.borderBetween right 10.0 = some ⟨270.0, 10.0, 10.0, 480.0⟩ ∧
      right.borderBetween last 10.0 = some ⟨280.0, 10.0, 10.0, 480.0⟩ := by
  decide +kernel

/-- With other shares the sides differ as well, but they snap to the same line. -/
theorem borders_agree_where_lines_snap_alike_cut_thrice :
    let working : Rect := ⟨10.0, 10.0, 580.0, 480.0⟩
    let right := working.secondPart ⟨.vertical, .twoFifths⟩
    let last := ((working.firstPart ⟨.vertical, .twoFifths⟩).secondPart
      ⟨.vertical, .twoFifths⟩).secondPart ⟨.vertical, .twoFifths⟩
    last.isFinite = true ∧ last.isPositive = true ∧ right.isFinite = true ∧
      right.isPositive = true ∧ last.right ≠ right.x ∧
      last.borderBetween right 10.0 = right.borderBetween last 10.0 := by
  intro working right last
  have hlast : last.isFinite = true ∧ last.isPositive = true := by decide +kernel
  have hright : right.isFinite = true ∧ right.isPositive = true := by decide +kernel
  have hsides : last.touchingSide right minTouchOverlap = some .right ∧
      right.touchingSide last minTouchOverlap = some .left := by decide +kernel
  have hsnap : snap (last.right - 10.0 / 2.0) = snap (right.x - 10.0 / 2.0) := by decide +kernel
  refine ⟨hlast.1, hlast.2, hright.1, hright.2, by decide +kernel, ?_⟩
  rcases borders_agree_where_lines_snap_alike hlast.1 hright.1 hlast.2 hright.2 10.0 with
    ⟨hnone, hnone'⟩ | ⟨side, side', -, -, hside, hside', -, -, -, -, hiff⟩
  · rw [hnone, hnone']
  · obtain rfl := Option.some.inj (hsides.1.symm.trans hside)
    obtain rfl := Option.some.inj (hsides.2.symm.trans hside')
    exact hiff.2 hsnap

end Rect
end Parterre
