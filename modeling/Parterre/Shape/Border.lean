import Parterre.Shape.Rect

/-! # Borders of touching rectangles

Two rectangles touch where a side of one lies on a side of the other.  Their border is a strip of
given thickness around the common stretch.  Borders that carry a path are snapped to a grid of ten
units, and short ones are dropped. -/
namespace Parterre
open Binary32

/-- Sides less far apart than this lie on each other.  Sides that are reached through different
chains of cuts differ by rounding errors, which are far smaller. -/
def touchTolerance : Float32 := 1e-3

/-- Two sectors share a border if they overlap by more than this along the touching line. -/
def minTouchOverlap : Float32 := 4.0

/-- The shortest border that a path may follow. -/
def minBorderLength : Float32 := 20.0

def gridUnit : Float32 := 10.0

/-- The nearest multiple of the grid's spacing, halves going up. -/
def snap (v : Float32) : Float32 := floor (v / gridUnit + 0.5) * gridUnit

/-- The length that the intervals from `a₁` to `a₂` and from `b₁` to `b₂` have in common; negative
if they are apart. -/
def overlap (a₁ a₂ b₁ b₂ : Float32) : Float32 := least a₂ b₂ - greatest a₁ b₁

/-- The side of a rectangle at which another one touches it. -/
inductive Side where
  | right
  | left
  | below
  | above
  deriving DecidableEq

namespace Side

/-- The sides in the order in which contact is looked for. -/
def all : List Side := [right, left, below, above]

/-- The distance of `b` from the given side of `a`. -/
def gap (a b : Rect) : Side → Float32
  | right => (a.right - b.x).abs
  | left => (b.right - a.x).abs
  | below => (a.bottom - b.y).abs
  | above => (b.bottom - a.y).abs

/-- The length that `a` and `b` have in common along the given side. -/
def contact (a b : Rect) : Side → Float32
  | right | left => overlap a.y a.bottom b.y b.bottom
  | below | above => overlap a.x a.right b.x b.right

/-- The strip of some thickness around the common stretch at the given side of `a`. -/
def strip (a b : Rect) (thickness : Float32) (side : Side) : Rect :=
  let half := thickness / 2.0
  match side with
  | right => ⟨a.right - half, greatest a.y b.y, thickness, side.contact a b⟩
  | left => ⟨a.x - half, greatest a.y b.y, thickness, side.contact a b⟩
  | below => ⟨greatest a.x b.x, a.bottom - half, side.contact a b, thickness⟩
  | above => ⟨greatest a.x b.x, a.y - half, side.contact a b, thickness⟩

/-- Whether `b` lies at the given side of `a` and overlaps it there by more than `minOverlap`. -/
def touches (a b : Rect) (minOverlap : Float32) (side : Side) : Bool :=
  !decide (side.gap a b ≥ touchTolerance) && !decide (side.contact a b ≤ minOverlap)

end Side

namespace Rect

def snapped (r : Rect) : Rect := ⟨snap r.x, snap r.y, snap r.w, snap r.h⟩

/-- The first side at which `b` touches `a` along more than `minOverlap`. -/
def touchingSide (a b : Rect) (minOverlap : Float32) : Option Side :=
  Side.all.find? (Side.touches a b minOverlap)

/-- The strip around the line where two rectangles touch, if they have more than a corner in
common. -/
def sharedBorder (a b : Rect) (thickness : Float32) : Option Rect :=
  (a.touchingSide b 0.0).map (Side.strip a b thickness)

/-- The snapped border of two sectors, if they overlap enough. -/
def borderBetween (a b : Rect) (thickness : Float32) : Option Rect :=
  (a.touchingSide b minTouchOverlap).map fun side => (side.strip a b thickness).snapped

/-- A snapped border, if it is long enough for a path. -/
def longBorder? (border : Rect) : Option Rect :=
  if border.maxSide ≥ minBorderLength then some border else none

end Rect
end Parterre
