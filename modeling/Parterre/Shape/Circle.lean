import Parterre.Shape.Rect

/-! # Circles

Circles, when one lies in a rectangle and when two collide, and the shape of a garden element,
which is a rectangle or a circle. -/
namespace Parterre

structure Circle where
  center : Point
  r : Float32
  deriving DecidableEq, Inhabited

namespace Circle

def bounds (c : Circle) : Rect :=
  ⟨c.center.x - c.r, c.center.y - c.r, 2.0 * c.r, 2.0 * c.r⟩

/-- Whether the square around the circle lies in `rect`. -/
def within (c : Circle) (rect : Rect) : Bool :=
  c.center.x - c.r ≥ rect.x && c.center.x + c.r ≤ rect.right &&
    c.center.y - c.r ≥ rect.y && c.center.y + c.r ≤ rect.bottom

/-- Whether two circles overlap or touch. -/
def collides (a b : Circle) : Bool :=
  let reach := a.r + b.r
  a.center.distanceSquared b.center ≤ reach * reach

def covers (c : Circle) (p : Point) : Bool := p.distanceSquared c.center ≤ c.r * c.r

end Circle

/-- The shape of an element of a garden. -/
inductive Shape where
  | rect (r : Rect)
  | circle (c : Circle)
  deriving DecidableEq, Inhabited

def Shape.bounds : Shape → Rect
  | rect r => r
  | circle c => c.bounds

end Parterre
