import Parterre.Binary32.Decimal

/-! # Rectangles

Points and axis-aligned rectangles in plot units, with `y` growing downwards. -/
namespace Parterre
open Binary32

structure Point where
  x : Float32
  y : Float32
  deriving DecidableEq, Inhabited

namespace Point

def add (p q : Point) : Point := ⟨p.x + q.x, p.y + q.y⟩

def distanceSquared (p q : Point) : Float32 :=
  let dx := p.x - q.x
  let dy := p.y - q.y
  dx * dx + dy * dy

end Point

/-- A rectangle, by its top left corner and its extent. -/
structure Rect where
  x : Float32
  y : Float32
  w : Float32
  h : Float32
  deriving DecidableEq, Inhabited

namespace Rect

def right (r : Rect) : Float32 := r.x + r.w

def bottom (r : Rect) : Float32 := r.y + r.h

def center (r : Rect) : Point := ⟨r.x + r.w * 0.5, r.y + r.h * 0.5⟩

def area (r : Rect) : Float32 := r.w * r.h

def minSide (r : Rect) : Float32 := least r.w r.h

def maxSide (r : Rect) : Float32 := greatest r.w r.h

def inset (r : Rect) (pad : Float32) : Rect :=
  ⟨r.x + pad, r.y + pad, r.w - 2.0 * pad, r.h - 2.0 * pad⟩

/-- Whether `inner` lies in `r`, with some tolerance at every side. -/
def containsRect (r inner : Rect) (tolerance : Float32) : Bool :=
  inner.x ≥ r.x - tolerance && inner.y ≥ r.y - tolerance &&
    inner.right ≤ r.right + tolerance && inner.bottom ≤ r.bottom + tolerance

def isPositive (r : Rect) : Bool := r.w > 0.0 && r.h > 0.0

def isFinite (r : Rect) : Bool :=
  r.x.isFinite && r.y.isFinite && r.w.isFinite && r.h.isFinite

/-- The rectangle moved into `bounds`; where it does not fit, it starts at the side of `bounds`. -/
def clampedInto (r bounds : Rect) : Rect where
  x := clampLow r.x bounds.x (bounds.right - r.w)
  y := clampLow r.y bounds.y (bounds.bottom - r.h)
  w := r.w
  h := r.h

def text (r : Rect) : String :=
  let number := detailed.text
  "Rect \x7b x: " ++ number r.x ++ ", y: " ++ number r.y ++ ", w: " ++ number r.w ++
    ", h: " ++ number r.h ++ " \x7d"

end Rect
end Parterre
