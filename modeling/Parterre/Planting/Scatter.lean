import Parterre.Shape.Circle
import Parterre.Chance.Draw

/-! # Scattered circles

Circles of random radius and place inside a rectangle, none touching another.  A candidate that
does not fit is drawn again, a limited number of times; then its circle is skipped.  Room for all
the circles is made beforehand. -/
namespace Parterre
open Binary32 Chance

/-- How many circles are wanted, the range of their radii, and how often each is tried. -/
structure Scatter where
  count : Nat
  smallest : Int32
  largest : Int32
  tries : Nat
  deriving DecidableEq

/-- The circles placed, the numbers of the circles skipped, counted from one, and the source
afterwards. -/
structure Scattered (σ : Type) where
  circles : List Circle
  skipped : List Nat
  source : σ

namespace Scatter
variable {σ : Type} [WordSource σ]

def atLeastOnce (count : Nat) (smallest largest : Int32) (tries : Nat) : Scatter :=
  ⟨count, smallest, largest, max tries 1⟩

/-- The range of distances from the left or upper side at which the center of a circle of radius
`r` is drawn, in a rectangle that extends by `side`. -/
def farthest (r : Int32) (side : Float32) : Int32 := max r (toInt32 (floor (side - fromInt r)))

/-- Draws a radius, and a center at least that far from the left and the upper side. -/
def candidate (s : Scatter) (bounds : Rect) (source : σ) : Circle × σ :=
  let (r, source) := drawInt s.smallest s.largest source
  let (dx, source) := drawInt r (farthest r bounds.w) source
  let (dy, source) := drawInt r (farthest r bounds.h) source
  (⟨⟨bounds.x + fromInt dx, bounds.y + fromInt dy⟩, fromInt r⟩, source)

/-- Whether a circle lies in `bounds` and touches none of those placed. -/
def hasRoom (bounds : Rect) (placed : List Circle) (c : Circle) : Bool :=
  c.within bounds && !placed.any fun p => c.collides p

/-- The first candidate with room, among as many as may be tried. -/
def placeOne (s : Scatter) (bounds : Rect) (placed : List Circle) : Nat → σ → Option Circle × σ
  | 0, source => (none, source)
  | tries + 1, source =>
    let (c, source) := s.candidate bounds source
    if hasRoom bounds placed c then (some c, source) else s.placeOne bounds placed tries source

/-- Places one more circle, or skips it; the latest come first. -/
def placeNext (s : Scatter) (bounds : Rect) (done : Scattered σ) (i : Nat) : Scattered σ :=
  match s.placeOne bounds done.circles s.tries done.source with
  | (some c, source) => { done with circles := c :: done.circles, source }
  | (none, source) => { done with skipped := (i + 1) :: done.skipped, source }

def placeAll (s : Scatter) (bounds : Rect) (source : σ) : Scattered σ :=
  let done := (List.range s.count).foldl (s.placeNext bounds) ⟨[], [], source⟩
  { done with circles := done.circles.reverse, skipped := done.skipped.reverse }

/-- Whether a list can have room for as many circles as are wanted, at twelve bytes each: no list
takes `2 ^ 63` bytes. -/
def Fits (s : Scatter) : Prop := s.count * 12 < Nat.pow 2 63

instance (s : Scatter) : Decidable s.Fits := inferInstanceAs (Decidable (_ < _))

/-- Makes room for all the circles, then places them; without room for them there is no result. -/
def generate (s : Scatter) (bounds : Rect) (source : σ) : Option (Scattered σ) :=
  if s.Fits then some (s.placeAll bounds source) else none

theorem generate_of_fits {s : Scatter} (h : s.Fits) (bounds : Rect) (source : σ) :
    s.generate bounds source = some (s.placeAll bounds source) := if_pos h

theorem generate_of_not_fits {s : Scatter} (h : ¬s.Fits) (bounds : Rect) (source : σ) :
    s.generate bounds source = none := if_neg h

end Scatter
end Parterre
