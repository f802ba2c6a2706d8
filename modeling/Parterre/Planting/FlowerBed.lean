import Parterre.Shape.Circle

/-! # Flower beds

The two compositions that a flower area may receive: a pair of rose beds, or a fountain between
four tulip beds.  In a small area beds may come out without extent; those are not planted. -/
namespace Parterre
open Binary32

namespace FlowerBed

/-- The lawn that stays free along the sides. -/
def pad : Float32 := 10.0

def roseGap : Float32 := 10.0

/-- The width of the paths that cross at a fountain. -/
def crossPath : Float32 := 10.0

/-- The gap between tulip beds and the crossing paths. -/
def tulipGap : Float32 := 8.0

def minFountainRadius : Float32 := 18.0

def rosesAbreast (sector : Rect) : List Rect :=
  let inner := sector.inset pad
  let halfGap := roseGap / 2.0
  let w := inner.w / 2.0 - halfGap
  [⟨inner.x, inner.y, w, inner.h⟩, ⟨inner.x + inner.w / 2.0 + halfGap, inner.y, w, inner.h⟩]

def rosesStacked (sector : Rect) : List Rect :=
  let inner := sector.inset pad
  let halfGap := roseGap / 2.0
  let h := inner.h / 2.0 - halfGap
  [⟨inner.x, inner.y, inner.w, h⟩, ⟨inner.x, inner.y + inner.h / 2.0 + halfGap, inner.w, h⟩]

def fountain (sector : Rect) : Circle :=
  let inner := sector.inset pad
  ⟨inner.center, greatest minFountainRadius (inner.minSide * 0.12)⟩

/-- The tulip beds around the fountain: the upper two, then the lower two, left before right. -/
def tulips (sector : Rect) : List Rect :=
  let inner := sector.inset pad
  let c := inner.center
  let halfPath := crossPath / 2.0
  let leftWidth := c.x - halfPath - inner.x - tulipGap
  let rightWidth := inner.right - (c.x + halfPath) - tulipGap
  let upperHeight := c.y - halfPath - inner.y - tulipGap
  let lowerHeight := inner.bottom - (c.y + halfPath) - tulipGap
  let rightX := c.x + halfPath + tulipGap
  let lowerY := c.y + halfPath + tulipGap
  [⟨inner.x, inner.y, leftWidth, upperHeight⟩, ⟨rightX, inner.y, rightWidth, upperHeight⟩,
    ⟨inner.x, lowerY, leftWidth, lowerHeight⟩, ⟨rightX, lowerY, rightWidth, lowerHeight⟩]

def planted (beds : List Rect) : List Rect := beds.filter Rect.isPositive

end FlowerBed
end Parterre
