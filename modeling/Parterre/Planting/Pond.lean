import Parterre.Rule.Work

/-! # Ponds

A pond is a circle, or two overlapping lobes with a channel between them.  Its size follows the
sector within bounds, and then shrinks until the pond fits. -/
namespace Parterre
open Binary32 Chance

inductive PondShape where
  | round
  | twinLobe
  deriving DecidableEq, Inhabited

namespace PondShape

def name : PondShape → String
  | round => "Round"
  | twinLobe => "TwinLobe"

def radius (sector : Rect) : PondShape → Float32
  | round => least (clamp (sector.minSide * 0.30) 35.0 80.0) (sector.minSide / 2.0)
  | twinLobe =>
    least (least (clamp (sector.minSide * 0.18) 30.0 65.0) (sector.h / 2.0))
      (sector.w / (2.0 * (1.0 + 0.55)))

/-- Half of the pond's width.  The lobes of a twin pond are 0.55 radii off its center. -/
def reach (sector : Rect) : PondShape → Float32
  | round => radius sector round
  | twinLobe => (1.0 + 0.55) * radius sector twinLobe

/-- The center of the pond: the wanted one, moved into the sector. -/
def center (sector : Rect) (wanted : Point) (shape : PondShape) : Point where
  x := clampLow wanted.x (sector.x + shape.reach sector) (sector.right - shape.reach sector)
  y := clampLow wanted.y (sector.y + shape.radius sector) (sector.bottom - shape.radius sector)

/-- The elements of a pond around a given point of a sector. -/
def elements (sector : Rect) (wanted : Point) (shape : PondShape) : List Element :=
  let r := shape.radius sector
  let c := shape.center sector wanted
  match shape with
  | round => [.waterCircle ⟨c, r⟩]
  | twinLobe =>
    let offset := 0.55 * r
    [.waterCircle ⟨⟨c.x + offset, c.y⟩, r⟩, .waterCircle ⟨⟨c.x - offset, c.y⟩, r⟩,
      .waterRect ⟨c.x - offset, c.y - r, 2.0 * offset, 2.0 * r⟩]

end PondShape

namespace Pond
variable {σ : Type} [WordSource σ]

/-- The farthest that a center moves along a side: a tenth of it, in whole units. -/
def jitter (side : Float32) : Int32 := toInt32 (floor (side / 10.0))

def drawCenter (sector : Rect) (source : σ) : Point × σ :=
  let (dx, source) := drawInt (-jitter sector.w) (jitter sector.w) source
  let (dy, source) := drawInt (-jitter sector.h) (jitter sector.h) source
  (sector.center.add ⟨fromInt dx, fromInt dy⟩, source)

def drawShape (source : σ) : PondShape × σ :=
  let (i, source) := drawInt 0 1 source
  (if i = 0 then .round else .twinLobe, source)

def dig (g : Graph) (sector : Rect) (source : σ) : Work σ PondShape :=
  let (wanted, source) := drawCenter sector source
  let (shape, source) := drawShape source
  { result := shape, graph := g.addAll (shape.elements sector wanted), source }

end Pond
end Parterre
