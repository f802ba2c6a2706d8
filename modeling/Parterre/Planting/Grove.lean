import Parterre.Planting.Scatter
import Parterre.Rule.Work

/-! # Groves

Trees scattered over a rectangle, the more the larger it is. -/
namespace Parterre
open Binary32 Chance

/-- The notes on the circles that a scatter skipped. -/
def Scatter.notes {σ : Type} (s : Scatter) (bounds : Rect) (done : Scattered σ) : List Note :=
  done.skipped.map fun number => .noRoom number s.count bounds

namespace Grove

def areaPerTree : Float32 := 6000.0

/-- The number of trees wanted on a rectangle, from 3 to 16. -/
def treeCount (r : Rect) : Nat :=
  max 3 (min 16 (toNatUpTo (UInt64.size - 1) (greatest (floor (r.area / areaPerTree)) 0.0)))

theorem treeCount_le (r : Rect) : treeCount r ≤ 16 := by
  unfold treeCount
  omega

/-- The scatter of trees on a rectangle: radii from 19 to 37, each tree tried twenty times. -/
def scatter (r : Rect) : Scatter := Scatter.atLeastOnce (treeCount r) 19 37 20

theorem fits_scatter (r : Rect) : (scatter r).Fits := by
  have hcount := treeCount_le r
  change treeCount r * 12 < 2 ^ 63
  omega

variable {σ : Type} [WordSource σ]

def trees (r : Rect) (source : σ) : Scattered σ :=
  ((scatter r).generate r source).get (by simp [Scatter.generate_of_fits (fits_scatter r)])

theorem generate_scatter (r : Rect) (source : σ) :
    (scatter r).generate r source = some (trees r source) := (Option.some_get _).symm

theorem trees_eq (r : Rect) (source : σ) : trees r source = (scatter r).placeAll r source :=
  Option.some.inj <|
    (generate_scatter r source).symm.trans (Scatter.generate_of_fits (fits_scatter r) r source)

def plant (g : Graph) (r : Rect) (source : σ) : Work σ Nat :=
  let done := trees r source
  { result := done.circles.length
    graph := g.addAll (done.circles.map .treeCircle)
    source := done.source
    notes := (scatter r).notes r done }

end Grove
end Parterre
