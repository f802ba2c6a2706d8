import Parterre.Drawing.Raster
import Parterre.Garden.Graph

/-! # Drawing a layout

The terminals of a graph are painted onto an image in drawing order, so that a later one hides what
lies below it.  A pixel that is painted outside the image, or an image that is refused, leaves the
drawing without a result. -/
namespace Parterre
open Binary32

/-- The pixels from `first` up to, but not including, `stop`. -/
structure Span where
  first : UInt32
  stop : UInt32
  deriving DecidableEq

namespace Span

/-- The pixel that a coordinate is cut down to. -/
def pixelAt (x : Float32) : UInt32 :=
  UInt32.ofNat (toNatUpTo (UInt32.size - 1) (greatest x 0.0))

/-- The pixels below `limit` that an interval of pixel coordinates reaches. -/
def ofInterval (lo hi : Float32) (limit : UInt32) : Span :=
  let stop := min (pixelAt (ceil hi)) limit
  ⟨min (pixelAt (floor lo)) stop, stop⟩

def toList (s : Span) : List UInt32 :=
  (List.range' s.first.toNat (s.stop.toNat - s.first.toNat)).map UInt32.ofNat

end Span

namespace Canvas

def columns (c : Canvas) (r : Rect) (width : UInt32) : Span :=
  .ofInterval (r.x * c.scale.x) (r.right * c.scale.x) width

def rowsOf (c : Canvas) (r : Rect) (height : UInt32) : Span :=
  .ofInterval (r.y * c.scale.y) (r.bottom * c.scale.y) height

/-- The point of the plane under the middle of a pixel. -/
def pointOf (c : Canvas) (x y : UInt32) : Point :=
  ⟨(fromNat x.toNat + 0.5) / c.scale.x, (fromNat y.toNat + 0.5) / c.scale.y⟩

/-- Whether a shape covers a pixel that the rectangle around it reaches. -/
def coversWithin (c : Canvas) (shape : Shape) (x y : UInt32) : Bool :=
  match shape with
  | .rect _ => true
  | .circle circle => circle.covers (c.pointOf x y)

variable {ι : Type} [Raster ι]

def paint (c : Canvas) (img : ι) (shape : Shape) (color : Color) : Option ι :=
  let columns := c.columns shape.bounds (Raster.width img)
  (c.rowsOf shape.bounds (Raster.height img)).toList.foldlM
    (fun img y =>
      columns.toList.foldlM
        (fun img x => if c.coversWithin shape x y then Raster.set? img x y color else some img)
        img)
    img

def paintNode (c : Canvas) (img : ι) (n : Node) : Option ι :=
  if n.symbol.isNonterminal then some img else c.paint img n.shape (c.color n.symbol)

def render (c : Canvas) (g : Graph) : Option ι := do
  g.layout.foldlM c.paintNode (← Raster.filled c.width c.height c.background)

end Canvas
end Parterre
