import Parterre.Garden.Symbol
import Parterre.Plan.Plot

/-! # Palettes and drawing configurations

The colour of each symbol, and how a plot is mapped onto an image. -/
namespace Parterre
open Binary32

structure Color where
  red : UInt8
  green : UInt8
  blue : UInt8
  deriving DecidableEq, Inhabited

namespace Color

/-- Two hexadecimal digits. -/
def pair (n : UInt8) : List Char := [Nat.digitChar (n.toNat / 16), Nat.digitChar (n.toNat % 16)]

def hex (c : Color) : String := String.ofList (pair c.red ++ pair c.green ++ pair c.blue)

end Color

/-- The colour of a symbol unless another one is chosen; nonterminals get a glaring one. -/
def Symbol.defaultColor : Symbol → Color
  | grassRect => ⟨118, 170, 82⟩
  | pathRect => ⟨214, 196, 160⟩
  | treeCircle => ⟨46, 104, 48⟩
  | waterCircle | waterRect => ⟨82, 150, 214⟩
  | fountain => ⟨150, 200, 235⟩
  | roseBed => ⟨206, 64, 92⟩
  | tulipBed => ⟨240, 170, 60⟩
  | garden | area | pathSystem | flowerArea => ⟨200, 0, 200⟩

/-- The size of an image in pixels, the part of the plane that it shows, which begins at the
origin, and its colours. -/
structure Canvas where
  width : UInt32
  height : UInt32
  extent : Point
  background : Color := ⟨238, 232, 214⟩
  color : Symbol → Color := Symbol.defaultColor

namespace Canvas

/-- The number of pixels for a length; at least one. -/
def pixels (length pixelsPerUnit : Float32) : UInt32 :=
  UInt32.ofNat <|
    toNatUpTo (UInt32.size - 1) (greatest (roundHalfAway (length * pixelsPerUnit)) 1.0)

/-- The canvas that shows a plot with some number of pixels to the unit. -/
def ofPlot (plot : Plot) (pixelsPerUnit : Float32) : Canvas where
  width := pixels plot.width pixelsPerUnit
  height := pixels plot.height pixelsPerUnit
  extent := ⟨plot.width, plot.height⟩

def setColor (c : Canvas) (s : Symbol) (color : Color) : Canvas :=
  { c with color := fun t => if t = s then color else c.color t }

/-- The pixels to the unit along an axis; an extent of nothing or less counts as tiny. -/
def ratio (pixels : UInt32) (extent : Float32) : Float32 :=
  fromNat pixels.toNat / greatest extent 1.1920929e-7

def scale (c : Canvas) : Point := ⟨ratio c.width c.extent.x, ratio c.height c.extent.y⟩

end Canvas
end Parterre
