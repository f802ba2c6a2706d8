import Parterre.Shape.Rect
import Parterre.Chance.Draw

/-! # Cutting a rectangle in two

A cut runs along one axis and gives the first part a half, three fifths or two fifths of the
rectangle.  Long rectangles are cut across, near-square ones either way.  `Rect.isCuttable` says
whether some eligible cut leaves two parts that are not too narrow. -/
namespace Parterre
open Chance

/-- The direction of the cutting line: a vertical one leaves two parts side by side, a horizontal
one two parts on top of each other. -/
inductive Axis where
  | vertical
  | horizontal
  deriving DecidableEq

/-- The share of the first part. -/
inductive Share where
  | half
  | threeFifths
  | twoFifths
  deriving DecidableEq

def Share.fraction : Share → Float32
  | half => 0.5
  | threeFifths => 0.6
  | twoFifths => 0.4

structure Cut where
  axis : Axis
  share : Share
  deriving DecidableEq

namespace Cut

/-- A rectangle is long if one side exceeds the other by more than this factor. -/
def longRatio : Float32 := 1.3

def all : List Cut :=
  [⟨.vertical, .half⟩, ⟨.vertical, .threeFifths⟩, ⟨.vertical, .twoFifths⟩,
    ⟨.horizontal, .half⟩, ⟨.horizontal, .threeFifths⟩, ⟨.horizontal, .twoFifths⟩]

/-- The cuts along one axis, where the even one counts twice. -/
def along (axis : Axis) : List Cut :=
  [⟨axis, .half⟩, ⟨axis, .half⟩, ⟨axis, .threeFifths⟩, ⟨axis, .twoFifths⟩]

/-- The cuts that `r` may receive.  One of them is drawn, so repetition is weight. -/
def candidates (r : Rect) : List Cut :=
  if r.w > r.h * longRatio then along .vertical
  else if r.h > r.w * longRatio then along .horizontal
  else all

def name (c : Cut) : String :=
  let axis := match c.axis with
    | .vertical => "Vertical"
    | .horizontal => "Horizontal"
  let share := match c.share with
    | .half => "50"
    | .threeFifths => "60_40"
    | .twoFifths => "40_60"
  axis ++ share

end Cut

namespace Rect

def firstPart (r : Rect) (c : Cut) : Rect :=
  match c.axis with
  | .vertical => ⟨r.x, r.y, r.w * c.share.fraction, r.h⟩
  | .horizontal => ⟨r.x, r.y, r.w, r.h * c.share.fraction⟩

def secondPart (r : Rect) (c : Cut) : Rect :=
  match c.axis with
  | .vertical => ⟨r.x + r.w * c.share.fraction, r.y, r.w * (1.0 - c.share.fraction), r.h⟩
  | .horizontal => ⟨r.x, r.y + r.h * c.share.fraction, r.w, r.h * (1.0 - c.share.fraction)⟩

/-- Whether both parts have sides of at least `minSide`. -/
def fits (r : Rect) (c : Cut) (minSide : Float32) : Bool :=
  (r.firstPart c).minSide ≥ minSide && (r.secondPart c).minSide ≥ minSide

def isCuttable (r : Rect) (minSide : Float32) : Bool :=
  (Cut.candidates r).any fun c => r.fits c minSide

def drawCut {σ : Type} [WordSource σ] (r : Rect) (source : σ) : Cut × σ :=
  drawFrom (Cut.candidates r) ⟨.vertical, .half⟩ source

end Rect
end Parterre
