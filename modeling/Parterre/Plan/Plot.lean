import Parterre.Plan.Rejection

/-! # Plots

The ground that a garden is laid out on.  A margin stays free on every side; what is left is the
working rectangle, which has to be finite and to extend along both axes. -/
namespace Parterre
open Binary32

/-- A plot in units, of which a metre has ten. -/
structure Plot where
  width : Float32
  height : Float32
  /-- The width of the free strip along every side. -/
  margin : Float32 := 10.0
  deriving DecidableEq

namespace Plot

def unitsPerMetre : Float32 := 10.0

/-- The plot of a size in metres, brought into the range from 10 to 75 across and from 10 to 60
down. -/
def ofMetres (width height : Float32) : Plot where
  width := clamp width 10.0 75.0 * unitsPerMetre
  height := clamp height 10.0 60.0 * unitsPerMetre

def workingRect (p : Plot) : Rect :=
  ⟨p.margin, p.margin, p.width - 2.0 * p.margin, p.height - 2.0 * p.margin⟩

end Plot

/-- Rejects a rectangle that no garden can be laid out in. -/
def Rect.validateWorking (r : Rect) : Except Rejection Unit :=
  if !r.isFinite then .error (.plot (.notFinite r))
  else if !r.isPositive then .error (.plot (.noExtent r.w r.h))
  else .ok ()

def Plot.validate (p : Plot) : Except Rejection Unit := p.workingRect.validateWorking

end Parterre
