import Parterre.Plan.Rejection

/-! # Parameters of a derivation -/
namespace Parterre

structure Params where
  /-- How often an area may be cut in two. -/
  divisions : Nat := 3
  /-- From 1 to 5; the more paths, the less water. -/
  pathsIntensity : Nat := 3
  /-- The weight of flowers, from 0 to 1. -/
  flowersBias : Float32 := 0.5
  /-- The weight of trees, from 0 to 1. -/
  treesBias : Float32 := 0.5
  deriving DecidableEq

namespace Params

/-- Whether a bias lies between 0 and 1; NaN does not. -/
def isBias (b : Float32) : Bool := 0.0 ≤ b && b ≤ 1.0

/-- Rejects parameters out of range, the first of them if there are more. -/
def validate (p : Params) : Except Rejection Unit :=
  if !(1 ≤ p.pathsIntensity && p.pathsIntensity ≤ 5) then
    .error (.params (.pathsIntensity p.pathsIntensity))
  else if !isBias p.flowersBias then .error (.params (.flowersBias p.flowersBias))
  else if !isBias p.treesBias then .error (.params (.treesBias p.treesBias))
  else .ok ()

end Params
end Parterre
