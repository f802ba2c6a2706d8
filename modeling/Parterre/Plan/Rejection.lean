import Parterre.Shape.Rect

/-! # Rejected inputs

A derivation never fails; what can be rejected is the input that it would start from.  A rejection
says what is wrong, and `Rejection.message` puts it into words. -/
namespace Parterre
open Binary32

inductive ParamsFault where
  | pathsIntensity (got : Nat)
  | flowersBias (got : Float32)
  | treesBias (got : Float32)
  | described (text : String)
  deriving DecidableEq

inductive PlotFault where
  | notFinite (working : Rect)
  | noExtent (w h : Float32)
  | described (text : String)
  deriving DecidableEq

inductive Rejection where
  | params (fault : ParamsFault)
  | plot (fault : PlotFault)
  | other (text : String)
  deriving DecidableEq

def ParamsFault.text : ParamsFault → String
  | pathsIntensity got => "paths_intensity must be in 1..=5, got " ++ toString got
  | flowersBias got => "flowers_bias must be in [0, 1], got " ++ plain.text got
  | treesBias got => "trees_bias must be in [0, 1], got " ++ plain.text got
  | described text => text

def PlotFault.text : PlotFault → String
  | notFinite working => "working rectangle must be finite, got " ++ working.text
  | noExtent w h =>
    "working rectangle must have a positive extent, got " ++ plain.text w ++ " x " ++ plain.text h
  | described text => text

def Rejection.message : Rejection → String
  | params fault => "invalid configuration: " ++ fault.text
  | plot fault => "invalid plot: " ++ fault.text
  | other text => text

end Parterre
